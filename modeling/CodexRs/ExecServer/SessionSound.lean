import CodexRs.ExecServer.SessionRegistry

/-!
# What the session registry keeps

A session is either attached to the one connection that is live, or detached since the moment when
its deadline was set.
-/
namespace CodexRs.ExecServer
open Tasks Machine Function Option SessionEntry SessionRegistry

variable {ι : Type*}

namespace SessionEntry
variable {entry : SessionEntry} {now : Instant}

attribute [local grind =] isExpired isDetachedConnectionExpired

theorem isExpired_of_detached {connectionId : ConnectionId}
    (h : entry.isDetachedConnectionExpired connectionId now = true) :
    entry.isExpired now = true := by
  grind

end SessionEntry

namespace SessionRegistry
variable {s s' : SessionRegistry ι} {t t' : RegistryCall} {i j : ι} {r : EntryRef}

@[grind] def Registered (s : SessionRegistry ι) (r : EntryRef) : Prop :=
  ∃ sessionId, s.sessions.lookup sessionId = some r

/-- No connection has been attached for the time to live of a detached session. -/
@[grind] def Abandoned (s : SessionRegistry ι) (r : EntryRef) : Prop :=
  s.live r = [] ∧ ∃ since, s.detachedSince r = some since ∧ since + detachedSessionTtl ≤ s.now

/-- The attachment of an entry says who is live, or since when nobody is. -/
@[mk_iff, grind cases]
inductive EntrySound (s : SessionRegistry ι) (r : EntryRef) : Prop
  | unallocated (hr : s.allocated ≤ r) (hstate : (s.entry r).attachment = ⟨none, none, none⟩)
      (hlive : s.live r = [])
  | attached (connectionId : ConnectionId) (hr : r < s.allocated)
      (hstate : (s.entry r).attachment = ⟨some connectionId, none, none⟩)
      (hlive : s.live r = [connectionId]) (hregistered : s.Registered r)
  | detached (connectionId : ConnectionId) (since : Instant) (hr : r < s.allocated)
      (hstate : (s.entry r).attachment =
        ⟨none, some connectionId, some (since + detachedSessionTtl)⟩)
      (hlive : s.live r = []) (hsince : s.detachedSince r = some since)

structure Sound (s : SessionRegistry ι) : Prop where
  entry : ∀ r, s.EntrySound r
  lookup : ∀ {sessionId r}, s.sessions.lookup sessionId = some r →
    r < s.allocated ∧ (s.entry r).sessionId = sessionId
  returned : ∀ {handle}, .ok handle ∈ s.returned →
    ∃ supplier, s.supplied handle.connectionId = some supplier

attribute [local grind =] entrySound_iff isExpired hasActiveConnection

theorem EntrySound.live_eq (h : s.EntrySound r) :
    s.live r = (s.entry r).attachment.currentConnectionId.toList := by
  grind

theorem Sound.abandoned {now : Instant} (h : s.Sound) (hnow : now ≤ s.now)
    (hexpired : (s.entry r).isExpired now = true) : s.Abandoned r := by
  have hsound := h.entry r
  grind

/-- The call was made by the task, and no handle for its connection was returned. -/
@[mk_iff] structure Supplies (i : ι) (s : SessionRegistry ι) (call : AttachCall) : Prop where
  supplied : s.supplied call.connectionId = some (call.notifications, i)
  unreturned : ∀ handle, .ok handle ∈ s.returned → handle.connectionId ≠ call.connectionId

/-- The task holds the lock of the map, and has found the entry in it. -/
@[mk_iff]
structure Holds (i : ι) (s : SessionRegistry ι) (sessionId : SessionId) (r : EntryRef) : Prop where
  holder : s.holder = some i
  lookup : s.sessions.lookup sessionId = some r

theorem Holds.eq_of_lookup {i : ι} {sessionId : SessionId} {r q : EntryRef}
    (h : Holds i s sessionId r) (hlookup : s.sessions.lookup sessionId = some q) : r = q :=
  some.inj (h.lookup.symm.trans hlookup)

/-- The task holds the lock of the map, and nobody is attached to the entry that it attaches to. -/
@[mk_iff] structure Vacant (i : ι) (s : SessionRegistry ι) (r : EntryRef) : Prop where
  holder : s.holder = some i
  registered : s.Registered r
  live : s.live r = []

/-- The session was removed, and will not come back. -/
@[mk_iff] structure Removed (s : SessionRegistry ι) (r : EntryRef) : Prop where
  allocated : r < s.allocated
  unregistered : ¬ s.Registered r
  abandoned : s.Abandoned r

/-- The session is attached to the connection, whose handle nobody has yet. -/
@[mk_iff]
structure Attached (i : ι) (s : SessionRegistry ι) (handle : SessionHandle) : Prop where
  live : s.live handle.entry = [handle.connectionId]
  supplies : ∃ notifications, Supplies i s ⟨handle.connectionId, notifications⟩

attribute [local grind =] supplies_iff holds_iff vacant_iff removed_iff attached_iff

def CallSound (i : ι) (s : SessionRegistry ι) : RegistryCall → Prop
  | .attaching _ call => Supplies i s call
  | .found sessionId r call => Holds i s sessionId r ∧ Supplies i s call
  | .resuming sessionId r call now =>
    Holds i s sessionId r ∧ Supplies i s call ∧ now ≤ s.now
  | .unexpired sessionId r call => Holds i s sessionId r ∧ Supplies i s call
  | .supplying r call => Vacant i s r ∧ Supplies i s call
  | .entering r call => Vacant i s r ∧ Supplies i s call
  | .returning handle => Attached i s handle
  | .detaching handle => .ok handle ∈ s.returned
  | .expiringFound sessionId _ r => Holds i s sessionId r
  | .expiringAt sessionId _ r now => Holds i s sessionId r ∧ now ≤ s.now
  | .shuttingDown r _ => s.Removed r
  | _ => True

/-- What a task may rely on while others take their turns. -/
structure Rely (j : ι) (s s' : SessionRegistry ι) : Prop where
  supplied : ∀ {connectionId supplier}, s.supplied connectionId = some supplier →
    s'.supplied connectionId = some supplier
  returned : ∀ {handle}, .ok handle ∈ s.returned → .ok handle ∈ s'.returned
  unreturned : ∀ {handle}, .ok handle ∈ s'.returned → .ok handle ∈ s.returned ∨
    ∀ notifications, s.supplied handle.connectionId ≠ some (notifications, j)
  holder : s.holder = some j → s'.holder = some j
  sessions : s.holder = some j → s'.sessions = s.sessions
  vacant : s.holder = some j → ∀ {r}, s.live r = [] → s'.live r = []
  now : s.now ≤ s'.now
  allocated : s.allocated ≤ s'.allocated
  attached : ∀ {r connectionId}, s.live r = [connectionId] →
    .ok ⟨r, connectionId⟩ ∉ s.returned → s'.live r = [connectionId]
  unregistered : ∀ {r}, r < s.allocated → ¬ s.Registered r → ¬ s'.Registered r
  live : ∀ {r}, r < s.allocated → ¬ s.Registered r → s'.live r = s.live r
  detachedSince : ∀ {r}, r < s.allocated → ¬ s.Registered r →
    s'.detachedSince r = s.detachedSince r

/-- What a call has found out stays so while others take their turns. -/
theorem Rely.callSound (h : Rely j s s') (hs : CallSound j s t) : CallSound j s' t := by
  obtain ⟨hsupplied, hreturned, hunreturned, hholder, hsessions, hvacant, hnow, hallocated,
    hattached, hunregistered, hlive, hsince⟩ := h
  cases t <;> dsimp only [CallSound] at hs ⊢ <;> grind

/-- The map is the same, and so is who is attached where. -/
structure Same (s s' : SessionRegistry ι) : Prop where
  sessions : s'.sessions = s.sessions
  allocated : s'.allocated = s.allocated
  live : s'.live = s.live
  detachedSince : s'.detachedSince = s.detachedSince
  sessionId : ∀ r, (s'.entry r).sessionId = (s.entry r).sessionId
  attachment : ∀ r, (s'.entry r).attachment = (s.entry r).attachment

namespace Same

theorem refl (s : SessionRegistry ι) : Same s s := ⟨rfl, rfl, rfl, rfl, fun _ => rfl, fun _ => rfl⟩

theorem registered (h : Same s s') : s'.Registered r ↔ s.Registered r := by
  simp only [Registered, h.sessions]

theorem sound (h : Same s s') (hs : s.Sound) (hreturned : ∀ {handle}, .ok handle ∈ s'.returned →
      ∃ supplier, s'.supplied handle.connectionId = some supplier) : s'.Sound := by
  obtain ⟨hentry, hlookup, -⟩ := hs
  obtain ⟨hsessions, hallocated, hlive, hsince, hid, hattachment⟩ := h
  refine ⟨fun r => ?_, ?_, hreturned⟩
  · have hsound := hentry r
    grind
  · grind

theorem rely (h : Same s s')
    (hsupplied : ∀ {connectionId supplier}, s.supplied connectionId = some supplier →
      s'.supplied connectionId = some supplier)
    (hreturned : ∀ {handle}, .ok handle ∈ s.returned → .ok handle ∈ s'.returned)
    (hunreturned : ∀ {handle}, .ok handle ∈ s'.returned → .ok handle ∈ s.returned ∨
      ∀ notifications, s.supplied handle.connectionId ≠ some (notifications, j))
    (hholder : s.holder = some j → s'.holder = some j) (hnow : s.now ≤ s'.now) :
    Rely j s s' where
  supplied := hsupplied
  returned := hreturned
  unreturned := hunreturned
  holder := hholder
  sessions _ := h.sessions
  vacant := by simp [h.live]
  now := hnow
  allocated := h.allocated.ge
  attached := by simp +contextual [h.live]
  unregistered _ := by simp [h.registered]
  live _ _ := by rw [h.live]
  detachedSince _ _ := by rw [h.detachedSince]

theorem update {f : SessionEntry → SessionEntry} (s : SessionRegistry ι) (r : EntryRef)
    (hid : ∀ entry, (f entry).sessionId = entry.sessionId)
    (hstate : ∀ entry, (f entry).attachment = entry.attachment) : Same s (s.update r f) :=
  { refl s with
    sessionId := by
      simp only [SessionRegistry.update]
      grind
    attachment := by
      simp only [SessionRegistry.update]
      grind }

end Same

/-- A turn that hands out nothing either: no handle is returned and no sender supplied. -/
structure Quiet (s s' : SessionRegistry ι) : Prop extends Same s s' where
  supplied : s'.supplied = s.supplied
  returned : ∀ handle, .ok handle ∈ s'.returned ↔ .ok handle ∈ s.returned
  now : s.now ≤ s'.now

namespace Quiet

theorem refl (s : SessionRegistry ι) : Quiet s s := ⟨.refl s, rfl, fun _ => .rfl, le_rfl⟩

theorem lock (h : Quiet s s') (i : ι) : Quiet s (s'.lock i) := { h with }

theorem unlock (h : Quiet s s') : Quiet s s'.unlock := { h with }

theorem answer (h : Quiet s s') (error : JsonRpcErrorError) : Quiet s (s'.answer (.error error)) :=
  { h with returned := fun handle => by simpa [SessionRegistry.answer] using h.returned handle }

theorem runnable (h : Quiet s s') (tasks : List (SessionId × ConnectionId)) :
    Quiet s { s' with runnable := tasks } := { h with }

theorem tick (s : SessionRegistry ι) (elapsed : ℕ) : Quiet s { s with now := s.now + elapsed } :=
  { refl s with now := Nat.le_add_right _ _ }

theorem setNotificationSender (s : SessionRegistry ι) (r : EntryRef)
    (notifications : Option RpcNotificationSender) :
    Quiet s (s.update r (·.setNotificationSender notifications)) :=
  ⟨.update s r (fun _ => rfl) (fun _ => rfl), rfl, fun _ => .rfl, le_rfl⟩

theorem shutdown (s : SessionRegistry ι) (r : EntryRef) : Quiet s (s.update r shutdown) :=
  ⟨.update s r (fun _ => rfl) (fun _ => rfl), rfl, fun _ => .rfl, le_rfl⟩

theorem isSound (h : Quiet s s') (hs : s.Sound) : s'.Sound := by
  refine h.sound hs fun {handle} hmem => ?_
  rw [h.supplied]
  exact hs.returned ((h.returned handle).mp hmem)

theorem isRely (h : Quiet s s') (hholder : s.holder = some j → s'.holder = some j) : Rely j s s' :=
  h.rely (by simp [h.supplied]) (h.returned _).mpr (fun hmem => .inl ((h.returned _).mp hmem))
    hholder h.now

end Quiet

section
variable {call : AttachCall} {sessionId : SessionId} {handle : SessionHandle}

theorem Same.supply (s : SessionRegistry ι) (i : ι) (call : AttachCall) : Same s (s.supply i call) :=
  { refl s with }

@[grind =] theorem supply_supplied (connectionId : ConnectionId) :
    (s.supply i call).supplied connectionId = if connectionId = call.connectionId then
      some (call.notifications, i) else s.supplied connectionId :=
  update_apply ..

theorem Sound.supply (h : s.Sound) (hnew : s.supplied call.connectionId = none) :
    (s.supply i call).Sound := by
  refine (Same.supply s i call).sound h fun hmem => ?_
  have hreturned := h.returned hmem
  grind

theorem Rely.supply (hnew : s.supplied call.connectionId = none) : Rely j s (s.supply i call) :=
  (Same.supply s i call).rely (by grind) (fun h => h) .inl (fun h => h) le_rfl

theorem Same.answer (s : SessionRegistry ι) (handle : SessionHandle) :
    Same s (s.answer (.ok handle)) := { refl s with }

theorem Sound.answer (h : s.Sound) (hattached : Attached i s handle) :
    (s.answer (.ok handle)).Sound := by
  refine (Same.answer s handle).sound h fun {other} hmem => ?_
  have hreturned := @h.returned other
  simp only [SessionRegistry.answer] at hmem ⊢
  grind

theorem Rely.answer (hj : j ≠ i) (hattached : Attached i s handle) :
    Rely j s (s.answer (.ok handle)) :=
  (Same.answer s handle).rely (fun h => h) (List.mem_cons_of_mem _)
    (by grind [answer]) (fun h => h) le_rfl

theorem live_allocated (h : s.Sound) : s.live s.allocated = [] := by
  have hsound := h.entry s.allocated
  grind

theorem lookup_of_new (h : s.Sound) (hnew : ∀ r < s.allocated, (s.entry r).sessionId ≠ sessionId) :
    s.sessions.lookup sessionId = none :=
  eq_none_iff_forall_ne_some.mpr fun r hr => hnew r (h.lookup hr).1 (h.lookup hr).2

@[grind =] theorem create_entry (r : EntryRef) : (s.create sessionId call).entry r =
    if r = s.allocated then .new sessionId call.notifications call.connectionId else s.entry r :=
  update_apply ..

@[grind =] theorem create_live (r : EntryRef) : (s.create sessionId call).live r =
    if r = s.allocated then call.connectionId :: s.live s.allocated else s.live r :=
  update_apply ..

@[grind =] theorem create_detachedSince (r : EntryRef) : (s.create sessionId call).detachedSince r =
      if r = s.allocated then none else s.detachedSince r :=
  update_apply ..

theorem registered_create (hnone : s.sessions.lookup sessionId = none) :
    (s.create sessionId call).Registered r ↔ r = s.allocated ∨ s.Registered r := by
  have hself : (s.create sessionId call).sessions.lookup sessionId = some s.allocated :=
    AList.lookup_insert _
  have hothers : ∀ other, s.sessions.lookup other = if other = sessionId then none else
      (s.create sessionId call).sessions.lookup other := by
    intro other
    split_ifs with h
    · rw [h, hnone]
    · exact (AList.lookup_insert_ne h).symm
  grind

theorem Sound.create (h : s.Sound) (hnew : ∀ r < s.allocated, (s.entry r).sessionId ≠ sessionId) :
    (s.create sessionId call).Sound := by
  obtain ⟨hentry, hlookup, hreturned⟩ := h
  have hnone := lookup_of_new ⟨hentry, hlookup, hreturned⟩ hnew
  refine ⟨fun r => ?_, ?_, hreturned⟩
  · have hsound := hentry r
    have hregistered : (s.create sessionId call).Registered r ↔ _ := registered_create hnone
    grind [create, noteAttached, SessionEntry.new]
  · simp only [SessionRegistry.create, noteAttached, SessionEntry.new]
    grind [update_apply]

theorem Rely.create (h : s.Sound) (hfree : s.holder = none) :
    Rely j s (s.create sessionId call) := by
  have hlive := live_allocated h
  constructor <;>
    simp only [SessionRegistry.create, noteAttached] <;> grind

theorem registered_remove (h : s.Sound) (hlookup : s.sessions.lookup sessionId = some r)
    {q : EntryRef} : (s.remove sessionId).Registered q ↔ q ≠ r ∧ s.Registered q := by
  have herase := Table.lookup_erase_eq_ite s.sessions sessionId
  have hone := @h.lookup
  simp only [remove]
  grind

theorem Sound.remove (h : s.Sound) (hlookup : s.sessions.lookup sessionId = some r)
    (hlive : s.live r = []) : (s.remove sessionId).unlock.Sound := by
  refine ⟨fun q => ?_, fun hother => h.lookup (Table.lookup_of_lookup_erase hother).2, h.returned⟩
  have hregistered : (s.remove sessionId).unlock.Registered q ↔ q ≠ r ∧ s.Registered q :=
    registered_remove h hlookup
  cases h.entry q with
  | unallocated hr hstate hnone => exact .unallocated hr hstate hnone
  | attached connectionId hr hstate hone hreg =>
    exact .attached connectionId hr hstate hone (by grind)
  | detached connectionId since hr hstate hnone hsince =>
    exact .detached connectionId since hr hstate hnone hsince

theorem Rely.remove (hj : j ≠ i) (hholder : s.holder = some i) :
    Rely j s (s.remove sessionId).unlock := by
  constructor <;> simp only [SessionRegistry.remove, unlock] <;> grind

@[grind =] theorem enter_entry (q : EntryRef) (connectionId : ConnectionId) :
    (s.enter r connectionId).entry q =
      if q = r then (s.entry r).attach connectionId else s.entry q :=
  update_apply ..

@[grind =] theorem enter_live (q : EntryRef) (connectionId : ConnectionId) :
    (s.enter r connectionId).live q = if q = r then connectionId :: s.live r else s.live q :=
  update_apply ..

theorem Sound.enter (h : s.Sound) (hvacant : Vacant i s r) (connectionId : ConnectionId) :
    (s.enter r connectionId).Sound := by
  obtain ⟨hentry, hlookup, hreturned⟩ := h
  obtain ⟨hholder, hregistered, hlive⟩ := hvacant
  simp only [entrySound_iff, Registered] at hentry
  constructor <;> simp only [entrySound_iff, Registered, SessionRegistry.enter, update,
    noteAttached, unlock, SessionEntry.attach, update_apply] <;> grind

theorem Rely.enter (hj : j ≠ i) (hvacant : Vacant i s r) (connectionId : ConnectionId) :
    Rely j s (s.enter r connectionId) := by
  constructor <;> simp only [SessionRegistry.enter, update, noteAttached, unlock,
    SessionEntry.attach] <;> grind

theorem noteDetached_of_detach_none (h : s.Sound)
    (hnone : (s.entry handle.entry).detach handle.connectionId s.now = none) :
    s.noteDetached handle.entry handle.connectionId = s := by
  have hlive := (h.entry handle.entry).live_eq
  apply if_neg
  grind [detach]

/-- What a detachment of a live connection comes to. -/
structure Detaches (s : SessionRegistry ι) (handle : SessionHandle) (s' : SessionRegistry ι) :
    Prop where
  live : s.live handle.entry = [handle.connectionId]
  result : s' = { s with
    entry := Function.update s.entry handle.entry { s.entry handle.entry with
      attachment := ⟨none, some handle.connectionId, some (s.now + detachedSessionTtl)⟩ }
    live := Function.update s.live handle.entry []
    detachedSince := Function.update s.detachedSince handle.entry (some s.now) }

theorem detaches_of_detach {entry : SessionEntry} (h : s.Sound)
    (hsome : (s.entry handle.entry).detach handle.connectionId s.now = some entry) :
    Detaches s handle
      ((s.noteDetached handle.entry handle.connectionId).update handle.entry fun _ => entry) := by
  unfold detach at hsome
  split_ifs at hsome with hcurrent
  rw [not_not] at hcurrent
  obtain rfl := some.inj hsome
  have hlive : s.live handle.entry = [handle.connectionId] := by
    rw [(h.entry handle.entry).live_eq, hcurrent]
    rfl
  refine ⟨hlive, ?_⟩
  simp [noteDetached, update, hlive]

theorem Sound.detach (h : s.Sound) (hd : Detaches s handle s') : s'.Sound := by
  obtain ⟨hone, rfl⟩ := hd
  obtain ⟨hentry, hlookup, hreturned⟩ := h
  refine ⟨fun q => ?_, ?_, hreturned⟩
  · have hsound := hentry q
    have hmine := hentry handle.entry
    grind
  · grind [update_apply]

theorem Rely.detach (h : s.Sound) (hd : Detaches s handle s') (hreturned : .ok handle ∈ s.returned) :
    Rely j s s' := by
  obtain ⟨hone, rfl⟩ := hd
  obtain ⟨r, connectionId⟩ := handle
  have hmine := h.entry r
  constructor <;> simp only <;> grind

end

/-- A turn keeps the invariant, and the others can rely on what it leaves. -/
theorem Sound.move (h : s.Sound) (hcall : CallSound i s t) (hmove : Move i s t s' t') :
    s'.Sound ∧ ∀ j ≠ i, Rely j s s' := by
  have hfree : s.holder = none → ∀ j, s.holder = some j → s'.holder = some j := by
    intro hnone j hj
    rw [hnone] at hj
    cases hj
  have hmine : s.holder = some i → ∀ j ≠ i, s.holder = some j → s'.holder = some j := by
    intro hholder j hne hj
    exact absurd (some.inj (hj.symm.trans hholder)) hne
  have quiet : Quiet s s' → (∀ j ≠ i, s.holder = some j → s'.holder = some j) →
      s'.Sound ∧ ∀ j ≠ i, Rely j s s' :=
    fun hquiet hholder => ⟨hquiet.isSound h, fun j hj => hquiet.isRely (hholder j hj)⟩
  cases hmove with
  | call _ call hnew => exact ⟨h.supply hnew, fun _ _ => .supply hnew⟩
  | create _ _ hnone hnew => exact ⟨h.create hnew, fun _ _ => .create h hnone⟩
  | refuse => exact quiet ((Quiet.refl s).answer _) fun _ _ h => h
  | find _ _ _ hnone | findExpiring _ _ _ hnone =>
    exact quiet ((Quiet.refl s).lock i) fun j _ => hfree hnone j
  | readClock | unexpired | vacant | detachCall | wake | gone | readClockExpiring =>
    exact quiet (.refl s) fun _ _ h => h
  | expired _ _ r q now hexpired hlookup =>
    obtain ⟨hholds, -, hnow⟩ := hcall
    obtain rfl := hholds.eq_of_lookup hlookup
    have habandoned := h.abandoned hnow hexpired
    exact ⟨h.remove hlookup habandoned.1, fun j hj => .remove hj hholds.holder⟩
  | lost | busy => exact quiet ((Quiet.refl s).unlock.answer _) (hmine hcall.1.holder)
  | supply => exact quiet (.setNotificationSender s _ _) fun _ _ h => h
  | enter => exact ⟨h.enter hcall.1 _, fun j hj => .enter hj hcall.1 _⟩
  | returned handle => exact ⟨h.answer hcall, fun j hj => .answer hj hcall⟩
  | detachNone handle hnone =>
    rw [noteDetached_of_detach_none h hnone] at hfree hmine quiet ⊢
    exact quiet (.refl s) fun _ _ h => h
  | detach handle entry hsome =>
    have hd := detaches_of_detach h hsome
    exact ⟨h.detach hd, fun j _ => .detach h hd hcall⟩
  | clear => exact quiet ((Quiet.setNotificationSender s _ _).runnable _) fun _ _ h => h
  | run => exact quiet ((Quiet.refl s).runnable _) fun _ _ h => h
  | expire _ _ r q now hexpired hlookup =>
    obtain ⟨hholds, hnow⟩ := hcall
    obtain rfl := hholds.eq_of_lookup hlookup
    have habandoned := h.abandoned hnow (isExpired_of_detached hexpired)
    exact ⟨h.remove hlookup habandoned.1, fun j hj => .remove hj hholds.holder⟩
  | keep => exact quiet (Quiet.refl s).unlock (hmine hcall.1.holder)
  | shutdown => exact quiet (.shutdown s _) fun _ _ h => h
  | shutdownRefuse => exact quiet ((Quiet.shutdown s _).answer _) fun _ _ h => h
  | tick => exact quiet (.tick s _) fun _ _ h => h

theorem Supplies.supply (h : s.Sound) {call : AttachCall}
    (hnew : s.supplied call.connectionId = none) : Supplies i (s.supply i call) call where
  supplied := update_self _ _ _
  unreturned handle hmem heq := by
    obtain ⟨supplier, hsupplied⟩ := h.returned hmem
    rw [heq, hnew] at hsupplied
    cases hsupplied

theorem Removed.of_remove {sessionId : SessionId} (h : s.Sound)
    (hlookup : s.sessions.lookup sessionId = some r) (habandoned : s.Abandoned r) :
    (s.remove sessionId).unlock.Removed r where
  allocated := (h.lookup hlookup).1
  unregistered hregistered := ((registered_remove h hlookup).mp hregistered).1 rfl
  abandoned := habandoned

theorem CallSound.move (h : s.Sound) (hcall : CallSound i s t) (hmove : Move i s t s' t') :
    CallSound i s' t' := by
  cases hmove with
  | call _ call hnew => exact .supply h hnew
  | create sessionId call =>
    have hlive := live_allocated h
    exact ⟨by grind, call.notifications, ⟨hcall.1, hcall.2⟩⟩
  | find _ _ _ _ hlookup => exact ⟨⟨rfl, hlookup⟩, hcall.1, hcall.2⟩
  | readClock => exact ⟨hcall.1, hcall.2, le_rfl⟩
  | unexpired => exact ⟨hcall.1, hcall.2.1⟩
  | expired _ _ r q now hexpired hlookup =>
    obtain ⟨hholds, -, hnow⟩ := hcall
    obtain rfl := hholds.eq_of_lookup hlookup
    exact .of_remove h hlookup (h.abandoned hnow hexpired)
  | vacant sessionId call r hvacant =>
    have hlive : s.live r = [] := by
      rw [(h.entry r).live_eq]
      simpa [hasActiveConnection] using hvacant
    exact ⟨⟨hcall.1.holder, ⟨sessionId, hcall.1.lookup⟩, hlive⟩, hcall.2⟩
  | supply =>
    exact ⟨⟨hcall.1.holder, hcall.1.registered, hcall.1.live⟩, hcall.2.supplied, hcall.2.unreturned⟩
  | enter call r =>
    have hlive := hcall.1.live
    exact ⟨by grind, call.notifications, ⟨hcall.2.1, hcall.2.2⟩⟩
  | detachCall _ hmem => exact hmem
  | findExpiring _ _ _ _ hlookup => exact ⟨rfl, hlookup⟩
  | readClockExpiring => exact ⟨hcall, le_rfl⟩
  | expire _ _ r q now hexpired hlookup =>
    obtain ⟨hholds, hnow⟩ := hcall
    obtain rfl := hholds.eq_of_lookup hlookup
    exact .of_remove h hlookup (h.abandoned hnow (isExpired_of_detached hexpired))
  | tick => exact ((Quiet.tick s _).isRely fun h => h).callSound hcall
  | _ => trivial

theorem registry_kept
    {allowed : Config ι (SessionRegistry ι) RegistryCall → Turn ι RegistryAction → Prop} :
    Kept sec allowed Sound CallSound :=
  .ofRely
    (fun {_ i _ _ _} hI hJ _ hsec =>
      ⟨(hI.move (hJ i) (move_of_sec hsec)).1, (hJ i).move hI (move_of_sec hsec)⟩)
    (fun {_ _ j _ _ _} hj hI hi hsec => (hI.move hi (move_of_sec hsec)).2 j hj)
    Rely.callSound

/-- No session and no call. -/
def start : Config ι (SessionRegistry ι) RegistryCall := ⟨.new, fun _ => .idle⟩

theorem sound_new : (new : SessionRegistry ι).Sound where
  entry r := .unallocated (Nat.zero_le r) rfl rfl
  lookup h := by cases h
  returned h := by cases h

end SessionRegistry

open SessionRegistry

variable [DecidableEq ι]

theorem SessionRegistry.sound_of_run
    {allowed : Config ι (SessionRegistry ι) RegistryCall → Turn ι RegistryAction → Prop}
    {turns : List (Turn ι RegistryAction)} {c : Config ι (SessionRegistry ι) RegistryCall}
    (hrun : Run (Step sec allowed) start turns c) :
    c.shared.Sound ∧ ∀ i, CallSound i c.shared (c.task i) :=
  registry_kept.run hrun ⟨sound_new, fun _ => trivial⟩

end CodexRs.ExecServer
