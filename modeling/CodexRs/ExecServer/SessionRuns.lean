import CodexRs.ExecServer.SessionSound

/-!
# Attachment, expiry and notifications of sessions

A session is attached to one connection at a time, and whatever removes it finds that it was
detached for its time to live. A connection that comes in between the two halves of a detachment
loses its sender to the second half.
-/
namespace CodexRs.ExecServer
open Tasks Machine SessionRegistry SessionEntry

variable {ι : Type*}

section
open Option

/-- At most one connection is live in a session, the one that the session knows of. -/
def Exclusive (s : SessionRegistry ι) : Prop :=
  ∀ r, (s.live r).length ≤ 1 ∧
    ∀ connectionId, connectionId ∈ s.live r ↔ (s.entry r).isAttachedTo connectionId = true

/-- A session is removed from the map, and its processes are shut down, only if it is abandoned. -/
def RemovesAbandoned (s s' : SessionRegistry ι) : Prop :=
  ∀ r, (s.Registered r ∧ ¬ s'.Registered r) ∨
    ((s.entry r).shutDown = false ∧ (s'.entry r).shutDown = true) → s.Abandoned r

/-- A handle is returned only for a session in the map. -/
def ReturnsRegistered (s s' : SessionRegistry ι) : Prop :=
  ∀ handle, .ok handle ∈ s'.returned → .ok handle ∉ s.returned → s'.Registered handle.entry

namespace SessionRegistry
variable {s s' : SessionRegistry ι} {t t' : RegistryCall} {i : ι} {r : EntryRef}

theorem Sound.exclusive (h : s.Sound) : Exclusive s := by
  intro r
  rw [(h.entry r).live_eq]
  refine ⟨?_, fun connectionId => ?_⟩
  · cases (s.entry r).attachment.currentConnectionId <;> simp
  · simp [isAttachedTo]

theorem removesAbandoned_of_sessions (hsessions : s'.sessions = s.sessions)
    (hentry : ∀ r, (s'.entry r).shutDown = (s.entry r).shutDown) : RemovesAbandoned s s' := by
  intro r
  grind

theorem removesAbandoned_of_entry {entry : SessionEntry} (r : EntryRef)
    (hsessions : s'.sessions = s.sessions) (hentry : s'.entry = Function.update s.entry r entry)
    (hshutDown : entry.shutDown = (s.entry r).shutDown) : RemovesAbandoned s s' := by
  have happly := congrFun hentry
  exact removesAbandoned_of_sessions hsessions (by grind)

variable {sessionId : SessionId}

theorem removesAbandoned_create {call : AttachCall} (h : s.Sound)
    (hnew : ∀ r < s.allocated, (s.entry r).sessionId ≠ sessionId) :
    RemovesAbandoned s (s.create sessionId call) := by
  intro r
  have hregistered : (s.create sessionId call).Registered r ↔ _ :=
    registered_create (lookup_of_new h hnew)
  grind [SessionEntry.new]

theorem removesAbandoned_remove (h : s.Sound)
    (hlookup : s.sessions.lookup sessionId = some r) (habandoned : s.Abandoned r) :
    RemovesAbandoned s (s.remove sessionId).unlock := by
  intro q
  have hregistered : (s.remove sessionId).unlock.Registered q ↔ _ := registered_remove h hlookup
  have hentry : (s.remove sessionId).unlock.entry q = s.entry q := rfl
  grind

theorem removesAbandoned_shutdown (hremoved : s.Removed r) (hsessions : s'.sessions = s.sessions)
    (hentry : s'.entry = Function.update s.entry r (s.entry r).shutdown) :
    RemovesAbandoned s s' := by
  intro q
  have habandoned := hremoved.abandoned
  have happly := congrFun hentry q
  grind

theorem removesAbandoned_move (h : s.Sound) (hcall : CallSound i s t) (hmove : Move i s t s' t') :
    RemovesAbandoned s s' := by
  cases hmove with
  | create _ _ _ hnew => exact removesAbandoned_create h hnew
  | expired _ _ r q now hexpired hlookup =>
    obtain ⟨hholds, -, hnow⟩ := hcall
    obtain rfl := hholds.eq_of_lookup hlookup
    exact removesAbandoned_remove h hlookup (h.abandoned hnow hexpired)
  | expire _ _ r q now hexpired hlookup =>
    obtain ⟨hholds, hnow⟩ := hcall
    obtain rfl := hholds.eq_of_lookup hlookup
    exact removesAbandoned_remove h hlookup
      (h.abandoned hnow (isExpired_of_detached hexpired))
  | shutdown | shutdownRefuse => exact removesAbandoned_shutdown hcall rfl rfl
  | supply _ r | enter _ r => exact removesAbandoned_of_entry r rfl rfl rfl
  | clear handle => exact removesAbandoned_of_entry handle.entry rfl rfl rfl
  | detachNone _ hnone =>
    rw [noteDetached_of_detach_none h hnone]
    exact removesAbandoned_of_sessions rfl fun _ => rfl
  | detach handle _ hsome =>
    rw [(detaches_of_detach h hsome).result]
    exact removesAbandoned_of_entry handle.entry rfl rfl rfl
  | _ => exact removesAbandoned_of_sessions rfl fun _ => rfl

theorem registered_of_attached {handle : SessionHandle} (h : s.Sound)
    (hattached : Attached i s handle) : s.Registered handle.entry := by
  have hsound := h.entry handle.entry
  have hlive := hattached.live
  grind

theorem returnsRegistered_of_quiet
    (hreturned : ∀ handle, .ok handle ∈ s'.returned → .ok handle ∈ s.returned) :
    ReturnsRegistered s s' :=
  fun handle hmem hnot => absurd (hreturned handle hmem) hnot

theorem mem_of_mem_answer {error : JsonRpcErrorError} (handle : SessionHandle)
    (h : .ok handle ∈ (s.answer (.error error)).returned) : .ok handle ∈ s.returned := by
  simpa [answer] using h

theorem returnsRegistered_move (h : s.Sound) (hcall : CallSound i s t)
    (hmove : Move i s t s' t') : ReturnsRegistered s s' := by
  cases hmove with
  | returned handle =>
    intro other hmem hnot
    rcases List.mem_cons.mp hmem with heq | hmem
    · obtain rfl : other = handle := Except.ok.inj heq
      have hregistered := registered_of_attached h hcall
      exact hregistered
    · exact absurd hmem hnot
  | refuse => exact returnsRegistered_of_quiet mem_of_mem_answer
  | lost | busy => exact returnsRegistered_of_quiet fun handle hmem => mem_of_mem_answer handle hmem
  | shutdownRefuse =>
    exact returnsRegistered_of_quiet fun handle hmem => mem_of_mem_answer handle hmem
  | detachNone _ hnone =>
    rw [noteDetached_of_detach_none h hnone]
    exact returnsRegistered_of_quiet fun _ hmem => hmem
  | detach _ _ hsome =>
    rw [(detaches_of_detach h hsome).result]
    exact returnsRegistered_of_quiet fun _ hmem => hmem
  | _ => exact returnsRegistered_of_quiet fun _ hmem => hmem

end SessionRegistry

variable [DecidableEq ι]

/-- However the calls and the expiry tasks interleave, no two connections share a session, a turn
removes only a session that is abandoned, and a handle is returned only for one in the map. -/
theorem exec_sessions_exclusive {turns : List (Turn ι RegistryAction)}
    {c : Config ι (SessionRegistry ι) RegistryCall}
    (hrun : Run (Step sec fun _ _ => True) start turns c) :
    Exclusive c.shared ∧ ∀ turn d, Step sec (fun _ _ => True) c turn d →
      RemovesAbandoned c.shared d.shared ∧ ReturnsRegistered c.shared d.shared := by
  obtain ⟨hsound, hcalls⟩ := sound_of_run hrun
  refine ⟨hsound.exclusive, fun turn d hstep => ?_⟩
  obtain ⟨s, t, hsec, rfl⟩ := take_eq_some.mp hstep.2
  have hmove := SessionRegistry.move_of_sec hsec
  exact ⟨removesAbandoned_move hsound (hcalls _) hmove,
    returnsRegistered_move hsound (hcalls _) hmove⟩

/-- A session is attached, and its connection is in the middle of leaving it. -/
def leaving : List (Turn Bool RegistryAction) :=
  [⟨false, .attach none ⟨1, 11⟩⟩, ⟨false, .create "s".toList⟩, ⟨false, .step⟩,
   ⟨false, .detach ⟨0, 1⟩⟩, ⟨false, .step⟩]

/-- A session is attached, left, and found expired by the task that looks after it. -/
def leftAndExpired : List (Turn Bool RegistryAction) :=
  leaving ++ [⟨false, .step⟩, ⟨true, .run 0⟩, ⟨true, .tick detachedSessionTtl⟩, ⟨true, .step⟩,
    ⟨true, .step⟩, ⟨true, .step⟩]

theorem exec_sessions_exclusive_leftAndExpired :
    ∃ c d, Run (Step sec fun _ _ => True) (start (ι := Bool)) leftAndExpired c ∧
      Step sec (fun _ _ => True) c ⟨true, .step⟩ d ∧ c.shared.sessions.keys = ["s".toList] ∧
      d.shared.sessions.keys = [] ∧ RemovesAbandoned c.shared d.shared := by
  have hkeys : ((start.takeAll sec (fun _ _ => True) leftAndExpired).bind fun c =>
      (c.take sec ⟨true, .step⟩).map fun d => (c.shared.sessions.keys, d.shared.sessions.keys)) =
      some (["s".toList], []) := by
    decide +kernel
  obtain ⟨c, hc, hd⟩ := bind_eq_some_iff.mp hkeys
  obtain ⟨d, hd, heq⟩ := map_eq_some_iff.mp hd
  obtain ⟨hbefore, hafter⟩ := Prod.mk.inj heq
  have hrun := run_of_takeAll hc
  have hstep : Step sec (fun _ _ => True) c ⟨true, .step⟩ d := ⟨trivial, hd⟩
  exact ⟨c, d, hrun, hstep, hbefore, hafter, ((exec_sessions_exclusive hrun).2 _ d hstep).1⟩

end

/-- The call of `detach` that is under way. -/
def RegistryCall.detaches : RegistryCall → Option SessionHandle
  | .detaching handle | .clearing handle => some handle
  | _ => none

/-- The entry from which the task is about to take the sender. -/
def RegistryCall.clears : RegistryCall → Option EntryRef
  | .clearing handle => some handle.entry
  | _ => none

/-- The entry into which the task has put its sender, and to which it is about to attach. -/
def RegistryCall.enters : RegistryCall → Option EntryRef
  | .entering r _ => some r
  | _ => none

/-- A connection that is attached is sent the notifications, once the calls of `detach` for
other connections have returned. -/
def NotifiesAttached (c : Config ι (SessionRegistry ι) RegistryCall) : Prop :=
  ∀ r connectionId, (c.shared.entry r).isAttachedTo connectionId = true →
    (∀ i, ∀ handle ∈ (c.task i).detaches, handle.entry = r →
      handle.connectionId = connectionId) →
    ∃ supplier, c.shared.supplied connectionId = some supplier ∧
      (c.shared.entry r).notifications = some supplier.1

/-- When `detach` takes the sender out, no connection is attached to the session, or has put its
sender in and is about to attach. -/
def ClearsVacant (c : Config ι (SessionRegistry ι) RegistryCall) (turn : Turn ι RegistryAction) :
    Prop :=
  turn.action = .step → ∀ r ∈ (c.task turn.task).clears,
    (c.shared.entry r).hasActiveConnection = false ∧ ∀ i, (c.task i).enters ≠ some r

instance [Fintype ι] (c : Config ι (SessionRegistry ι) RegistryCall)
    (turn : Turn ι RegistryAction) : Decidable (ClearsVacant c turn) :=
  inferInstanceAs (Decidable (_ → _))

namespace SessionRegistry
variable {s s' : SessionRegistry ι} {t t' : RegistryCall} {i j : ι} {r : EntryRef}

/-- The handler of an attached session has the sender of the connection. -/
def SenderSound (s : SessionRegistry ι) : Prop :=
  ∀ r, ∀ connectionId ∈ s.live r, ∃ supplier, s.supplied connectionId = some supplier ∧
    (s.entry r).notifications = some supplier.1

/-- The handler has the sender of the connection that is about to attach. -/
def CallSender (s : SessionRegistry ι) : RegistryCall → Prop
  | .entering r call => (s.entry r).notifications = some call.notifications
  | _ => True

theorem notifications_of_entry {entry : SessionEntry} {q : EntryRef}
    (hentry : s'.entry = Function.update s.entry q entry)
    (hnotifications : r = q → entry.notifications = (s.entry q).notifications) :
    (s'.entry r).notifications = (s.entry r).notifications := by
  have happly := congrFun hentry r
  grind

/-- Only putting a sender in and taking it out changes where notifications go. -/
theorem notifications_move (h : s.Sound) (hmove : Move i s t s' t') (hr : r < s.allocated)
    (hsupplies : ∀ call, t ≠ .supplying r call) (hclears : r ∈ t.clears → t' = t) :
    (s'.entry r).notifications = (s.entry r).notifications := by
  cases hmove with
  | create => exact notifications_of_entry rfl fun heq => absurd heq hr.ne
  | supply call q =>
    refine notifications_of_entry rfl fun heq => ?_
    subst heq
    exact absurd rfl (hsupplies call)
  | enter | shutdown | shutdownRefuse => exact notifications_of_entry rfl fun _ => rfl
  | detachNone _ hnone => rw [noteDetached_of_detach_none h hnone]
  | detach _ _ hsome =>
    exact notifications_of_entry (congrArg entry (detaches_of_detach h hsome).result) fun _ => rfl
  | clear handle =>
    refine notifications_of_entry rfl fun heq => ?_
    subst heq
    cases hclears rfl
  | _ => rfl

variable {connectionId : ConnectionId}

theorem supplied_move {supplier : RpcNotificationSender × ι}
    (h : s.Sound) (hmove : Move i s t s' t') (hsupplied : s.supplied connectionId = some supplier) :
    s'.supplied connectionId = some supplier := by
  cases hmove with
  | call _ _ hnew => grind
  | detachNone _ hnone =>
    rw [noteDetached_of_detach_none h hnone]
    exact hsupplied
  | detach _ _ hsome =>
    rw [(detaches_of_detach h hsome).result]
    exact hsupplied
  | _ => exact hsupplied

/-- A connection becomes live only where it attaches. -/
theorem live_move (h : s.Sound) (hcall : CallSound i s t)
    (hmove : Move i s t s' t') (hlive : connectionId ∈ s'.live r) :
    connectionId ∈ s.live r ∨ t' = .returning ⟨r, connectionId⟩ := by
  cases hmove with
  | create sessionId call =>
    grind
  | enter call q =>
    grind
  | detachNone _ hnone =>
    rw [noteDetached_of_detach_none h hnone] at hlive
    exact .inl hlive
  | detach handle _ hsome =>
    rw [(detaches_of_detach h hsome).result] at hlive
    by_cases hr : r = handle.entry
    · simp [hr] at hlive
    · exact .inl (by simpa [hr] using hlive)
  | _ => exact .inl hlive

variable {handle : SessionHandle}

/-- The sender is in its place when the connection has attached. -/
theorem notifications_of_returning (hcall : CallSound i s t)
    (hsender : s.CallSender t) (hmove : Move i s t s' (.returning handle))
    (hlive : handle.connectionId ∉ s.live handle.entry) :
    ∃ supplier, s'.supplied handle.connectionId = some supplier ∧
      (s'.entry handle.entry).notifications = some supplier.1 := by
  generalize ht' : RegistryCall.returning handle = t' at hmove
  cases hmove <;> cases ht'
  case create sessionId call hfree hnew =>
    refine ⟨_, hcall.supplied, ?_⟩
    grind [SessionEntry.new]
  case enter call r =>
    refine ⟨_, hcall.2.supplied, ?_⟩
    have hset : (s.entry r).notifications = some call.notifications := hsender
    grind [attach]
  case tick elapsed =>
    exact absurd (by rw [hcall.live]; exact List.mem_singleton_self _) hlive

variable {action : RegistryAction}

theorem sec_clearing (h : sec i action s (.clearing handle) = some (s', t')) :
    action = .step ∨ t' = .clearing handle := by
  cases action with
  | step => exact .inl rfl
  | tick elapsed => exact .inr (Prod.mk.inj (Option.some.inj h)).2.symm
  | _ => cases h

variable {c : Config ι (SessionRegistry ι) RegistryCall}

/-- A turn that takes a sender out finds nobody attached or about to attach. -/
theorem vacant_of_clears (hsound : c.shared.Sound) (hallowed : ClearsVacant c ⟨i, action⟩)
    (hsec : sec i action c.shared (c.task i) = some (s', t')) (hr : r ∈ (c.task i).clears)
    (hne : t' ≠ c.task i) :
    c.shared.live r = [] ∧ ∀ j, (c.task j).enters ≠ some r := by
  have hstep : action = .step := by
    cases ht : c.task i with
    | clearing handle =>
      rw [ht] at hsec hne
      exact (sec_clearing hsec).resolve_right hne
    | _ => rw [ht] at hr; cases hr
  obtain ⟨hinactive, hnone⟩ := hallowed hstep r hr
  refine ⟨?_, hnone⟩
  rw [(hsound.entry r).live_eq]
  simpa [hasActiveConnection] using hinactive

theorem SenderSound.turn (h : c.shared.SenderSound) (hsound : c.shared.Sound)
    (hcall : CallSound i c.shared (c.task i)) (hsender : c.shared.CallSender (c.task i))
    (hallowed : ClearsVacant c ⟨i, action⟩)
    (hsec : sec i action c.shared (c.task i) = some (s', t')) : s'.SenderSound := by
  have hmove := move_of_sec hsec
  intro r connectionId hlive
  by_cases hbefore : connectionId ∈ c.shared.live r
  · obtain ⟨supplier, hsupplied, hnotifications⟩ := h r connectionId hbefore
    refine ⟨supplier, supplied_move hsound hmove hsupplied, ?_⟩
    have hr : r < c.shared.allocated := by
      have hentry := hsound.entry r
      grind
    rw [notifications_move hsound hmove hr ?_ ?_]
    · exact hnotifications
    · intro call ht
      rw [ht] at hcall
      rw [hcall.1.live] at hbefore
      cases hbefore
    · intro hclears
      by_contra hne
      rw [(vacant_of_clears hsound hallowed hsec hclears hne).1] at hbefore
      cases hbefore
  · rcases live_move hsound hcall hmove hlive with hlive | rfl
    · exact absurd hlive hbefore
    · exact notifications_of_returning hcall hsender hmove hbefore

theorem sender_kept : Kept (ι := ι) sec ClearsVacant (fun s => s.Sound ∧ s.SenderSound)
    (fun i s t => CallSound i s t ∧ s.CallSender t) where
  own {c i action s' t'} hI hJ hallowed hsec := by
    have hkept := registry_kept.own hI.1 (fun j => (hJ j).1) hallowed hsec
    refine ⟨⟨hkept.1, hI.2.turn hI.1 (hJ i).1 (hJ i).2 hallowed hsec⟩, hkept.2, ?_⟩
    have hmove := move_of_sec hsec
    have hsender := (hJ i).2
    generalize c.task i = t at hmove hsender
    cases hmove with
    | supply call r => simp [CallSender, update, setNotificationSender]
    | tick => exact hsender
    | _ => trivial
  others {c i j action s' t'} hj hI hJ hallowed hsec := by
    refine ⟨registry_kept.others hj hI.1 (fun j => (hJ j).1) hallowed hsec, ?_⟩
    obtain ⟨hcall, hsender⟩ := hJ j
    cases ht : c.task j with
    | entering r call =>
      rw [ht] at hcall hsender
      obtain ⟨sessionId, hlookup⟩ := hcall.1.registered
      refine (notifications_move hI.1 (move_of_sec hsec) (hI.1.lookup hlookup).1 ?_ ?_).trans hsender
      · intro other hother
        have hmine := (hJ i).1
        rw [hother] at hmine
        exact hj (Option.some.inj (hcall.1.holder.symm.trans hmine.1.holder))
      · intro hclears
        by_contra hne
        exact (vacant_of_clears hI.1 hallowed hsec hclears hne).2 j (by rw [ht]; rfl)
    | _ => trivial

end SessionRegistry

variable [DecidableEq ι]

/-- The sender of a session is that of its connection, as long as `detach` takes senders only out of
sessions that nobody has resumed meanwhile. -/
theorem reattached_session_keeps_notifications {turns : List (Turn ι RegistryAction)}
    {c : Config ι (SessionRegistry ι) RegistryCall}
    (hrun : Run (Step sec ClearsVacant) start turns c) : NotifiesAttached c := by
  have hstart : (new : SessionRegistry ι).SenderSound := by
    intro r connectionId hlive
    cases hlive
  obtain ⟨⟨hsound, hsender⟩, -⟩ :=
    sender_kept.run hrun ⟨⟨sound_new, hstart⟩, fun _ => ⟨trivial, trivial⟩⟩
  intro r connectionId hattached _
  refine hsender r connectionId ?_
  rw [(hsound.entry r).live_eq]
  simpa [isAttachedTo] using hattached

/-- A second connection resumes the session. -/
def resumed : List (Turn Bool RegistryAction) :=
  ⟨true, .attach (some "s".toList) ⟨2, 22⟩⟩ :: List.replicate 6 ⟨true, .step⟩

/-- The first connection has left before the second comes. -/
def leftThenResumed : List (Turn Bool RegistryAction) := leaving ++ ⟨false, .step⟩ :: resumed

theorem reattached_session_keeps_notifications_leftThenResumed :
    ∃ c, start.takeAll sec ClearsVacant leftThenResumed = some c ∧
      (c.shared.entry 0).isAttachedTo 2 = true ∧ NotifiesAttached c := by
  have hrun : start.takeAll sec ClearsVacant leftThenResumed = some _ := rfl
  exact ⟨_, hrun, rfl, reattached_session_keeps_notifications (run_of_takeAll hrun)⟩

/-- The second connection resumes the session while the first is still leaving it. -/
def resumedWhileLeaving : List (Turn Bool RegistryAction) :=
  leaving ++ resumed ++ [⟨true, .step⟩, ⟨false, .step⟩]

theorem resumed_session_loses_notifications :
    ∃ c, Run (Step sec fun _ _ => True) (start (ι := Bool)) resumedWhileLeaving c ∧
      ¬ NotifiesAttached c := by
  refine ⟨_, run_of_takeAll rfl, fun h => ?_⟩
  obtain ⟨supplier, -, hnotifications⟩ := h 0 2 rfl (by decide)
  cases hnotifications

end CodexRs.ExecServer
