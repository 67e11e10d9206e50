import CodexRs.ExecServer.Process
import CodexRs.Library.Tasks
import CodexRs.Library.Table

/-!
# The session registry

The map of the sessions, the attachment of a session and the sender of its process handler have a
lock each, and others may come in wherever one is taken. All that a call or an expiry task can do
in one turn is listed once, with what it has read.
-/
namespace CodexRs.ExecServer
open Text

section

abbrev SessionId := Str

abbrev ConnectionId := ℕ

/-- Which sender it is; what is sent plays no part. -/
abbrev RpcNotificationSender := ℕ

/-- Nanoseconds since some start. -/
abbrev Instant := ℕ

def detachedSessionTtl : ℕ := 10 * 1000000000

structure JsonRpcErrorError where
  code : ℤ
  message : Str
deriving DecidableEq

def invalidRequest (message : Str) : JsonRpcErrorError := ⟨-32600, message⟩

variable (sessionId : SessionId)

def unknownSession : JsonRpcErrorError :=
  invalidRequest ("unknown session id ".toList ++ sessionId)

def alreadyAttached : JsonRpcErrorError :=
  invalidRequest ("session ".toList ++ sessionId ++
    " is already attached to another connection".toList)

structure AttachmentState where
  currentConnectionId : Option ConnectionId
  detachedConnectionId : Option ConnectionId
  detachedExpiresAt : Option Instant

/-- An entry with what is used of its process handler: where it sends notifications, and
whether it was shut down. -/
structure SessionEntry where
  sessionId : SessionId
  notifications : Option RpcNotificationSender
  shutDown : Bool
  attachment : AttachmentState

namespace SessionEntry
variable (entry : SessionEntry)

def new (sessionId : SessionId) (notifications : RpcNotificationSender)
    (connectionId : ConnectionId) : SessionEntry :=
  ⟨sessionId, some notifications, false, ⟨some connectionId, none, none⟩⟩

variable (connectionId : ConnectionId)

def attach : SessionEntry :=
  { entry with attachment := ⟨some connectionId, none, none⟩ }

variable (now : Instant)

def detach : Option SessionEntry :=
  if entry.attachment.currentConnectionId ≠ some connectionId then none
  else some { entry with attachment := ⟨none, some connectionId, some (now + detachedSessionTtl)⟩ }

def hasActiveConnection : Bool := entry.attachment.currentConnectionId.isSome

def isAttachedTo : Bool :=
  entry.attachment.currentConnectionId = some connectionId

def isExpired : Bool :=
  entry.attachment.detachedExpiresAt.any fun deadline => deadline ≤ now

def isDetachedConnectionExpired : Bool :=
  entry.attachment.currentConnectionId.isNone &&
    decide (entry.attachment.detachedConnectionId = some connectionId) &&
    entry.attachment.detachedExpiresAt.any fun deadline => deadline ≤ now

def setNotificationSender (notifications : Option RpcNotificationSender) : SessionEntry :=
  { entry with notifications }

def shutdown : SessionEntry := { entry with shutDown := true }

end SessionEntry

/-- The place of an entry, which the map and the handles share. -/
abbrev EntryRef := ℕ

structure SessionHandle where
  entry : EntryRef
  connectionId : ConnectionId
deriving DecidableEq

/-- What a call of `attach` brings along. -/
structure AttachCall where
  connectionId : ConnectionId
  notifications : RpcNotificationSender
deriving DecidableEq

/-- Where a call or an expiry task stands: which lock it takes next, and what it has read. -/
inductive RegistryCall where
  | idle
  | attaching (resumeSessionId : Option SessionId) (call : AttachCall)
  | found (sessionId : SessionId) (entry : EntryRef) (call : AttachCall)
  | resuming (sessionId : SessionId) (entry : EntryRef) (call : AttachCall) (now : Instant)
  | unexpired (sessionId : SessionId) (entry : EntryRef) (call : AttachCall)
  | supplying (entry : EntryRef) (call : AttachCall)
  | entering (entry : EntryRef) (call : AttachCall)
  | returning (handle : SessionHandle)
  | detaching (handle : SessionHandle)
  | clearing (handle : SessionHandle)
  | sleeping (sessionId : SessionId) (connectionId : ConnectionId) (wakeAt : Instant)
  | expiring (sessionId : SessionId) (connectionId : ConnectionId)
  | expiringFound (sessionId : SessionId) (connectionId : ConnectionId) (entry : EntryRef)
  | expiringAt (sessionId : SessionId) (connectionId : ConnectionId) (entry : EntryRef)
      (now : Instant)
  | shuttingDown (entry : EntryRef) (resumed : Option SessionId)
deriving DecidableEq

inductive RegistryAction where
  | attach (resumeSessionId : Option SessionId) (call : AttachCall)
  | create (sessionId : SessionId)
  | detach (handle : SessionHandle)
  | run (index : ℕ)
  | tick (elapsed : ℕ)
  | step
deriving DecidableEq

/-- The history tells who has supplied which sender, which connections are attached to a session,
and since when a session is detached. -/
structure SessionRegistry (ι : Type*) where
  sessions : AList fun _ : SessionId => EntryRef
  holder : Option ι
  entry : EntryRef → SessionEntry
  allocated : ℕ
  now : Instant
  runnable : List (SessionId × ConnectionId)
  returned : List (Except JsonRpcErrorError SessionHandle)
  supplied : ConnectionId → Option (RpcNotificationSender × ι)
  live : EntryRef → List ConnectionId
  detachedSince : EntryRef → Option Instant

namespace SessionRegistry
variable {ι : Type*} (s : SessionRegistry ι)

def new : SessionRegistry ι where
  sessions := ∅
  holder := none
  entry _ := ⟨[], none, false, ⟨none, none, none⟩⟩
  allocated := 0
  now := 0
  runnable := []
  returned := []
  supplied _ := none
  live _ := []
  detachedSince _ := none

def update (r : EntryRef) (f : SessionEntry → SessionEntry) : SessionRegistry ι :=
  { s with entry := Function.update s.entry r (f (s.entry r)) }

def answer (result : Except JsonRpcErrorError SessionHandle) : SessionRegistry ι :=
  { s with returned := result :: s.returned }

variable (i : ι)

def lock : SessionRegistry ι := { s with holder := some i }

def unlock : SessionRegistry ι := { s with holder := none }

def remove (sessionId : SessionId) : SessionRegistry ι :=
  { s with sessions := s.sessions.erase sessionId }

/-- The task has called `attach` for the connection. -/
def supply (call : AttachCall) : SessionRegistry ι :=
  let supplier := (call.notifications, i)
  { s with supplied := Function.update s.supplied call.connectionId (some supplier) }

variable (r : EntryRef) (connectionId : ConnectionId)

/-- The connection is attached from now on. -/
def noteAttached : SessionRegistry ι :=
  { s with
    live := Function.update s.live r (connectionId :: s.live r)
    detachedSince := Function.update s.detachedSince r none }

/-- The end of a call of `attach` that resumes a session. -/
def enter : SessionRegistry ι :=
  ((s.update r (·.attach connectionId)).noteAttached r connectionId).unlock

/-- The connection is attached no more, if it was. -/
def noteDetached : SessionRegistry ι :=
  if connectionId ∈ s.live r then
    { s with
      live := Function.update s.live r ((s.live r).erase connectionId)
      detachedSince := Function.update s.detachedSince r (some s.now) }
  else s

/-- The branch of `attach` for a new session. -/
def create (sessionId : SessionId) (call : AttachCall) : SessionRegistry ι :=
  let entry := SessionEntry.new sessionId call.notifications call.connectionId
  { s with
    sessions := s.sessions.insert sessionId s.allocated
    entry := Function.update s.entry s.allocated entry
    allocated := s.allocated + 1 }.noteAttached s.allocated call.connectionId

/-- The calls of `attach` that resume a session. -/
def attachStep : RegistryCall → Option (SessionRegistry ι × RegistryCall)
  | .attaching (some sessionId) call =>
    if s.holder.isSome then none
    else match s.sessions.lookup sessionId with
      | none => some (s.answer (.error (unknownSession sessionId)), .idle)
      | some r => some (s.lock i, .found sessionId r call)
  | .found sessionId r call => some (s, .resuming sessionId r call s.now)
  | .resuming sessionId r call now =>
    if (s.entry r).isExpired now then
      match s.sessions.lookup sessionId with
      | none => some (s.unlock.answer (.error (unknownSession sessionId)), .idle)
      | some r => some ((s.remove sessionId).unlock, .shuttingDown r (some sessionId))
    else some (s, .unexpired sessionId r call)
  | .unexpired sessionId r call =>
    if (s.entry r).hasActiveConnection then
      some (s.unlock.answer (.error (alreadyAttached sessionId)), .idle)
    else some (s, .supplying r call)
  | .supplying r call =>
    some (s.update r (·.setNotificationSender (some call.notifications)), .entering r call)
  | .entering r call =>
    some (s.enter r call.connectionId, .returning ⟨r, call.connectionId⟩)
  | .returning handle => some (s.answer (.ok handle), .idle)
  | _ => none

/-- The calls of `SessionHandle::detach`. -/
def detachStep : RegistryCall → Option (SessionRegistry ι × RegistryCall)
  | .detaching handle =>
    let t := s.noteDetached handle.entry handle.connectionId
    match (s.entry handle.entry).detach handle.connectionId s.now with
    | none => some (t, .idle)
    | some entry => some (t.update handle.entry fun _ => entry, .clearing handle)
  | .clearing handle =>
    let t := s.update handle.entry (·.setNotificationSender none)
    let expiry := ((s.entry handle.entry).sessionId, handle.connectionId)
    some ({ t with runnable := t.runnable ++ [expiry] }, .idle)
  | _ => none

/-- The tasks that run `expire_if_detached`, and the shutdown behind every removal. -/
def expireStep : RegistryCall → Option (SessionRegistry ι × RegistryCall)
  | .sleeping sessionId connectionId wakeAt =>
    if wakeAt ≤ s.now then some (s, .expiring sessionId connectionId) else none
  | .expiring sessionId connectionId =>
    if s.holder.isSome then none
    else match s.sessions.lookup sessionId with
      | none => some (s, .idle)
      | some r => some (s.lock i, .expiringFound sessionId connectionId r)
  | .expiringFound sessionId connectionId r =>
    some (s, .expiringAt sessionId connectionId r s.now)
  | .expiringAt sessionId connectionId r now =>
    if (s.entry r).isDetachedConnectionExpired connectionId now then
      match s.sessions.lookup sessionId with
      | none => some (s.unlock, .idle)
      | some r => some ((s.remove sessionId).unlock, .shuttingDown r none)
    else some (s.unlock, .idle)
  | .shuttingDown r resumed =>
    let t := s.update r SessionEntry.shutdown
    match resumed with
    | none => some (t, .idle)
    | some sessionId => some (t.answer (.error (unknownSession sessionId)), .idle)
  | _ => none

def sec (action : RegistryAction) (s : SessionRegistry ι) (t : RegistryCall) :
    Option (SessionRegistry ι × RegistryCall) :=
  match action, t with
  | .attach resumeSessionId call, .idle =>
    -- No two calls draw the same connection id.
    if (s.supplied call.connectionId).isSome then none
    else some (s.supply i call, .attaching resumeSessionId call)
  | .create sessionId, .attaching none call =>
    -- A new session id is one that no session ever had.
    if s.holder.isSome ∨ ∃ r < s.allocated, (s.entry r).sessionId = sessionId then none
    else some (s.create sessionId call, .returning ⟨s.allocated, call.connectionId⟩)
  | .detach handle, .idle =>
    if .ok handle ∈ s.returned then some (s, .detaching handle) else none
  | .run index, .idle =>
    (s.runnable[index]?).map fun expiry =>
      ({ s with runnable := s.runnable.eraseIdx index },
        .sleeping expiry.1 expiry.2 (s.now + detachedSessionTtl))
  | .tick elapsed, t => some ({ s with now := s.now + elapsed }, t)
  | .step, t => (s.attachStep i t).or ((s.detachStep t).or (s.expireStep i t))
  | _, _ => none

end SessionRegistry

end

variable {ι : Type*}

namespace SessionRegistry
variable {s s' : SessionRegistry ι} {t t' : RegistryCall} {i : ι}

/-- All that a turn can do. -/
inductive Move (i : ι) (s : SessionRegistry ι) :
    RegistryCall → SessionRegistry ι → RegistryCall → Prop
  | call (resumeSessionId call) (hnew : s.supplied call.connectionId = none) :
      Move i s .idle (s.supply i call) (.attaching resumeSessionId call)
  | create (sessionId call) (hfree : s.holder = none)
      (hnew : ∀ r < s.allocated, (s.entry r).sessionId ≠ sessionId) :
      Move i s (.attaching none call) (s.create sessionId call)
        (.returning ⟨s.allocated, call.connectionId⟩)
  | refuse (sessionId call error) :
      Move i s (.attaching (some sessionId) call) (s.answer (.error error)) .idle
  | find (sessionId call r) (hfree : s.holder = none)
      (hlookup : s.sessions.lookup sessionId = some r) :
      Move i s (.attaching (some sessionId) call) (s.lock i) (.found sessionId r call)
  | readClock (sessionId call r) :
      Move i s (.found sessionId r call) s (.resuming sessionId r call s.now)
  | unexpired (sessionId call r now) :
      Move i s (.resuming sessionId r call now) s (.unexpired sessionId r call)
  | expired (sessionId call r q now) (hexpired : (s.entry r).isExpired now = true)
      (hlookup : s.sessions.lookup sessionId = some q) :
      Move i s (.resuming sessionId r call now) (s.remove sessionId).unlock
        (.shuttingDown q (some sessionId))
  | lost (sessionId call r now error) :
      Move i s (.resuming sessionId r call now) (s.unlock.answer (.error error)) .idle
  | busy (sessionId call r error) :
      Move i s (.unexpired sessionId r call) (s.unlock.answer (.error error)) .idle
  | vacant (sessionId call r) (hvacant : (s.entry r).hasActiveConnection = false) :
      Move i s (.unexpired sessionId r call) s (.supplying r call)
  | supply (call r) : Move i s (.supplying r call)
        (s.update r (·.setNotificationSender (some call.notifications))) (.entering r call)
  | enter (call r) :
      Move i s (.entering r call) (s.enter r call.connectionId) (.returning ⟨r, call.connectionId⟩)
  | returned (handle) : Move i s (.returning handle) (s.answer (.ok handle)) .idle
  | detachCall (handle) (h : .ok handle ∈ s.returned) : Move i s .idle s (.detaching handle)
  | detachNone (handle) (h : (s.entry handle.entry).detach handle.connectionId s.now = none) :
      Move i s (.detaching handle) (s.noteDetached handle.entry handle.connectionId) .idle
  | detach (handle entry)
      (h : (s.entry handle.entry).detach handle.connectionId s.now = some entry) :
      Move i s (.detaching handle)
        ((s.noteDetached handle.entry handle.connectionId).update handle.entry fun _ => entry)
        (.clearing handle)
  | clear (handle runnable) : Move i s (.clearing handle)
        { s.update handle.entry (·.setNotificationSender none) with runnable } .idle
  | run (runnable sessionId connectionId wakeAt) :
      Move i s .idle { s with runnable } (.sleeping sessionId connectionId wakeAt)
  | wake (sessionId connectionId wakeAt) :
      Move i s (.sleeping sessionId connectionId wakeAt) s (.expiring sessionId connectionId)
  | gone (sessionId connectionId) : Move i s (.expiring sessionId connectionId) s .idle
  | findExpiring (sessionId connectionId r) (hfree : s.holder = none)
      (hlookup : s.sessions.lookup sessionId = some r) :
      Move i s (.expiring sessionId connectionId) (s.lock i)
        (.expiringFound sessionId connectionId r)
  | readClockExpiring (sessionId connectionId r) :
      Move i s (.expiringFound sessionId connectionId r) s
        (.expiringAt sessionId connectionId r s.now)
  | expire (sessionId connectionId r q now)
      (hexpired : (s.entry r).isDetachedConnectionExpired connectionId now = true)
      (hlookup : s.sessions.lookup sessionId = some q) :
      Move i s (.expiringAt sessionId connectionId r now) (s.remove sessionId).unlock
        (.shuttingDown q none)
  | keep (sessionId connectionId r now) :
      Move i s (.expiringAt sessionId connectionId r now) s.unlock .idle
  | shutdown (r) : Move i s (.shuttingDown r none) (s.update r SessionEntry.shutdown) .idle
  | shutdownRefuse (r sessionId error) : Move i s (.shuttingDown r (some sessionId))
        ((s.update r SessionEntry.shutdown).answer (.error error)) .idle
  | tick (t : RegistryCall) (elapsed : ℕ) : Move i s t { s with now := s.now + elapsed } t

theorem move_of_attachStep (h : s.attachStep i t = some (s', t')) : Move i s t s' t' := by
  unfold attachStep at h
  split at h
  · split_ifs at h with hholder
    have hfree : s.holder = none := by simpa using hholder
    split at h
    · cases h
      exact .refuse _ _ _
    · rename_i hlookup
      cases h
      exact .find _ _ _ hfree hlookup
  · cases h
    exact .readClock _ _ _
  · split_ifs at h with hexpired
    · split at h
      · cases h
        exact .lost _ _ _ _ _
      · rename_i hlookup
        cases h
        exact .expired _ _ _ _ _ hexpired hlookup
    · cases h
      exact .unexpired _ _ _ _
  · split_ifs at h with hactive
    · cases h
      exact .busy _ _ _ _
    · cases h
      exact .vacant _ _ _ (by simpa using hactive)
  · cases h
    exact .supply _ _
  · cases h
    exact .enter _ _
  · cases h
    exact .returned _
  · cases h

theorem move_of_detachStep (h : s.detachStep t = some (s', t')) : Move i s t s' t' := by
  unfold detachStep at h
  split at h
  · split at h
    · rename_i hnone
      cases h
      exact .detachNone _ hnone
    · rename_i hsome
      cases h
      exact .detach _ _ hsome
  · cases h
    exact .clear _ _
  · cases h

theorem move_of_expireStep (h : s.expireStep i t = some (s', t')) : Move i s t s' t' := by
  unfold expireStep at h
  split at h
  · split_ifs at h
    cases h
    exact .wake _ _ _
  · split_ifs at h with hholder
    have hfree : s.holder = none := by simpa using hholder
    split at h
    · cases h
      exact .gone _ _
    · rename_i hlookup
      cases h
      exact .findExpiring _ _ _ hfree hlookup
  · cases h
    exact .readClockExpiring _ _ _
  · split_ifs at h with hexpired
    · split at h
      · cases h
        exact .keep _ _ _ _
      · rename_i hlookup
        cases h
        exact .expire _ _ _ _ _ hexpired hlookup
    · cases h
      exact .keep _ _ _ _
  · split at h
    · cases h
      exact .shutdown _
    · cases h
      exact .shutdownRefuse _ _ _
  · cases h

theorem move_of_sec {action : RegistryAction} (h : sec i action s t = some (s', t')) :
    Move i s t s' t' := by
  unfold sec at h
  split at h
  · split_ifs at h with hnew
    cases h
    exact .call _ _ (by simpa using hnew)
  · split_ifs at h with hbusy
    rw [not_or] at hbusy
    cases h
    refine .create _ _ (by simpa using hbusy.1) fun r hr heq => hbusy.2 ⟨r, hr, heq⟩
  · split_ifs at h with hreturned
    cases h
    exact .detachCall _ hreturned
  · obtain ⟨expiry, -, hr⟩ := Option.map_eq_some_iff.mp h
    obtain ⟨rfl, rfl⟩ := Prod.mk.inj hr
    exact .run _ _ _ _
  · cases h
    exact .tick _ _
  · rcases Option.or_eq_some_iff.mp h with h | ⟨-, h⟩
    · exact move_of_attachStep h
    rcases Option.or_eq_some_iff.mp h with h | ⟨-, h⟩
    · exact move_of_detachStep h
    · exact move_of_expireStep h
  · cases h

end SessionRegistry

end CodexRs.ExecServer
