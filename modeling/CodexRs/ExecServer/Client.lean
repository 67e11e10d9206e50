import CodexRs.Library.Tasks
import CodexRs.ExecServer.Process
import CodexRs.Library.Reorder

/-!
# The client of an exec server

The notifications about a process are put in order before they are published to the log of its
session. When the transport closes, the first who sees it records the reason in a latch that is
never reset.
-/
namespace CodexRs.ExecServer
open Text Tasks

def processEventChannelCapacity : ℕ := 256
def processEventRetainedBytes : ℕ := 1024 * 1024

/-- The number published last, and the events that came before their turn. -/
abbrev OrderedSessionEvents := Reorder.Buffer ExecProcessEvent

structure SessionState where
  wake : ℕ
  events : ExecProcessEventLog
  orderedEvents : OrderedSessionEvents
  failure : Option Str

namespace SessionState

def new : SessionState where
  wake := 0
  events := .new processEventChannelCapacity processEventRetainedBytes
  orderedEvents := .empty
  failure := none

variable (state : SessionState)

def noteChange (seq : ℕ) : SessionState :=
  { state with wake := max state.wake seq }

variable (event : ExecProcessEvent)

/-- The section under the lock of the ordered events: what is ready to be published. -/
def order (seq : ℕ) : List ExecProcessEvent × SessionState :=
  let r := state.orderedEvents.accept seq event
  (r.1, { state with orderedEvents := r.2 })

def publishAll (ready : List ExecProcessEvent) : SessionState :=
  { state with events := ready.foldl ExecProcessEventLog.publish state.events }

/-- An event without a number is published at once. The result tells whether this call has
published the closing of the process. -/
def publishOrderedEvent : SessionState × Bool :=
  match event.seq with
  | none => (state.publishAll [event], false)
  | some seq =>
    let r := state.order event seq
    (r.2.publishAll r.1, r.1.any (·.isClosed))

end SessionState

/-- The notifications about a process, each with a number. -/
inductive ExecNotification where
  | outputDelta (seq : ℕ) (stream : ExecOutputStream) (chunk : List UInt8)
  | exited (seq : ℕ) (exitCode : ℤ)
  | closed (seq : ℕ)
deriving DecidableEq

namespace ExecNotification

def seq : ExecNotification → ℕ
  | .outputDelta seq _ _ => seq
  | .exited seq _ => seq
  | .closed seq => seq

def event : ExecNotification → ExecProcessEvent
  | .outputDelta seq stream chunk => .output ⟨seq, stream, chunk⟩
  | .exited seq exitCode => .exited seq exitCode
  | .closed seq => .closed seq

def isClosed : ExecNotification → Bool
  | .closed _ => true
  | _ => false

variable (notification : ExecNotification)

theorem event_seq : notification.event.seq = some notification.seq := by
  cases notification <;> rfl

theorem event_isClosed : notification.event.isClosed = notification.isClosed := by
  cases notification <;> rfl

end ExecNotification

abbrev SessionRef := ℕ

/-- The table of routes, and the sessions that they and the callers' handles refer to. -/
structure Sessions where
  table : AList fun _ : ProcessId => SessionRef
  state : SessionRef → SessionState

namespace Sessions

def update (sessions : Sessions) (session : SessionRef) (f : SessionState → SessionState) :
    Sessions :=
  { sessions with state := Function.update sessions.state session (f (sessions.state session)) }

variable (sessions : Sessions) (processId : ProcessId)

def getSession : Option SessionRef :=
  sessions.table.lookup processId

def removeSession : Sessions :=
  { sessions with table := sessions.table.erase processId }

/-- The branches of the three methods, which differ in the event only. -/
def handleServerNotification (notification : ExecNotification) : Sessions :=
  match sessions.getSession processId with
  | none => sessions
  | some session =>
    let r := ((sessions.state session).noteChange notification.seq).publishOrderedEvent
      notification.event
    let sessions := sessions.update session fun _ => r.1
    if r.2 then sessions.removeSession processId else sessions

end Sessions

inductive RpcCallError where
  | closed
  | json (message : Str)
  | server (code : ℤ) (message : Str)
deriving DecidableEq

inductive ExecServerError where
  | closed
  | disconnected (message : Str)
  | json (message : Str)
  | protocol (message : Str)
  | server (code : ℤ) (message : Str)
deriving DecidableEq

def ExecServerError.ofRpc : RpcCallError → ExecServerError
  | .closed => .closed
  | .json message => .json message
  | .server code message => .server code message

def isTransportClosedError : ExecServerError → Bool
  | .closed | .disconnected _ => true
  | .server code message => code = -32000 ∧ message = "JSON-RPC transport closed".toList
  | _ => false

def disconnectedMessage : Option Str → Str
  | some reason => "exec-server transport disconnected: ".toList ++ reason
  | none => "exec-server transport disconnected".toList

structure ReadResponse where
  chunks : List ProcessOutputChunk
  nextSeq : ℕ
  exited : Bool
  exitCode : Option ℤ
  closed : Bool
  failure : Option Str
deriving DecidableEq

namespace SessionState
variable (state : SessionState)

/-- One more than the number that woke the readers last, as far as it goes. -/
def nextWake : ℕ := min (state.wake + 1) (2 ^ 64 - 1)

variable (message : Str)

/-- The section of `set_failure` under its lock. The result tells whether to publish. -/
def recordFailure : SessionState × Bool :=
  if state.failure.isNone then ({ state with failure := some message }, true) else (state, false)

/-- What `set_failure` does after the lock. -/
def publishFailure (shouldPublish : Bool) : SessionState :=
  let state := { state with wake := state.nextWake }
  if shouldPublish then (state.publishOrderedEvent (.failed message)).1 else state

def synthesizedFailure : ReadResponse :=
  ⟨[], state.nextWake, true, none, true, some message⟩

end SessionState

structure Session where
  processId : ProcessId
  state : SessionRef
deriving DecidableEq

/-- Who fails a session: a read of it, or the reader task with the sessions it has still to fail. -/
inductive FailureCaller where
  | read
  | reader (remaining : List SessionRef)
deriving DecidableEq

/-- Where a call of the client, or the reader task, stands. A call that is made for a read
carries its session. -/
inductive ClientCall where
  | idle
  | registering (session : Session)
  | inserting (session : Session)
  | storing (session : Session)
  | unregistering (processId : ProcessId)
  | reading (session : Session)
  | calling (session : Option Session)
  | awaiting (session : Option Session)
  | recording (session : Option Session)
  | failing (session : SessionRef) (message : Str) (caller : FailureCaller)
  | publishing (session : SessionRef) (message : Str) (shouldPublish : Bool)
      (caller : FailureCaller)
  | receiving
  | routing (processId : ProcessId) (notification : ExecNotification)
  | ordering (processId : ProcessId) (session : SessionRef) (notification : ExecNotification)
  | delivering (processId : ProcessId) (session : SessionRef) (ready : List ExecProcessEvent)
      (publishedClosed : Bool)
  | unrouting (processId : ProcessId)
  | disconnecting (message : Str)
  | draining (message : Str)
  | failingAll (message : Str) (remaining : List SessionRef)
  | returned
deriving DecidableEq

inductive ClientAction where
  | register (processId : ProcessId)
  | unregister (processId : ProcessId)
  | read (session : Session)
  | call
  | respond (outcome : Except RpcCallError ReadResponse)
  | notify (processId : ProcessId) (notification : ExecNotification)
  | notifyInvalid (error : Str)
  | disconnect (reason : Option Str)
  | step
deriving DecidableEq

/-- What has been returned to the callers. What a plain call returns plays no part. -/
inductive ClientAnswer where
  | registered (result : Except ExecServerError Session)
  | read (result : Except ExecServerError ReadResponse)
  | called (result : Except ExecServerError Unit)
deriving DecidableEq

/-- The history tells the sessions that were drained, and which task is about to publish a failure.
-/
structure ClientInner (ι : Type*) where
  sessions : Sessions
  allocated : ℕ
  writeLock : Option ι
  disconnected : Option Str
  answers : List ClientAnswer
  drained : Option (List SessionRef)
  publisher : SessionRef → Option ι

namespace ClientInner
variable {ι : Type*} (s : ClientInner ι)

def new : ClientInner ι where
  sessions := ⟨∅, fun _ => .new⟩
  allocated := 0
  writeLock := none
  disconnected := none
  answers := []
  drained := none
  publisher _ := none

def answer (result : ClientAnswer) : ClientInner ι := { s with answers := result :: s.answers }

def unlock : ClientInner ι := { s with writeLock := none }

def update (r : SessionRef) (f : SessionState → SessionState) : ClientInner ι :=
  { s with sessions := s.sessions.update r f }

/-- The latch keeps the message that was set first, which is the result. -/
def recordDisconnected (message : Str) : ClientInner ι × Str :=
  let recorded := s.disconnected.getD message
  ({ s with disconnected := some recorded }, recorded)

variable (session : Option Session)

/-- What `call` returns, to the caller or to the read that made the call. -/
def answerCall (result : Except ExecServerError ReadResponse) : ClientInner ι :=
  match session with
  | some _ => s.answer (.read result)
  | none => s.answer (.called (result.map fun _ => ()))

/-- A call that finds the transport closed, with the recorded message. -/
def failCall (message : Str) : ClientInner ι × ClientCall :=
  match session with
  | some session => (s, .failing session.state (disconnectedMessage none) .read)
  | none => (s.answerCall none (.error (.disconnected message)), .idle)

/-- The steps of `insert_session` and `remove_session`. -/
def tableStep (i : ι) : ClientCall → Option (ClientInner ι × ClientCall)
  | .registering session =>
    if s.writeLock.isSome then none else some ({ s with writeLock := some i }, .inserting session)
  | .inserting session =>
    match s.disconnected with
    | some message =>
      some (s.unlock.answer (.registered (.error (.disconnected message))), .idle)
    | none => some (s, .storing session)
  | .storing session =>
    if session.processId ∈ s.sessions.table then
      let error := .protocol ("session already registered for process ".toList ++ session.processId)
      some (s.unlock.answer (.registered (.error error)), .idle)
    else
      let table := s.sessions.table.insert session.processId session.state
      some ({ s with sessions := { s.sessions with table } }.unlock.answer
        (.registered (.ok session)), .idle)
  | .unregistering processId =>
    if s.writeLock.isSome then none
    else some ({ s with sessions := s.sessions.removeSession processId }, .idle)
  | _ => none

/-- The steps of `Session::read` and of `call`. -/
def callStep : ClientCall → Option (ClientInner ι × ClientCall)
  | .reading session =>
    let state := s.sessions.state session.state
    match state.failure with
    | some message => some (s.answer (.read (.ok (state.synthesizedFailure message))), .idle)
    | none => some (s, .calling (some session))
  | .calling session =>
    match s.disconnected with
    | some message => some (s.failCall session message)
    | none => some (s, .awaiting session)
  | .recording session =>
    let r := s.recordDisconnected (disconnectedMessage none)
    some (r.1.failCall session r.2)
  | _ => none

/-- The steps of `set_failure`, and what follows for the caller. -/
def failureStep (i : ι) : ClientCall → Option (ClientInner ι × ClientCall)
  | .failing r message caller =>
    let result := (s.sessions.state r).recordFailure message
    let t := s.update r fun _ => result.1
    let publisher := if result.2 then Function.update s.publisher r (some i) else s.publisher
    some ({ t with publisher }, .publishing r message result.2 caller)
  | .publishing r message shouldPublish caller =>
    let t := s.update r fun state => state.publishFailure message shouldPublish
    let publisher := if shouldPublish then Function.update s.publisher r none else s.publisher
    let t := { t with publisher }
    match caller with
    | .read =>
      some (t.answer (.read (.ok ((t.sessions.state r).synthesizedFailure message))), .idle)
    | .reader remaining => some (t, .failingAll message remaining)
  | _ => none

/-- The steps of the reader task. -/
def readerStep : ClientCall → Option (ClientInner ι × ClientCall)
  | .routing processId notification =>
    match s.sessions.getSession processId with
    | none => some (s, .receiving)
    | some r => some (s, .ordering processId r notification)
  | .ordering processId r notification =>
    let result := ((s.sessions.state r).noteChange notification.seq).order notification.event
      notification.seq
    some (s.update r fun _ => result.2,
      .delivering processId r result.1 (result.1.any (·.isClosed)))
  | .delivering processId r (event :: ready) publishedClosed =>
    some (s.update r fun state => state.publishAll [event],
      .delivering processId r ready publishedClosed)
  | .delivering processId _ [] publishedClosed =>
    if publishedClosed then some (s, .unrouting processId) else some (s, .receiving)
  | .unrouting processId =>
    if s.writeLock.isSome then none
    else some ({ s with sessions := s.sessions.removeSession processId }, .receiving)
  | .disconnecting message =>
    let r := s.recordDisconnected message
    some (r.1, .draining r.2)
  | .draining message =>
    if s.writeLock.isSome then none
    else
      let taken := s.sessions.table.entries.map fun entry => entry.2
      some ({ s with sessions := { s.sessions with table := ∅ }, drained := some taken },
        .failingAll message taken)
  | .failingAll message (r :: remaining) => some (s, .failing r message (.reader remaining))
  | .failingAll _ [] => some (s, .returned)
  | _ => none

def sec (i : ι) (action : ClientAction) (s : ClientInner ι) (t : ClientCall) :
    Option (ClientInner ι × ClientCall) :=
  match action, t with
  | .register processId, .idle =>
    some ({ s with allocated := s.allocated + 1 }, .registering ⟨processId, s.allocated⟩)
  | .unregister processId, .idle => some (s, .unregistering processId)
  | .read session, .idle =>
    if .registered (.ok session) ∈ s.answers then some (s, .reading session) else none
  | .call, .idle => some (s, .calling none)
  | .respond (.ok response), .awaiting session =>
    some (s.answerCall session (.ok response), .idle)
  | .respond (.error error), .awaiting session =>
    let error := ExecServerError.ofRpc error
    if isTransportClosedError error then some (s, .recording session)
    else some (s.answerCall session (.error error), .idle)
  | .notify processId notification, .receiving => some (s, .routing processId notification)
  | .notifyInvalid error, .receiving =>
    some (s, .disconnecting ("exec-server notification handling failed: ".toList ++ error))
  | .disconnect reason, .receiving => some (s, .disconnecting (disconnectedMessage reason))
  | .step, t =>
    (s.tableStep i t).or ((s.callStep t).or ((s.failureStep i t).or (s.readerStep t)))
  | _, _ => none

/-- The reader task of a new client, and no calls. -/
def connected [DecidableEq ι] (reader : ι) : Config ι (ClientInner ι) ClientCall :=
  ⟨.new, fun i => if i = reader then .receiving else .idle⟩

end ClientInner

end CodexRs.ExecServer
