import CodexRs.Library.Table
import CodexRs.Library.Tasks
import CodexRs.Library.Text
import CodexRs.Library.Tickets

/-!
# Status of the threads

An operation changes what is known under a lock, and behind the lock it first sends the number of
running threads and then a notification.
-/
namespace CodexRs.AppServer
open Text Tasks

inductive ThreadActiveFlag
  | waitingOnApproval
  | waitingOnUserInput
deriving DecidableEq

inductive ThreadStatus
  | notLoaded
  | idle
  | systemError
  | active (activeFlags : List ThreadActiveFlag)
deriving DecidableEq

structure RuntimeFacts where
  isLoaded : Bool
  running : Bool
  pendingPermissionRequests : ℕ
  pendingUserInputRequests : ℕ
  hasSystemError : Bool

def RuntimeFacts.default : RuntimeFacts := ⟨false, false, 0, 0, false⟩

def loadedThreadStatus (runtime : RuntimeFacts) : ThreadStatus :=
  if !runtime.isLoaded then .notLoaded
  else
    let activeFlags :=
      (if 0 < runtime.pendingPermissionRequests then [.waitingOnApproval] else []) ++
        (if 0 < runtime.pendingUserInputRequests then [.waitingOnUserInput] else [])
    if runtime.running || !activeFlags.isEmpty then .active activeFlags
    else if runtime.hasSystemError then .systemError
    else .idle

structure ThreadStatusChangedNotification where
  threadId : Str
  status : ThreadStatus
deriving DecidableEq

inductive ThreadWatchActiveGuardType
  | permission
  | userInput
deriving DecidableEq

abbrev ThreadWatchState := AList fun _ : Str => RuntimeFacts

namespace ThreadWatchState
variable (state : ThreadWatchState) (threadId : Str)

def statusFor : Option ThreadStatus := (state.lookup threadId).map loadedThreadStatus

def loadedStatusForThread : ThreadStatus := (statusFor state threadId).getD .notLoaded

def statusChangedNotification (previousStatus : Option ThreadStatus) :
    Option ThreadStatusChangedNotification :=
  (statusFor state threadId).bind fun status =>
    if previousStatus = some status then none else some ⟨threadId, status⟩

def upsertThread (emitNotification : Bool) :
    ThreadWatchState × Option ThreadStatusChangedNotification :=
  let runtime := (state.lookup threadId).getD .default
  let next : ThreadWatchState := state.insert threadId { runtime with isLoaded := true }
  (next, if emitNotification then
    statusChangedNotification next threadId (statusFor state threadId) else none)

def removeThread : ThreadWatchState × Option ThreadStatusChangedNotification :=
  (state.erase threadId,
    if (statusFor state threadId).isSome ∧ statusFor state threadId ≠ some .notLoaded then
      some ⟨threadId, .notLoaded⟩
    else none)

def updateRuntime (mutate : RuntimeFacts → RuntimeFacts) :
    ThreadWatchState × Option ThreadStatusChangedNotification :=
  let runtime := (state.lookup threadId).getD .default
  let next : ThreadWatchState := state.insert threadId (mutate { runtime with isLoaded := true })
  (next, statusChangedNotification next threadId (statusFor state threadId))

def runningTurnCount : ℕ := (state.entries.filter fun entry => entry.2.running).length

end ThreadWatchState

/-- The counters are `u32` and saturate. -/
def RuntimeFacts.updateCounter (runtime : RuntimeFacts) (guardType : ThreadWatchActiveGuardType)
    (update : ℕ → ℕ) : RuntimeFacts :=
  match guardType with
  | .permission =>
    { runtime with pendingPermissionRequests := update runtime.pendingPermissionRequests }
  | .userInput =>
    { runtime with pendingUserInputRequests := update runtime.pendingUserInputRequests }

inductive WatchOperation
  | upsertThread (threadId : Str)
  | upsertThreadSilently (threadId : Str)
  | removeThread (threadId : Str)
  | noteTurnStarted (threadId : Str)
  | noteTurnCompleted (threadId : Str)
  | noteTurnInterrupted (threadId : Str)
  | noteThreadShutdown (threadId : Str)
  | noteSystemError (threadId : Str)
  | notePendingRequest (threadId : Str) (guardType : ThreadWatchActiveGuardType)
  | noteActiveGuardReleased (threadId : Str) (guardType : ThreadWatchActiveGuardType)
deriving DecidableEq

namespace WatchOperation

def clearActiveState (runtime : RuntimeFacts) : RuntimeFacts :=
  { runtime with running := false, pendingPermissionRequests := 0, pendingUserInputRequests := 0 }

/-- The change made under the lock. -/
def mutate (state : ThreadWatchState) :
    WatchOperation → ThreadWatchState × Option ThreadStatusChangedNotification
  | upsertThread threadId => ThreadWatchState.upsertThread state threadId true
  | upsertThreadSilently threadId => ThreadWatchState.upsertThread state threadId false
  | removeThread threadId => ThreadWatchState.removeThread state threadId
  | noteTurnStarted threadId => ThreadWatchState.updateRuntime state threadId fun runtime =>
      { runtime with isLoaded := true, running := true, hasSystemError := false }
  | noteTurnCompleted threadId => ThreadWatchState.updateRuntime state threadId clearActiveState
  | noteTurnInterrupted threadId => ThreadWatchState.updateRuntime state threadId clearActiveState
  | noteThreadShutdown threadId => ThreadWatchState.updateRuntime state threadId fun runtime =>
      { clearActiveState runtime with isLoaded := false }
  | noteSystemError threadId => ThreadWatchState.updateRuntime state threadId fun runtime =>
      { clearActiveState runtime with hasSystemError := true }
  | notePendingRequest threadId guardType =>
    ThreadWatchState.updateRuntime state threadId fun runtime =>
      { runtime with isLoaded := true }.updateCounter guardType fun n => min (n + 1) (2 ^ 32 - 1)
  | noteActiveGuardReleased threadId guardType =>
    ThreadWatchState.updateRuntime state threadId fun runtime =>
      runtime.updateCounter guardType (· - 1)

def threadId : WatchOperation → Str
  | upsertThread threadId => threadId
  | upsertThreadSilently threadId => threadId
  | removeThread threadId => threadId
  | noteTurnStarted threadId => threadId
  | noteTurnCompleted threadId => threadId
  | noteTurnInterrupted threadId => threadId
  | noteThreadShutdown threadId => threadId
  | noteSystemError threadId => threadId
  | notePendingRequest threadId _ => threadId
  | noteActiveGuardReleased threadId _ => threadId

def isSilent : WatchOperation → Bool
  | upsertThreadSilently _ => true
  | _ => false

end WatchOperation

/-- What was sent, how many changes were made and whose status was last changed silently is only
recorded. -/
structure ThreadWatchManager where
  state : ThreadWatchState
  runningTurnCountTx : ℕ
  receiverCount : ℕ
  sent : List ThreadStatusChangedNotification
  changes : ℕ
  changedSilently : Str → Bool

inductive WatchCall
  | idle
  | counting (number : ℕ) (runningTurnCount : ℕ)
      (notification : Option ThreadStatusChangedNotification)
  | notifying (number : ℕ) (notification : ThreadStatusChangedNotification)
  | finished
deriving DecidableEq

inductive WatchAction
  | mutate (operation : WatchOperation)
  | sendCount
  | sendNotification
  | subscribeRunningTurnCount
  | dropReceiver
deriving DecidableEq

namespace ThreadWatchManager

def new : ThreadWatchManager :=
  { state := ∅, runningTurnCountTx := 0, receiverCount := 0, sent := [], changes := 0,
    changedSilently := fun _ => false }

variable (manager : ThreadWatchManager)

def mutate (operation : WatchOperation) : ThreadWatchManager × WatchCall :=
  let (next, notification) := operation.mutate manager.state
  let changed := ThreadWatchState.loadedStatusForThread next operation.threadId ≠
    ThreadWatchState.loadedStatusForThread manager.state operation.threadId
  ({ manager with
      state := next
      changes := manager.changes + 1
      changedSilently := if changed then
          Function.update manager.changedSilently operation.threadId operation.isSilent
        else manager.changedSilently },
    .counting (manager.changes + 1) (ThreadWatchState.runningTurnCount next) notification)

/-- Without a receiver the value is not stored. -/
def sendCount (runningTurnCount : ℕ) : ThreadWatchManager :=
  if 0 < manager.receiverCount then { manager with runningTurnCountTx := runningTurnCount }
  else manager

/-- What an operation does between two points where others may come in. -/
def takeTurn (outgoing : Bool) : WatchAction → ThreadWatchManager → WatchCall →
    Option (ThreadWatchManager × WatchCall)
  | .mutate operation, manager, .idle => some (manager.mutate operation)
  | .sendCount, manager, .counting number runningTurnCount notification =>
    some (manager.sendCount runningTurnCount,
      match notification with
      | some notification => if outgoing then .notifying number notification else .finished
      | none => .finished)
  | .sendNotification, manager, .notifying _ notification =>
    some ({ manager with sent := manager.sent ++ [notification] }, .finished)
  | .subscribeRunningTurnCount, manager, .idle =>
    some ({ manager with receiverCount := manager.receiverCount + 1 }, .finished)
  | .dropReceiver, manager, .idle =>
    some ({ manager with receiverCount := manager.receiverCount - 1 }, .finished)
  | _, _, _ => none

end ThreadWatchManager

abbrev WatchConfig (ι : Type*) := Config ι ThreadWatchManager WatchCall

def WatchConfig.start {ι : Type*} : WatchConfig ι := ⟨.new, fun _ => .idle⟩

abbrev WatchStep {ι : Type*} [DecidableEq ι] (outgoing : Bool)
    (allowed : WatchConfig ι → Turn ι WatchAction → Prop) :=
  Step (fun _ : ι => ThreadWatchManager.takeTurn outgoing) allowed

end CodexRs.AppServer
