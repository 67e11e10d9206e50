import CodexRs.Library.Tasks

/-!
# The tasks of a session

A turn is named by the call that starts it.
-/
namespace CodexRs.Core
open Tasks

inductive TerminalEvent
  | turnComplete
  | turnAborted
deriving DecidableEq

/-- The registered tasks in their order, and the state of the turn, which is told apart by a
number. -/
structure ActiveTurn (ι : Type*) where
  tasks : List ι
  turnState : ℕ

/-- The last item takes the place of the removed one. -/
def swapRemove {ι : Type*} [DecidableEq ι] (i : ι) (tasks : List ι) : List ι :=
  match tasks.getLast? with
  | none => []
  | some last => if i = last then tasks.dropLast
    else tasks.dropLast.map fun j => if j = i then last else j

/-- The cancellation tokens, the tasks whose handle was aborted and the events sent are kept by
turn. -/
structure SessionState (ι : Type*) where
  activeTurn : Option (ActiveTurn ι)
  nextTurnState : ℕ
  isCancelled : ι → Bool
  isAborted : ι → Bool
  events : List (ι × TerminalEvent)

/-- What has been done for the first task that an abort still has to handle. -/
inductive AbortStage
  | taken
  | cancelled
  | aborted
deriving DecidableEq

inductive SessionCall (ι : Type*)
  | idle
  /-- The active turn is there, and the task is not spawned yet. -/
  | prepared
  | running
  /-- The token was not cancelled when the task looked at it. -/
  | finishing
  /-- The task is removed; the state of the turn is kept if that was its last task. -/
  | completing (turnState : Option ℕ)
  | completed (turnState : Option ℕ)
  | ended
  | aborting (tasks : List ι) (stage : AbortStage)
deriving DecidableEq

inductive SessionAction (ι : Type*)
  /-- `maybe_start_turn_for_pending_work` claims the session if it is idle. -/
  | reserveActiveTurn
  | prepareTurn
  | addTask
  | checkToken
  | removeTask
  | sendTurnComplete
  | clearActiveTurn
  | takeActiveTurn
  | takeActiveTurnIfActive (turn : ι)
  | cancelToken
  | abortHandle
  | sendTurnAborted

namespace SessionState
variable {ι : Type*} (state : SessionState ι)

def new : SessionState ι := ⟨none, 0, fun _ => false, fun _ => false, []⟩

def activeTasks : List ι := (state.activeTurn.map ActiveTurn.tasks).getD []

/-- The active turn, which is made if there is none. -/
def getOrInsertActiveTurn : ActiveTurn ι := state.activeTurn.getD ⟨[], state.nextTurnState⟩

def insertActiveTurn (turn : ActiveTurn ι) : SessionState ι :=
  { state with
    activeTurn := some turn
    nextTurnState := if state.activeTurn.isSome then state.nextTurnState
      else state.nextTurnState + 1 }

def send (i : ι) (event : TerminalEvent) : SessionState ι :=
  { state with events := state.events ++ [(i, event)] }

variable [DecidableEq ι]

/-- The task is removed if the active turn has it; nothing is done if there is no such task. -/
def removeTask (i : ι) : SessionState ι × Option ℕ :=
  match state.activeTurn with
  | some turn =>
    if i ∈ turn.tasks then
      let tasks := swapRemove i turn.tasks
      ({ state with activeTurn := some { turn with tasks } },
        if tasks = [] then some turn.turnState else none)
    else (state, none)
  | none => (state, none)

/-- The active turn is cleared if it is still the one the task belonged to and has no task. -/
def clearActiveTurn (turnState : Option ℕ) : SessionState ι :=
  match state.activeTurn with
  | some turn =>
    if turn.tasks = [] ∧ turnState = some turn.turnState then { state with activeTurn := none }
    else state
  | none => state

/-- What a call does between two points where others may come in. A task whose handle was aborted
does nothing more. -/
def takeTurn (i : ι) : SessionAction ι → SessionState ι → SessionCall ι →
    Option (SessionState ι × SessionCall ι)
  | .reserveActiveTurn, state, .idle =>
    some (if state.activeTurn.isSome then state
      else state.insertActiveTurn state.getOrInsertActiveTurn, .idle)
  | .prepareTurn, state, .idle =>
    some (state.insertActiveTurn state.getOrInsertActiveTurn, .prepared)
  | .addTask, state, .prepared =>
    let turn := state.getOrInsertActiveTurn
    some (state.insertActiveTurn { turn with tasks := turn.tasks ++ [i] }, .running)
  | .checkToken, state, .running =>
    if state.isAborted i then none
    else some (state, if state.isCancelled i then .ended else .finishing)
  | .removeTask, state, .finishing =>
    if state.isAborted i then none
    else
      let (state, turnState) := state.removeTask i
      some (state, .completing turnState)
  | .sendTurnComplete, state, .completing turnState =>
    if state.isAborted i then none
    else some (state.send i .turnComplete, .completed turnState)
  | .clearActiveTurn, state, .completed turnState =>
    if state.isAborted i then none
    else some (state.clearActiveTurn turnState, .ended)
  | .takeActiveTurn, state, .idle =>
    some ({ state with activeTurn := none }, .aborting state.activeTasks .taken)
  | .takeActiveTurnIfActive turn, state, .idle =>
    if turn ∈ state.activeTasks then
      some ({ state with activeTurn := none }, .aborting state.activeTasks .taken)
    else some (state, .aborting [] .taken)
  | .cancelToken, state, .aborting (j :: tasks) .taken =>
    if state.isCancelled j then
      -- the task is dropped, and its handle with it
      some ({ state with isAborted := Function.update state.isAborted j true },
        .aborting tasks .taken)
    else
      some ({ state with isCancelled := Function.update state.isCancelled j true },
        .aborting (j :: tasks) .cancelled)
  -- the task has told that it is done, or the time is up
  | .abortHandle, state, .aborting (j :: tasks) .cancelled =>
    some ({ state with isAborted := Function.update state.isAborted j true },
      .aborting (j :: tasks) .aborted)
  | .sendTurnAborted, state, .aborting (j :: tasks) .aborted =>
    some (state.send j .turnAborted, .aborting tasks .taken)
  | _, _, _ => none

end SessionState

abbrev SessionConfig (ι : Type*) := Config ι (SessionState ι) (SessionCall ι)

def SessionConfig.start {ι : Type*} : SessionConfig ι := ⟨.new, fun _ => .idle⟩

abbrev SessionStep {ι : Type*} [DecidableEq ι]
    (allowed : SessionConfig ι → Turn ι (SessionAction ι) → Prop) :=
  Step (SessionState.takeTurn (ι := ι)) allowed

end CodexRs.Core
