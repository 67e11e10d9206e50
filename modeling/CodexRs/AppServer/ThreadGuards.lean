import CodexRs.AppServer.ThreadStatus

/-!
# Guards of pending requests

The counters of pending requests are zeroed when a turn ends, and the guards of that turn
count down what later requests have counted up.
-/
namespace CodexRs.AppServer
open Text Machine ThreadWatchState List

def ThreadWatchActiveGuardType.flag : ThreadWatchActiveGuardType → ThreadActiveFlag
  | .permission => .waitingOnApproval
  | .userInput => .waitingOnUserInput

def ThreadStatus.activeFlags : ThreadStatus → List ThreadActiveFlag
  | .active activeFlags => activeFlags
  | _ => []

variable (runtime : RuntimeFacts)

def RuntimeFacts.pendingCounter : ThreadWatchActiveGuardType → ℕ
  | .permission => runtime.pendingPermissionRequests
  | .userInput => runtime.pendingUserInputRequests

/-- A guard, and whether no turn has ended since it was obtained. -/
structure ThreadWatchActiveGuard where
  guardType : ThreadWatchActiveGuardType
  current : Bool
deriving DecidableEq

/-- The state, with the guards of one thread that are not released. -/
structure GuardedThread where
  state : ThreadWatchState
  guards : List ThreadWatchActiveGuard

inductive ThreadEvent
  | turnStarted
  | turnCompleted
  | turnInterrupted
  | threadShutdown
  | systemError
  | requested (guardType : ThreadWatchActiveGuardType)
  | released (guard : ThreadWatchActiveGuard)

namespace GuardedThread

def start : GuardedThread := ⟨∅, []⟩

def endTurn (thread : GuardedThread) (operation : WatchOperation) : GuardedThread :=
  ⟨(operation.mutate thread.state).1, thread.guards.map ({ · with current := false })⟩

def step (threadId : Str) (thread : GuardedThread) : ThreadEvent → Option GuardedThread
  | .turnStarted =>
    some { thread with state := (WatchOperation.noteTurnStarted threadId).mutate thread.state |>.1 }
  | .turnCompleted => some (thread.endTurn (.noteTurnCompleted threadId))
  | .turnInterrupted => some (thread.endTurn (.noteTurnInterrupted threadId))
  | .threadShutdown => some (thread.endTurn (.noteThreadShutdown threadId))
  | .systemError => some (thread.endTurn (.noteSystemError threadId))
  | .requested guardType =>
    some ⟨(WatchOperation.notePendingRequest threadId guardType).mutate thread.state |>.1,
      ⟨guardType, true⟩ :: thread.guards⟩
  | .released guard =>
    if guard ∈ thread.guards then
      some ⟨(WatchOperation.noteActiveGuardReleased threadId guard.guardType).mutate thread.state
        |>.1, thread.guards.erase guard⟩
    else none

/-- No guard of an ended turn is released while one of the same type is current, and the
counter has room for a request. -/
def Timely (thread : GuardedThread) : ThreadEvent → Prop
  | .requested guardType => thread.guards.count ⟨guardType, true⟩ < 2 ^ 32 - 1
  | .released ⟨guardType, false⟩ => ⟨guardType, true⟩ ∉ thread.guards
  | _ => True

instance (thread : GuardedThread) : DecidablePred thread.Timely
  | .requested _ => inferInstanceAs (Decidable (_ < _))
  | .released ⟨_, false⟩ => inferInstanceAs (Decidable (_ ∉ _))
  | .released ⟨_, true⟩ | .turnStarted | .turnCompleted | .turnInterrupted | .threadShutdown
  | .systemError => isTrue trivial

/-- What is known of the thread. -/
def facts (thread : GuardedThread) (threadId : Str) : RuntimeFacts :=
  (thread.state.lookup threadId).getD .default

/-- The counters tell how many guards are current. -/
structure Counted (thread : GuardedThread) (threadId : Str) : Prop where
  counter : ∀ guardType, (thread.facts threadId).pendingCounter guardType =
    thread.guards.count ⟨guardType, true⟩
  loaded : ∀ guardType, 0 < (thread.facts threadId).pendingCounter guardType →
    (thread.facts threadId).isLoaded = true

variable {thread next : GuardedThread} {threadId : Str} {event : ThreadEvent}

theorem pendingCounter_updateCounter
    (guardType other : ThreadWatchActiveGuardType) (update : ℕ → ℕ) :
    (runtime.updateCounter guardType update).pendingCounter other =
      if other = guardType then update (runtime.pendingCounter other)
      else runtime.pendingCounter other := by
  cases guardType <;> cases other <;> rfl

theorem isLoaded_updateCounter (guardType : ThreadWatchActiveGuardType) (update : ℕ → ℕ) :
    (runtime.updateCounter guardType update).isLoaded = runtime.isLoaded := by
  cases guardType <;> rfl

theorem facts_updateRuntime (mutate : RuntimeFacts → RuntimeFacts)
    (guards : List ThreadWatchActiveGuard) :
    facts ⟨(updateRuntime thread.state threadId mutate).1, guards⟩ threadId =
      mutate { thread.facts threadId with isLoaded := true } := by
  simp [facts, updateRuntime]

theorem counted_endTurn {operation : WatchOperation} (hzero : ∀ guardType,
      ((thread.endTurn operation).facts threadId).pendingCounter guardType = 0) :
    (thread.endTurn operation).Counted threadId := by
  constructor
  · intro guardType
    rw [hzero, eq_comm, count_eq_zero]
    simp [endTurn]
  · intro guardType hpos
    exact absurd (hzero guardType) hpos.ne'

theorem Counted.step (h : thread.Counted threadId) (htimely : thread.Timely event)
    (hstep : thread.step threadId event = some next) : next.Counted threadId := by
  have hcounter : ∀ guardType, RuntimeFacts.pendingCounter
      { thread.facts threadId with isLoaded := true } guardType =
      thread.guards.count ⟨guardType, true⟩ := by
    intro guardType
    rw [← h.counter guardType]
    cases guardType <;> rfl
  cases event with
  | turnStarted =>
    cases hstep
    rw [WatchOperation.mutate]
    refine ⟨fun guardType => ?_, fun _ _ => by rw [facts_updateRuntime]⟩
    rw [facts_updateRuntime, ← hcounter]
    cases guardType <;> rfl
  | turnCompleted | turnInterrupted | threadShutdown | systemError =>
    cases hstep
    refine counted_endTurn fun guardType => ?_
    rw [endTurn, WatchOperation.mutate, facts_updateRuntime]
    cases guardType <;> rfl
  | requested guardType =>
    cases hstep
    rw [WatchOperation.mutate]
    refine ⟨fun other => ?_, fun _ _ => by rw [facts_updateRuntime, isLoaded_updateCounter]⟩
    have hroom : thread.guards.count ⟨guardType, true⟩ < 2 ^ 32 - 1 := htimely
    rw [facts_updateRuntime, pendingCounter_updateCounter, hcounter, count_cons]
    grind
  | released guard =>
    rw [GuardedThread.step] at hstep
    split_ifs at hstep with hmem
    cases hstep
    rw [WatchOperation.mutate]
    refine ⟨fun other => ?_, fun _ _ => by rw [facts_updateRuntime, isLoaded_updateCounter]⟩
    rw [facts_updateRuntime, pendingCounter_updateCounter, hcounter, count_erase]
    obtain ⟨guardType, current⟩ := guard
    cases current with
    | true => grind
    | false =>
      -- the counter of an ended turn's guard is at zero, and stays there
      have hnone := count_eq_zero.mpr htimely
      grind

end GuardedThread

open GuardedThread

theorem flag_mem_loadedThreadStatus {runtime : RuntimeFacts} {guardType}
    (hloaded : 0 < runtime.pendingCounter guardType → runtime.isLoaded = true) :
    guardType.flag ∈ (loadedThreadStatus runtime).activeFlags ↔
      0 < runtime.pendingCounter guardType := by
  unfold loadedThreadStatus
  cases guardType <;> grind [RuntimeFacts.pendingCounter, ThreadStatus.activeFlags,
    ThreadWatchActiveGuardType.flag]

theorem loadedStatusForThread_eq (thread : GuardedThread) (threadId : Str) :
    loadedStatusForThread thread.state threadId = loadedThreadStatus (thread.facts threadId) := by
  rw [loadedStatusForThread, statusFor, facts]
  cases thread.state.lookup threadId <;> rfl

/-- Where releases and requests are timely, the status carries a flag exactly while a guard of
its type is current. -/
theorem waiting_iff_current_guard {threadId : Str} {events : List ThreadEvent}
    {thread : GuardedThread}
    (hrun : Run (fun s event t => s.Timely event ∧ s.step threadId event = some t) start events
      thread) (guardType : ThreadWatchActiveGuardType) :
    guardType.flag ∈ (loadedStatusForThread thread.state threadId).activeFlags ↔
      ⟨guardType, true⟩ ∈ thread.guards := by
  have hzero : ∀ guardType, (start.facts threadId).pendingCounter guardType = 0 := by
    intro guardType
    cases guardType <;> rfl
  have hstart : start.Counted threadId :=
    ⟨hzero, fun guardType hpos => absurd (hzero guardType) hpos.ne'⟩
  have hcounted : thread.Counted threadId := hrun.invariant (I := fun _ s => s.Counted threadId)
      (fun _ _ _ _ hs hstep => hs.step hstep.1 hstep.2) hstart
  rw [loadedStatusForThread_eq, flag_mem_loadedThreadStatus (hcounted.loaded guardType),
    hcounted.counter, count_pos_iff]

theorem waiting_iff_current_guard_late : ∃ thread : GuardedThread,
    thread.guards = [⟨.permission, true⟩] ∧ ThreadActiveFlag.waitingOnApproval ∈
      (loadedStatusForThread thread.state "t".toList).activeFlags := by
  let events : List ThreadEvent := [.requested .permission, .turnCompleted,
    .released ⟨.permission, false⟩, .requested .permission]
  have hrun : Run (fun s event t => s.Timely event ∧ s.step "t".toList event = some t) start
      events _ := Along.run (by decide +kernel) rfl
  exact ⟨_, rfl, (waiting_iff_current_guard hrun .permission).mpr mem_cons_self⟩

/-- The guard of a turn that is completed is released after the next request. -/
theorem waiting_lost_to_late_release :
    let events := [.requested .permission, .turnCompleted, .requested .permission,
      .released ⟨.permission, false⟩]
    (events.foldlM (step "t".toList) start).map (fun thread =>
      (decide (.waitingOnApproval ∈ (loadedStatusForThread thread.state "t".toList).activeFlags),
        decide (⟨.permission, true⟩ ∈ thread.guards))) = some (false, true) := by
  decide +kernel

end CodexRs.AppServer
