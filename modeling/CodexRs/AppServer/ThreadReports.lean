import CodexRs.AppServer.ThreadStatus

/-!
# Reports of the status

All reports are true as soon as no operation is in progress, where they are sent in the order of
the changes.
-/
namespace CodexRs.AppServer
open Text Tasks Machine Tickets Function ThreadWatchManager ThreadWatchState WatchConfig

namespace ThreadWatchState
variable {state : ThreadWatchState} {threadId other : Str}

/-- What a change does to the status of a thread, and that it is told unless the change is
silent. -/
structure Told (state : ThreadWatchState) (threadId : Str) (silent : Bool)
    (result : ThreadWatchState × Option ThreadStatusChangedNotification) : Prop where
  others : ∀ other, other ≠ threadId →
    loadedStatusForThread result.1 other = loadedStatusForThread state other
  told : ∀ notification, result.2 = some notification →
    notification = ⟨threadId, loadedStatusForThread result.1 threadId⟩
  untold : result.2 = none →
    loadedStatusForThread result.1 threadId = loadedStatusForThread state threadId ∨
      silent = true

/-- The status in the table, told if it differs from the one before. -/
theorem told_insert (runtime : RuntimeFacts) (silent : Bool) : Told state threadId silent
      (state.insert threadId runtime,
        statusChangedNotification (state.insert threadId runtime) threadId
          (statusFor state threadId)) := by
  have hstatus : statusFor (state.insert threadId runtime) threadId =
      some (loadedThreadStatus runtime) := by
    simp [statusFor]
  refine ⟨fun other hne => ?_, fun notification h => ?_, fun h => .inl ?_⟩
  · simp [loadedStatusForThread, statusFor, hne]
  · obtain ⟨-, rfl⟩ : _ ∧ _ = notification := by
      simpa [statusChangedNotification, hstatus] using h
    rw [loadedStatusForThread, hstatus, Option.getD_some]
  · have hsame : statusFor state threadId = some (loadedThreadStatus runtime) := by
      simpa [statusChangedNotification, hstatus] using h
    rw [loadedStatusForThread, hstatus, loadedStatusForThread, hsame]

theorem told_upsertThread (emitNotification : Bool) :
    Told state threadId (!emitNotification) (upsertThread state threadId emitNotification) := by
  cases emitNotification with
  | true => exact told_insert _ _
  | false => exact ⟨(told_insert _ false).others, nofun, fun _ => .inr rfl⟩

theorem told_removeThread : Told state threadId false (removeThread state threadId) := by
  have hstatus : loadedStatusForThread (state.erase threadId) threadId = .notLoaded := by
    simp [loadedStatusForThread, statusFor]
  refine ⟨fun other hne => ?_, fun notification h => ?_, fun h => .inl ?_⟩
  · simp [removeThread, loadedStatusForThread, statusFor, hne]
  · obtain ⟨-, rfl⟩ : _ ∧ _ = notification := by simpa [removeThread] using h
    exact congrArg _ hstatus.symm
  · rw [removeThread, hstatus, loadedStatusForThread]
    cases hbefore : statusFor state threadId with
    | none => rfl
    | some status => simpa [removeThread, hbefore, eq_comm] using h

end ThreadWatchState

variable (operation : WatchOperation)

theorem WatchOperation.told (state : ThreadWatchState) :
    Told state operation.threadId operation.isSilent (operation.mutate state) := by
  cases operation with
  | upsertThread threadId => exact told_upsertThread true
  | upsertThreadSilently threadId => exact told_upsertThread false
  | removeThread threadId => exact told_removeThread
  | _ => exact told_insert _ _

/-! ## Reports under way -/

def pendingCount : WatchCall → Option (ℕ × ℕ)
  | .counting number runningTurnCount _ => some (number, runningTurnCount)
  | _ => none

def pendingStatus (threadId : Str) : WatchCall → Option (ℕ × ThreadStatus)
  | .counting number _ (some notification) =>
    if notification.threadId = threadId then some (number, notification.status) else none
  | .notifying number notification =>
    if notification.threadId = threadId then some (number, notification.status) else none
  | _ => none

namespace ThreadWatchManager
variable (manager : ThreadWatchManager)

/-- The status of the last notification sent for the thread. -/
def lastSent (threadId : Str) : Option ThreadStatus :=
  ((manager.sent.filter (·.threadId = threadId)).getLast?).map (·.status)

/-- The thread has the status, or another one to which it was changed silently. -/
def Agrees (threadId : Str) (status : ThreadStatus) : Prop :=
  manager.changedSilently threadId = true ∨
    status = loadedStatusForThread manager.state threadId

variable {manager}

theorem lastSent_append (notification : ThreadStatusChangedNotification) (threadId : Str) :
    { manager with sent := manager.sent ++ [notification] }.lastSent threadId =
      if notification.threadId = threadId then some notification.status
      else manager.lastSent threadId := by
  unfold lastSent
  by_cases h : notification.threadId = threadId <;> simp [h]

variable {status : ThreadStatus}

theorem agrees_mutate_of_ne {threadId : Str} (h : threadId ≠ operation.threadId)
    (hagrees : manager.Agrees threadId status) :
    (manager.mutate operation).1.Agrees threadId status := by
  have hothers := (operation.told manager.state).others threadId h
  simp only [Agrees, mutate] at hagrees ⊢
  grind

/-- A change that is not told leaves the status, or is silent. -/
theorem agrees_mutate_of_untold (huntold : (operation.mutate manager.state).2 = none)
    (hagrees : manager.Agrees operation.threadId status) :
    (manager.mutate operation).1.Agrees operation.threadId status := by
  have hsilent := (operation.told manager.state).untold huntold
  simp only [Agrees, mutate] at hagrees ⊢
  grind

theorem agrees_of_told {notification}
    (htold : (operation.mutate manager.state).2 = some notification) :
    notification.threadId = operation.threadId ∧
      (manager.mutate operation).1.Agrees operation.threadId notification.status := by
  have h := (operation.told manager.state).told notification htold
  exact ⟨by rw [h], .inr (by rw [h]; rfl)⟩

end ThreadWatchManager

/-! ## Steps -/

section
variable {ι : Type*}

/-- Counts are sent in the order of the changes, and only while someone receives them; so are the
notifications for each thread. -/
def Timely (c : WatchConfig ι) (turn : Turn ι WatchAction) : Prop :=
  match turn.action, c.task turn.task with
  | .sendCount, .counting number runningTurnCount _ =>
    IsFirst (pendingCount ∘ c.task) number ∧
      (0 < c.shared.receiverCount ∨ c.shared.runningTurnCountTx = runningTurnCount)
  | .sendNotification, .notifying number notification =>
    IsFirst (pendingStatus notification.threadId ∘ c.task) number
  | _, _ => True

/-- All reports are under way or true; without a client no notification is sent. -/
structure Reported (outgoing : Bool) (c : WatchConfig ι) : Prop where
  count : Reports (· = runningTurnCount c.shared.state) c.shared.changes
    (pendingCount ∘ c.task) (some c.shared.runningTurnCountTx)
  status : outgoing = true → ∀ threadId, Reports (c.shared.Agrees threadId) c.shared.changes
    (pendingStatus threadId ∘ c.task) (c.shared.lastSent threadId)
  unsent : outgoing = false →
    c.shared.sent = [] ∧ ∀ i number notification, c.task i ≠ .notifying number notification

theorem reported_start (outgoing : Bool) : Reported outgoing (start : WatchConfig ι) :=
  ⟨.none (by rintro value ⟨⟩; rfl), fun _ threadId => .none nofun, fun _ => ⟨rfl, nofun⟩⟩

variable [DecidableEq ι] {outgoing : Bool} {c d : WatchConfig ι} {i : ι} {t : WatchCall}

variable {task : ι → WatchCall}

/-- A call that has the same to report, or nothing before and after. -/
theorem comp_update_of_same {β : Type*} {f : WatchCall → β}
    (h : f t = f (task i)) : f ∘ update task i t = f ∘ task := by
  rw [comp_update, h]
  exact update_eq_self i (f ∘ task)

theorem not_notifying_update (h : ∀ i number notification, task i ≠ .notifying number notification)
    (ht : ∀ number notification, t ≠ .notifying number notification) (j : ι) (number : ℕ)
    (notification : ThreadStatusChangedNotification) :
    update task i t j ≠ .notifying number notification := by
  grind

attribute [local grind] pendingCount pendingStatus mutate

theorem Reported.mutate (h : Reported outgoing c) (hidle : c.task i = .idle)
    (operation : WatchOperation) :
    Reported outgoing (⟨(c.shared.mutate operation).1,
        update c.task i (c.shared.mutate operation).2⟩ : WatchConfig ι) := by
  refine ⟨?_, fun hout threadId => ?_, fun hout => ⟨(h.unsent hout).1,
    not_notifying_update (h.unsent hout).2 nofun⟩⟩
  · rw [comp_update]
    exact h.count.publish rfl
  · -- a change of another thread, one that is not told, and one that is
    by_cases hthread : threadId = operation.threadId
    · subst hthread
      cases htold : (operation.mutate c.shared.state).2 with
      | none =>
        rw [comp_update_of_same (by grind)]
        exact (h.status hout _).mono fun _ =>
          agrees_mutate_of_untold operation htold
      | some notification =>
        obtain ⟨hid, hagrees⟩ := agrees_of_told operation htold
        have hsome : pendingStatus operation.threadId (c.shared.mutate operation).2 =
            some (c.shared.changes + 1, notification.status) := by grind
        rw [comp_update, hsome]
        exact (h.status hout _).publish hagrees
    · have hnone : pendingStatus threadId (c.shared.mutate operation).2 = none := by
        cases htold : (operation.mutate c.shared.state).2 <;>
          grind [agrees_of_told]
      rw [comp_update_of_same (by grind)]
      exact (h.status hout _).mono fun _ =>
        agrees_mutate_of_ne operation hthread

/-- The call behind the count: a notification is left only for a client. -/
def afterCount (outgoing : Bool) (number : ℕ) : Option ThreadStatusChangedNotification → WatchCall
  | some notification => if outgoing then .notifying number notification else .finished
  | none => .finished

attribute [local grind] afterCount

variable (h : Reported outgoing c)
include h

theorem Reported.sendCount {number runningTurnCount : ℕ} {notification}
    (htask : c.task i = .counting number runningTurnCount notification)
    (hfirst : IsFirst (pendingCount ∘ c.task) number)
    (hreceived : 0 < c.shared.receiverCount ∨ c.shared.runningTurnCountTx = runningTurnCount) :
    Reported outgoing (⟨c.shared.sendCount runningTurnCount,
        update c.task i (afterCount outgoing number notification)⟩ : WatchConfig ι) := by
  have hstored : c.shared.sendCount runningTurnCount =
      { c.shared with runningTurnCountTx := runningTurnCount } := by
    unfold ThreadWatchManager.sendCount
    split_ifs with hreceiver
    · rfl
    · rw [← hreceived.resolve_left hreceiver]
  rw [hstored]
  refine ⟨?_, fun hout threadId => ?_, fun hout => ⟨(h.unsent hout).1,
    not_notifying_update (h.unsent hout).2 ?_⟩⟩
  · have hnone : pendingCount (afterCount outgoing number notification) = none := by
      cases notification <;> grind
    rw [comp_update, hnone]
    refine h.count.deliver ?_ hfirst
    rw [comp_apply, htask]
    rfl
  · rw [comp_update_of_same (by cases notification <;> grind)]
    exact h.status hout threadId
  · intro k n
    rw [hout]
    cases notification <;> exact nofun

theorem Reported.sendNotification {number : ℕ} {notification}
    (htask : c.task i = .notifying number notification)
    (hfirst : IsFirst (pendingStatus notification.threadId ∘ c.task) number) :
    Reported outgoing (⟨{ c.shared with sent := c.shared.sent ++ [notification] },
        update c.task i .finished⟩ : WatchConfig ι) := by
  refine ⟨?_, fun hout threadId => ?_, fun hout => absurd htask ((h.unsent hout).2 i _ _)⟩
  · rw [comp_update_of_same (by rw [htask]; rfl)]
    exact h.count
  · rw [lastSent_append]
    by_cases hthread : notification.threadId = threadId
    · subst hthread
      rw [if_pos rfl, comp_update]
      refine (h.status hout _).deliver ?_ hfirst
      rw [comp_apply, htask, pendingStatus, if_pos rfl]
    · rw [if_neg hthread, comp_update_of_same (by grind)]
      exact h.status hout threadId

theorem Reported.receivers (hidle : c.task i = .idle) (receiverCount : ℕ) :
    Reported outgoing (⟨{ c.shared with receiverCount := receiverCount },
        update c.task i .finished⟩ : WatchConfig ι) := by
  refine ⟨?_, fun hout threadId => ?_, fun hout => ⟨(h.unsent hout).1,
    not_notifying_update (h.unsent hout).2 nofun⟩⟩
  · rw [comp_update_of_same (by rw [hidle]; rfl)]
    exact h.count
  · rw [comp_update_of_same (by rw [hidle]; rfl)]
    exact h.status hout threadId

theorem Reported.step {turn : Turn ι WatchAction}
    (hstep : WatchStep outgoing Timely c turn d) : Reported outgoing d := by
  obtain ⟨i, action⟩ := turn
  obtain ⟨htimely, htake⟩ := hstep
  obtain ⟨s, t, hsec, rfl⟩ := take_eq_some.mp htake
  dsimp only at hsec
  unfold takeTurn at hsec
  split at hsec
  case h_1 operation htask =>
    have hpair : c.shared.mutate operation = (s, t) := Option.some.inj hsec
    have hnext := h.mutate htask operation
    rw [hpair] at hnext
    exact hnext
  case h_2 htask =>
    rw [Timely, htask] at htimely
    cases hsec
    exact h.sendCount htask htimely.1 htimely.2
  case h_3 htask =>
    rw [Timely, htask] at htimely
    cases hsec
    exact h.sendNotification htask htimely
  case h_4 htask =>
    cases hsec
    exact h.receivers htask _
  case h_5 htask =>
    cases hsec
    exact h.receivers htask _
  · cases hsec

end

/-! ## Runs -/

variable {ι : Type*}

/-- No operation is in progress. -/
def Quiet (c : WatchConfig ι) : Prop := ∀ i, c.task i = .idle ∨ c.task i = .finished

structure Truthful (c : WatchConfig ι) : Prop where
  notified : ∀ threadId status, c.shared.lastSent threadId = some status →
    c.shared.changedSilently threadId = false →
    status = loadedStatusForThread c.shared.state threadId
  counted : 0 < c.shared.receiverCount →
    c.shared.runningTurnCountTx = runningTurnCount c.shared.state

/-- Where reports are in order and counts are received: when nothing is in progress, a thread was
last reported with its status, unless that changed silently, and the count is known. -/
theorem reports_truthful [DecidableEq ι] {outgoing : Bool} {turns : List (Turn ι WatchAction)}
    {c : WatchConfig ι} (hrun : Run (WatchStep outgoing Timely) WatchConfig.start turns c)
    (hquiet : Quiet c) : Truthful c := by
  have h : Reported outgoing c := Run.invariant (I := fun _ c => Reported outgoing c)
    (fun _ _ _ _ h hstep => h.step hstep) hrun (reported_start outgoing)
  have hcount : ∀ i, pendingCount (c.task i) = none := fun i => by
    rcases hquiet i with hi | hi <;> rw [hi] <;> rfl
  have hstatus : ∀ threadId i, pendingStatus threadId (c.task i) = none := fun threadId i => by
    rcases hquiet i with hi | hi <;> rw [hi] <;> rfl
  refine ⟨fun threadId status hlast hloud => ?_, fun _ => h.count.quiet hcount rfl⟩
  cases hout : outgoing with
  | true =>
    rcases (h.status hout threadId).quiet (hstatus threadId) hlast with hsilent | hsame
    · rw [hloud] at hsilent
      cases hsilent
    · exact hsame
  | false =>
    rw [lastSent, (h.unsent hout).1] at hlast
    cases hlast

instance [Fintype ι] (c : WatchConfig ι) (turn : Turn ι WatchAction) :
    Decidable (Timely c turn) := by
  unfold Timely
  split <;> infer_instance

instance [Fintype ι] (c : WatchConfig ι) : Decidable (Quiet c) :=
  inferInstanceAs (Decidable (∀ i, c.task i = .idle ∨ c.task i = .finished))

attribute [local instance] neZeroThree

/-- Two changes of a thread that overlap and are reported in their order. -/
def overlappingReports : List (Turn (Fin 3) WatchAction) :=
  [⟨0, .subscribeRunningTurnCount⟩, ⟨1, .mutate (.noteTurnStarted ['t'])⟩,
    ⟨2, .mutate (.noteSystemError ['t'])⟩, ⟨1, .sendCount⟩, ⟨2, .sendCount⟩,
    ⟨1, .sendNotification⟩, ⟨2, .sendNotification⟩]

theorem reports_truthful_overlapping : ∃ c : WatchConfig (Fin 3),
    Run (WatchStep true Timely) WatchConfig.start overlappingReports c ∧ Quiet c ∧
      c.shared.lastSent ['t'] = some .systemError ∧ Truthful c := by
  have hrun : Run (WatchStep true Timely) start overlappingReports _ := run_of_takeAll rfl
  refine ⟨_, hrun, ?_, rfl, reports_truthful hrun ?_⟩ <;> decide

/-- A notification overtakes another, and someone subscribes after the count was sent. -/
theorem reports_untruthful : (∃ c : WatchConfig (Fin 2),
      Run (WatchStep true AnyTurn) WatchConfig.start
        [⟨0, .mutate (.noteTurnStarted ['t'])⟩, ⟨0, .sendCount⟩,
          ⟨1, .mutate (.noteSystemError ['t'])⟩, ⟨1, .sendCount⟩, ⟨1, .sendNotification⟩,
          ⟨0, .sendNotification⟩] c ∧ Quiet c ∧ ¬ Truthful c) ∧
    (∃ c : WatchConfig (Fin 2), Run (WatchStep true AnyTurn) WatchConfig.start
        [⟨0, .mutate (.noteTurnStarted ['t'])⟩, ⟨0, .sendCount⟩, ⟨0, .sendNotification⟩,
          ⟨1, .subscribeRunningTurnCount⟩] c ∧ Quiet c ∧ ¬ Truthful c) := by
  constructor
  · refine ⟨_, run_of_takeAll rfl, by decide, fun htrue => ?_⟩
    have hsame : ThreadStatus.active [] = .systemError := htrue.notified ['t'] _ rfl rfl
    cases hsame
  · refine ⟨_, run_of_takeAll rfl, by decide, fun htrue => ?_⟩
    have hsame : 0 = 1 := htrue.counted Nat.one_pos
    cases hsame

end CodexRs.AppServer
