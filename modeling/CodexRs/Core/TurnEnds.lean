import CodexRs.Core.SessionTasks

/-!
# Every turn ends once

Somebody has the duty to report the end of a turn: the active turn, the abort that takes the task
away, or the task once it has removed itself.
-/
namespace CodexRs.Core
open Tasks Machine Function List

section
variable {ι : Type*} [DecidableEq ι] {i : ι} {tasks : List ι}

theorem swapRemove_concat (i last : ι) (init : List ι) : swapRemove i (init ++ [last]) =
    if i = last then init else init.map fun j => if j = i then last else j := by
  simp [swapRemove]

@[grind =] theorem mem_swapRemove (h : tasks.Nodup) (hi : i ∈ tasks) (j : ι) :
    j ∈ swapRemove i tasks ↔ j ∈ tasks ∧ j ≠ i := by
  rcases eq_nil_or_concat tasks with rfl | ⟨init, last, rfl⟩
  · cases hi
  · rw [concat_eq_append] at h hi ⊢
    rw [swapRemove_concat]
    obtain ⟨-, -, hlast⟩ := nodup_append.mp h
    split_ifs with hil
    · grind
    · grind

theorem nodup_swapRemove (h : tasks.Nodup) : (swapRemove i tasks).Nodup := by
  rcases eq_nil_or_concat tasks with rfl | ⟨init, last, rfl⟩
  · exact nodup_nil
  · rw [concat_eq_append] at h ⊢
    rw [swapRemove_concat]
    obtain ⟨hinit, -, hlast⟩ := nodup_append.mp h
    split_ifs
    · exact hinit
    · apply hinit.map_on
      grind

end

namespace SessionState
variable {ι : Type*} (state : SessionState ι) (turnState : Option ℕ)

theorem tasks_getOrInsertActiveTurn :
    state.getOrInsertActiveTurn.tasks = state.activeTasks := by
  unfold getOrInsertActiveTurn activeTasks
  cases state.activeTurn <;> rfl

theorem activeTasks_clearActiveTurn :
    (state.clearActiveTurn turnState).activeTasks = state.activeTasks := by
  obtain ⟨_ | turn, nextTurnState, isCancelled, isAborted, events⟩ := state
  · rfl
  · by_cases h : turn.tasks = [] ∧ turnState = some turn.turnState
    · simp [clearActiveTurn, activeTasks, h]
    · simp [clearActiveTurn, activeTasks, h]

variable [DecidableEq ι] (i : ι)

/-- How many events were sent for a turn. -/
def eventCount : ℕ := (state.events.filter fun event => event.1 = i).length

/-- What is known of a turn beside its task: its events, its token and its handle. -/
def record : ℕ × Bool × Bool := (state.eventCount i, state.isCancelled i, state.isAborted i)

theorem record_send (event : TerminalEvent) : (state.send i event).record =
    update state.record i ((state.record i).1 + 1, (state.record i).2) := by
  funext j
  rcases ne_or_eq j i with hj | rfl
  · simp [record, eventCount, send, hj, hj.symm]
  · simp [record, eventCount, send]

theorem record_removeTask : (state.removeTask i).1.record = state.record := by
  unfold removeTask
  split
  · split_ifs <;> rfl
  · rfl

theorem record_clearActiveTurn :
    (state.clearActiveTurn turnState).record = state.record := by
  unfold clearActiveTurn
  split
  · split_ifs <;> rfl
  · rfl

theorem activeTasks_removeTask {i : ι} (hi : i ∈ state.activeTasks) :
    (state.removeTask i).1.activeTasks = swapRemove i state.activeTasks := by
  obtain ⟨_ | turn, nextTurnState, isCancelled, isAborted, events⟩ := state
  · cases hi
  · have hi : i ∈ turn.tasks := hi
    simp [removeTask, activeTasks, hi]

end SessionState

variable {ι : Type*}

/-- The tasks that an abort has taken and not reported yet. -/
@[simp] def SessionCall.taken : SessionCall ι → List ι
  | .aborting tasks _ => tasks
  | _ => []

/-- The task whose token an abort has cancelled and whose end it has not reported yet. -/
def SessionCall.cancelling : SessionCall ι → Option ι
  | .aborting _ .taken => none
  | .aborting tasks _ => tasks.head?
  | _ => none

/-- No task is spawned yet, or none ever is. -/
@[simp] def SessionCall.isUnstarted : SessionCall ι → Bool
  | .idle => true
  | .prepared => true
  | .aborting _ _ => true
  | _ => false

/-- The task was spawned, and it does not report its completion now. -/
@[simp] def SessionCall.isSpawned : SessionCall ι → Bool
  | .running => true
  | .completed _ => true
  | .ended => true
  | _ => false

/-- Who is to report the end of a turn: the active turn, an abort, or the task itself. -/
inductive Duty (ι : Type*)
  | nobody
  | active
  | abort (k : ι)
  | own
  | reported

/-- What is known of a turn while the duty lies there. -/
@[simp] def Duty.Fits (task : ι → SessionCall ι) (record : ι → ℕ × Bool × Bool) (i : ι) :
    Duty ι → Prop
  | nobody => (task i).isUnstarted = true ∧ record i = (0, false, false)
  | active => (task i = .running ∨ task i = .finishing) ∧ record i = (0, false, false)
  | abort k => (task i = .running ∨ task i = .ended) ∧ (record i).1 = 0 ∧
    ((record i).2.1 = true → (task k).cancelling = some i)
  | own => (∃ turnState, task i = .completing turnState) ∧ (record i).1 = 0 ∧
    (record i).2.2 = false
  | reported => (task i).isSpawned = true ∧ (record i).1 = 1

/-- The duties lie where the registered tasks, what is known of the turns and the calls say. -/
structure Dutiful (active : List ι) (record : ι → ℕ × Bool × Bool) (task : ι → SessionCall ι)
    (duty : ι → Duty ι) : Prop where
  mem : ∀ i, i ∈ active ↔ duty i = .active
  taken : ∀ i k, i ∈ (task k).taken ↔ duty i = .abort k
  fits : ∀ i, (duty i).Fits task record i
  nodupActive : active.Nodup
  nodupTaken : ∀ k, (task k).taken.Nodup

variable {i j : ι} {active active' tasks tasks' : List ι} {record record' : ι → ℕ × Bool × Bool}
  {task : ι → SessionCall ι} {call : SessionCall ι} {turnState : Option ℕ} {stage : AbortStage}
  {duty : ι → Duty ι}

namespace Dutiful
variable (h : Dutiful active record task duty)
include h

theorem eq_nobody (hi : (task i).isUnstarted = true) : duty i = .nobody := by
  have hfits := h.fits i
  cases hduty : duty i with
  | nobody => rfl
  | _ => cases hcall : task i <;> simp [hduty, hcall] at hfits hi

theorem eq_active (hi : task i = .finishing) : duty i = .active := by
  have hfits := h.fits i
  cases hduty : duty i <;> simp [hduty, hi] at hfits
  rfl

theorem not_cancelled (hi : task i = .aborting (j :: tasks) .taken) :
    ¬ (record j).2.1 = true := by
  have hfits := h.fits j
  rw [(h.taken j i).mp (by simp [hi])] at hfits
  intro hcancelled
  have hcall := hfits.2.2 hcancelled
  rw [hi] at hcall
  cases hcall

variable [DecidableEq ι]

/-- The turn of a call says nothing new of another turn, unless it is to report that one. -/
theorem frame (hj : j ≠ i) (hrecord : record' j = record j)
    (hcall : duty j = .abort i → (task i).cancelling ≠ some j) :
    (duty j).Fits (update task i call) record' j := by
  have hfits := h.fits j
  cases hduty : duty j with
  | abort k =>
    rcases ne_or_eq k i with hk | rfl
    · simpa [hduty, hj, hk, hrecord] using hfits
    · rw [hduty] at hfits
      exact ⟨by simpa [hj] using hfits.1, hrecord ▸ hfits.2.1,
        fun hcancelled => absurd (hfits.2.2 (hrecord ▸ hcancelled)) (hcall hduty)⟩
  | _ => simpa [hduty, hj, hrecord] using hfits

/-- A call changes its own duty, and it has none to report. -/
theorem assign (new : Duty ι) (hi : (task i).taken = []) (hcall : call.taken = [])
    (hnew : ∀ k, duty i = .abort k ↔ new = .abort k) (hrecord : ∀ j ≠ i, record' j = record j)
    (hothers : ∀ j ≠ i, j ∈ active' ↔ j ∈ active) (hself : i ∈ active' ↔ new = .active)
    (hnodup : active'.Nodup) (hfits : new.Fits (update task i call) record' i) :
    Dutiful active' record' (update task i call) (update duty i new) := by
  have htaken : ∀ k, (update task i call k).taken = (task k).taken := by
    intro k
    rcases ne_or_eq k i with hk | rfl
    · rw [update_of_ne hk]
    · rw [update_self, hcall, hi]
  refine ⟨fun j => ?_, fun j k => ?_, fun j => ?_, hnodup, fun k => htaken k ▸ h.nodupTaken k⟩
  · rcases ne_or_eq j i with hj | rfl
    · rw [update_of_ne hj, hothers j hj, h.mem]
    · rw [update_self, hself]
  · rw [htaken, h.taken]
    rcases ne_or_eq j i with hj | rfl
    · rw [update_of_ne hj]
    · rw [update_self, hnew]
  · rcases ne_or_eq j i with hj | rfl
    · rw [update_of_ne hj]
      refine h.frame hj (hrecord j hj) fun hduty => ?_
      rw [← h.taken, hi] at hduty
      cases hduty
    · rwa [update_self]

theorem keep (hi : (task i).taken = []) (hcall : call.taken = [])
    (hfits : (duty i).Fits (update task i call) record i) :
    Dutiful active record (update task i call) duty := by
  have hkeep := h.assign (duty i) hi hcall (fun _ => Iff.rfl) (fun _ _ => rfl)
    (fun _ _ => Iff.rfl) (h.mem i) h.nodupActive hfits
  rwa [update_eq_self] at hkeep

/-- A call that has spawned no task makes the active turn, or finds that it has nothing to abort. -/
theorem prepare (hi : task i = .idle) (hcall : call.isUnstarted = true) (hnil : call.taken = []) :
    Dutiful active record (update task i call) duty := by
  have hduty := h.eq_nobody (i := i) (by simp [hi])
  have hfits := h.fits i
  apply h.keep (by simp [hi]) hnil
  rw [hduty] at hfits ⊢
  exact ⟨by rwa [update_self], hfits.2⟩

/-- The duty comes to lie with the active turn. -/
theorem spawn (hi : task i = .prepared) :
    Dutiful (active ++ [i]) record (update task i .running) (update duty i .active) := by
  have hduty := h.eq_nobody (i := i) (by simp [hi])
  have hfits := h.fits i
  have hnodup := h.nodupActive.concat (a := i) (by simp [h.mem, hduty])
  rw [concat_eq_append] at hnodup
  exact h.assign .active (by simp [hi]) rfl (by simp [hduty]) (fun _ _ => rfl)
    (by simp +contextual) (by simp) hnodup (by simpa [hduty, hi] using hfits)

theorem check (hi : task i = .running) (hchecked : (record i).2.1 = true ∨ duty i = .active) :
    Dutiful active record (update task i (if (record i).2.1 then .ended else .finishing)) duty := by
  have hfits := h.fits i
  apply h.keep (by simp [hi]) (by split_ifs <;> rfl)
  cases hduty : duty i with
  | abort k =>
    have hcancelled : (record i).2.1 = true := by simpa [hduty] using hchecked
    have hk : k ≠ i := by
      rintro rfl
      simp [← h.taken, hi] at hduty
    simpa [hduty, hcancelled, hk, hi] using hfits
  | _ => simp_all

/-- The task takes the duty with it when it removes itself. -/
theorem remove (hi : task i = .finishing) (turnState : Option ℕ) :
    Dutiful (swapRemove i active) record (update task i (.completing turnState))
      (update duty i .own) := by
  have hduty := h.eq_active hi
  have hfits := h.fits i
  have hmem := mem_swapRemove h.nodupActive ((h.mem i).mpr hduty)
  rw [hduty] at hfits
  exact h.assign .own (by simp [hi]) rfl (by simp [hduty]) (fun _ _ => rfl)
    (fun j hj => by simp [hmem, hj]) (by simp [hmem]) (nodup_swapRemove h.nodupActive)
    (by simp [hfits.2])

theorem complete (hi : task i = .completing turnState) :
    Dutiful active (update record i ((record i).1 + 1, (record i).2))
      (update task i (.completed turnState)) (update duty i .reported) := by
  have hfits := h.fits i
  have hduty : duty i = .own := by
    cases hduty : duty i <;> simp [hduty, hi] at hfits
    rfl
  rw [hduty] at hfits
  exact h.assign .reported (by simp [hi]) rfl (by simp [hduty]) (fun j hj => update_of_ne hj ..)
    (fun _ _ => Iff.rfl) (by simp [h.mem, hduty]) h.nodupActive (by simp [hfits.2.1])

theorem clear (hi : task i = .completed turnState) :
    Dutiful active record (update task i .ended) duty := by
  have hfits := h.fits i
  apply h.keep (by simp [hi]) rfl
  cases hduty : duty i <;> simp [hduty, hi] at hfits
  simp [hfits]

/-- An abort takes the duties of all registered tasks. -/
theorem takeActive (hi : task i = .idle) (hrunning : ∀ j ∈ active, task j ≠ .finishing) :
    Dutiful [] record (update task i (.aborting active .taken))
      fun j => if j ∈ active then .abort i else duty j := by
  have hduty := h.eq_nobody (i := i) (by simp [hi])
  have hmem : i ∉ active := by simp [h.mem, hduty]
  refine ⟨fun j => ?_, fun j k => ?_, fun j => ?_, nodup_nil, fun k => ?_⟩
  · split_ifs with hj
    · simp
    · simpa [h.mem] using hj
  · have htaken := h.taken j k
    rcases ne_or_eq k i with hk | rfl
    · rw [update_of_ne hk, htaken]
      split_ifs with hj
      · simp [(h.mem j).mp hj, hk.symm]
      · rfl
    · split_ifs with hj
      · simpa using hj
      · simpa [hi, hj] using htaken
  · split_ifs with hj
    · have hfits := h.fits j
      have hne : j ≠ i := ne_of_mem_of_not_mem hj hmem
      rw [(h.mem j).mp hj] at hfits
      simp [hne, hfits.2, hfits.1.resolve_right (hrunning j hj)]
    · rcases ne_or_eq j i with hne | rfl
      · exact h.frame hne rfl fun hj => by simp [← h.taken, hi] at hj
      · have hfits := h.fits j
        rw [hduty] at hfits ⊢
        exact ⟨by simp, hfits.2⟩
  · rcases ne_or_eq k i with hk | rfl
    · rw [update_of_ne hk]
      exact h.nodupTaken k
    · rw [update_self]
      exact h.nodupActive

/-- An abort goes on with its first task. -/
theorem advance {new : Duty ι} (stage' : AbortStage)
    (hi : task i = .aborting (j :: tasks) stage) (hrecord : ∀ k ≠ j, record' k = record k)
    (hnew : new = .reported ∨ new = .abort i)
    (htaken : ∀ k, k ∈ tasks' ↔ update duty j new k = .abort i) (hnodup : tasks'.Nodup)
    (hfits : new.Fits (update task i (.aborting tasks' stage')) record' j) :
    Dutiful active record' (update task i (.aborting tasks' stage')) (update duty j new) := by
  have hduty := h.eq_nobody (i := i) (by simp [hi])
  have hj : duty j = .abort i := (h.taken j i).mp (by simp [hi])
  refine ⟨fun k => ?_, fun k l => ?_, fun k => ?_, h.nodupActive, fun k => ?_⟩
  · rw [h.mem]
    rcases ne_or_eq k j with hk | rfl
    · rw [update_of_ne hk]
    · rcases hnew with rfl | rfl <;> simp [hj]
  · rcases ne_or_eq l i with hl | rfl
    · rw [update_of_ne hl, h.taken]
      rcases ne_or_eq k j with hk | rfl
      · rw [update_of_ne hk]
      · rcases hnew with rfl | rfl <;> simp [hj, hl.symm]
    · rw [update_self]
      exact htaken k
  · rcases ne_or_eq k j with hk | rfl
    · rw [update_of_ne hk]
      rcases ne_or_eq k i with hki | rfl
      · refine h.frame hki (hrecord k hk) fun _ => ?_
        cases stage <;> simp [hi, SessionCall.cancelling, hk.symm]
      · have hk' := h.fits k
        rw [hduty] at hk' ⊢
        exact ⟨by simp, (hrecord k hk).trans hk'.2⟩
    · rwa [update_self]
  · rcases ne_or_eq k i with hk | rfl
    · rw [update_of_ne hk]
      exact h.nodupTaken k
    · rwa [update_self]

/-- The token of the first task is cancelled, or its handle is aborted. -/
theorem proceed {stage' : AbortStage} (hi : task i = .aborting (j :: tasks) stage)
    (hstage : stage' ≠ .taken) (hrecord : ∀ k ≠ j, record' k = record k)
    (hevents : (record' j).1 = (record j).1) :
    Dutiful active record' (update task i (.aborting (j :: tasks) stage')) duty := by
  have hduty := (h.taken j i).mp (by simp [hi])
  have hfits := h.fits j
  have hne : j ≠ i := by
    rintro rfl
    simp [hduty, hi] at hfits
  have hproceed := h.advance stage' hi hrecord (.inr hduty)
    (by simpa [hi] using (h.taken · i)) (hi ▸ h.nodupTaken i) (by
      rw [hduty] at hfits ⊢
      cases stage' <;> simp_all [SessionCall.cancelling])
  rwa [update_eq_self] at hproceed

theorem reportAborted (hi : task i = .aborting (j :: tasks) .aborted) :
    Dutiful active (update record j ((record j).1 + 1, (record j).2))
      (update task i (.aborting tasks .taken)) (update duty j .reported) := by
  have hduty := (h.taken j i).mp (by simp [hi])
  have hfits := h.fits j
  have hne : j ≠ i := by
    rintro rfl
    simp [hduty, hi] at hfits
  obtain ⟨hnot, hnodup⟩ := nodup_cons.mp (hi ▸ h.nodupTaken i)
  refine h.advance _ hi (fun k hk => update_of_ne hk ..) (.inl rfl) (fun k => ?_) hnodup ?_
  · rcases ne_or_eq k j with hk | rfl
    · simpa [hi, hk] using h.taken k i
    · simpa using hnot
  · rw [hduty] at hfits
    rcases hfits.1 with hcall | hcall <;> simp [hne, hcall, hfits.2.1]

end Dutiful

variable [DecidableEq ι]

/-- An abort takes the active turn only while none of its tasks has passed its check, and a task
passes it only while the active turn has it. An abort of a turn that is not active takes nothing. -/
def Unraced (c : SessionConfig ι) (turn : Turn ι (SessionAction ι)) : Prop :=
  match turn.action with
  | .takeActiveTurn => ∀ i ∈ c.shared.activeTasks, c.task i ≠ .finishing
  | .takeActiveTurnIfActive other =>
    other ∈ c.shared.activeTasks → ∀ i ∈ c.shared.activeTasks, c.task i ≠ .finishing
  | .checkToken => c.shared.isCancelled turn.task = true ∨ turn.task ∈ c.shared.activeTasks
  | _ => True

def SessionConfig.Sound (c : SessionConfig ι) : Prop :=
  ∃ duty, Dutiful c.shared.activeTasks c.shared.record c.task duty

variable {c d : SessionConfig ι} {turn : Turn ι (SessionAction ι)}
  {turns : List (Turn ι (SessionAction ι))}

theorem SessionConfig.Sound.step (h : c.Sound) (hstep : SessionStep Unraced c turn d) :
    d.Sound := by
  obtain ⟨hallowed, htake⟩ := hstep
  obtain ⟨state, call, hturn, rfl⟩ := take_eq_some.mp htake
  obtain ⟨i, action⟩ := turn
  obtain ⟨duty, h⟩ := h
  dsimp only at hturn hallowed
  generalize hi : c.task i = before at hturn
  unfold SessionState.takeTurn at hturn
  split at hturn
  · cases hturn
    refine ⟨duty, ?_⟩
    rw [← hi, update_eq_self]
    split_ifs
    · exact h
    · rwa [← c.shared.tasks_getOrInsertActiveTurn] at h
  · cases hturn
    rw [← c.shared.tasks_getOrInsertActiveTurn] at h
    exact ⟨duty, h.prepare hi rfl rfl⟩
  · cases hturn
    rw [← c.shared.tasks_getOrInsertActiveTurn] at h
    exact ⟨_, h.spawn hi⟩
  · rw [ite_eq_iff, or_iff_right nofun] at hturn
    cases hturn.2
    exact ⟨duty, h.check hi (hallowed.imp_right (h.mem i).mp)⟩
  · rw [ite_eq_iff, or_iff_right nofun] at hturn
    cases hturn.2
    have hremove := h.remove hi (c.shared.removeTask i).2
    rw [← c.shared.activeTasks_removeTask ((h.mem i).mpr (h.eq_active hi)),
      ← c.shared.record_removeTask i] at hremove
    exact ⟨_, hremove⟩
  · rw [ite_eq_iff, or_iff_right nofun] at hturn
    cases hturn.2
    exact ⟨_, c.shared.record_send i _ ▸ h.complete hi⟩
  · rw [ite_eq_iff, or_iff_right nofun] at hturn
    cases hturn.2
    refine ⟨duty, ?_⟩
    rw [c.shared.activeTasks_clearActiveTurn, c.shared.record_clearActiveTurn]
    exact h.clear hi
  · cases hturn
    exact ⟨_, h.takeActive hi hallowed⟩
  · split_ifs at hturn with hactive
    · cases hturn
      exact ⟨_, h.takeActive hi (hallowed hactive)⟩
    · cases hturn
      exact ⟨duty, h.prepare hi rfl rfl⟩
  · have hnot : ¬ c.shared.isCancelled _ = true := h.not_cancelled hi
    rw [if_neg hnot] at hturn
    cases hturn
    exact ⟨duty, h.proceed hi nofun (fun k hk => Prod.ext rfl (Prod.ext (update_of_ne hk ..) rfl))
      rfl⟩
  · cases hturn
    exact ⟨duty, h.proceed hi nofun (fun k hk => Prod.ext rfl (Prod.ext rfl (update_of_ne hk ..)))
      rfl⟩
  · cases hturn
    exact ⟨_, c.shared.record_send _ _ ▸ h.reportAborted hi⟩
  · cases hturn

theorem SessionConfig.sound_start : (start : SessionConfig ι).Sound :=
  ⟨fun _ => .nobody, by simp [start, SessionState.new, SessionState.activeTasks], by simp [start],
    fun _ => ⟨rfl, rfl⟩, nodup_nil, fun _ => nodup_nil⟩

/-- Nothing is left to do: a call has not begun or has come to its end, or its handle was
aborted. -/
def Quiescent (c : SessionConfig ι) : Prop :=
  ∀ i, c.task i = .idle ∨ c.task i = .ended ∨ (∃ stage, c.task i = .aborting [] stage) ∨
    c.shared.isAborted i = true

/-- When all is done, every turn that was started has had one event. -/
theorem turns_end_once (hrun : Run (SessionStep Unraced) SessionConfig.start turns c)
    (hdone : Quiescent c) (i : ι) (hi : (c.task i).isUnstarted = false) :
    c.shared.eventCount i = 1 := by
  obtain ⟨duty, h⟩ : c.Sound :=
    Run.invariant (I := fun _ => SessionConfig.Sound) (fun _ _ _ _ h hstep => h.step hstep) hrun
      SessionConfig.sound_start
  have hfits := h.fits i
  have hdone' := hdone i
  cases hduty : duty i with
  | nobody =>
    rw [hduty] at hfits
    cases hi.symm.trans hfits.1
  | active =>
    rw [hduty] at hfits
    have haborted : c.shared.isAborted i = false := (Prod.mk.inj (Prod.mk.inj hfits.2).2).2
    rcases hfits.1 with hcall | hcall <;> simp [hcall, haborted] at hdone'
  | abort k =>
    -- an abort with tasks left is neither at its end nor aborted itself
    have hmem := (h.taken i k).mpr hduty
    have hk := h.fits k
    have hdone := hdone k
    cases hcall : c.task k with
    | aborting tasks stage =>
      rw [h.eq_nobody (by simp [hcall])] at hk
      have haborted : c.shared.isAborted k = false := (Prod.mk.inj (Prod.mk.inj hk.2).2).2
      simp [hcall, haborted] at hdone hmem
      simp [hdone] at hmem
    | _ => simp [hcall] at hmem
  | own =>
    rw [hduty] at hfits
    obtain ⟨⟨turnState, hcall⟩, -, haborted⟩ := hfits
    have haborted : c.shared.isAborted i = false := haborted
    simp [hcall, haborted] at hdone'
  | reported =>
    rw [hduty] at hfits
    exact hfits.2

instance (c : SessionConfig ι) (turn : Turn ι (SessionAction ι)) : Decidable (Unraced c turn) := by
  unfold Unraced
  split <;> infer_instance

attribute [local instance] neZeroThree

/-- A turn completes; the next one is aborted. -/
def completedThenAborted : List (Turn (Fin 3) (SessionAction (Fin 3))) :=
  [⟨0, .prepareTurn⟩, ⟨0, .addTask⟩, ⟨0, .checkToken⟩, ⟨0, .removeTask⟩, ⟨0, .sendTurnComplete⟩,
    ⟨0, .clearActiveTurn⟩, ⟨1, .prepareTurn⟩, ⟨1, .addTask⟩, ⟨2, .takeActiveTurn⟩,
    ⟨2, .cancelToken⟩, ⟨1, .checkToken⟩, ⟨2, .abortHandle⟩, ⟨2, .sendTurnAborted⟩]

theorem turns_end_once_completedThenAborted : ∃ c : SessionConfig (Fin 3),
    Run (SessionStep Unraced) SessionConfig.start completedThenAborted c ∧ Quiescent c ∧
      c.shared.events = [(0, .turnComplete), (1, .turnAborted)] ∧
        c.shared.eventCount 0 = 1 ∧ c.shared.eventCount 1 = 1 := by
  have heval : ((SessionConfig.start : SessionConfig (Fin 3)).takeAll SessionState.takeTurn
      Unraced completedThenAborted).map (fun c =>
        (c.shared.events, c.task 0, c.task 1, c.task 2)) =
      some ([(0, .turnComplete), (1, .turnAborted)], .ended, .ended, .aborting [] .taken) := by
    decide +kernel
  obtain ⟨c, hc, hstate⟩ := Option.map_eq_some_iff.mp heval
  simp only [Prod.mk.injEq] at hstate
  obtain ⟨hevents, h0, h1, h2⟩ := hstate
  have hdone : Quiescent c := by
    intro i
    match i with
    | 0 => exact .inr (.inl h0)
    | 1 => exact .inr (.inl h1)
    | 2 => exact .inr (.inr (.inl ⟨_, h2⟩))
  have hrun := run_of_takeAll hc
  exact ⟨c, hrun, hdone, hevents, turns_end_once hrun hdone 0 (by rw [h0]; rfl),
    turns_end_once hrun hdone 1 (by rw [h1]; rfl)⟩

/-- The abort comes between the look at the token and the removal of the task. -/
def abortedWhileFinishing : List (Turn (Fin 2) (SessionAction (Fin 2))) :=
  [⟨0, .prepareTurn⟩, ⟨0, .addTask⟩, ⟨0, .checkToken⟩, ⟨1, .takeActiveTurn⟩, ⟨1, .cancelToken⟩,
    ⟨0, .removeTask⟩, ⟨0, .sendTurnComplete⟩, ⟨0, .clearActiveTurn⟩, ⟨1, .abortHandle⟩,
    ⟨1, .sendTurnAborted⟩]

theorem turn_ends_twice : ∃ c : SessionConfig (Fin 2),
    Run (SessionStep AnyTurn) SessionConfig.start abortedWhileFinishing c ∧ Quiescent c ∧
      (c.task 0).isUnstarted = false ∧
        c.shared.events = [(0, .turnComplete), (0, .turnAborted)] := by
  refine ⟨_, run_of_takeAll rfl, fun i => ?_, rfl, rfl⟩
  match i with
  | 0 => exact .inr (.inl rfl)
  | 1 => exact .inr (.inr (.inl ⟨_, rfl⟩))

end CodexRs.Core
