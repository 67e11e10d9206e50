import CodexRs.Library.Run
import Mathlib.Data.Set.Card

/-!
# Tasks that share a state

In its turn a task does what stands between two points where others may come in.
-/
namespace CodexRs.Tasks
open Machine Function

variable {ι α σ τ : Type*}

structure Turn (ι α : Type*) where
  task : ι
  action : α

structure Config (ι σ τ : Type*) where
  shared : σ
  task : ι → τ

/-- No condition at all. -/
def AnyTurn (_ : Config ι σ τ) (_ : Turn ι α) : Prop := True

instance (c : Config ι σ τ) (turn : Turn ι α) : Decidable (AnyTurn c turn) := isTrue trivial

-- Instances by name, so that the numerals of an example carry no proof of their own.
theorem neZeroTwo : NeZero 2 := ⟨by decide⟩

theorem neZeroThree : NeZero 3 := ⟨by decide⟩

/-- How many tasks are in a state of the given kind. -/
noncomputable def count (P : τ → Prop) (task : ι → τ) : ℕ := {i | P (task i)}.ncard

/-- Only finitely many tasks have begun. -/
def FinitelyMany (P : τ → Prop) (task : ι → τ) : Prop := {i | P (task i)}.Finite

variable {P : τ → Prop} {task : ι → τ} {i : ι} {t : τ}

theorem count_eq_zero (h : ∀ i, ¬ P (task i)) : count P task = 0 := by
  have hempty : {i | P (task i)} = ∅ := by
    ext i
    simp [h i]
  rw [count, hempty, Set.ncard_empty]

theorem finitelyMany_of_none (h : ∀ i, ¬ P (task i)) : FinitelyMany P task := by
  have hempty : {i | P (task i)} = ∅ := by
    ext i
    simp [h i]
  rw [FinitelyMany, hempty]
  exact Set.finite_empty

theorem count_pos (hfin : FinitelyMany P task) (h : P (task i)) : 0 < count P task :=
  (Set.ncard_pos hfin).mpr ⟨i, h⟩

variable [DecidableEq ι]

/-- The turn of a task, if the action is one that the task can take. -/
def Config.take (sec : ι → α → σ → τ → Option (σ × τ)) (c : Config ι σ τ) (turn : Turn ι α) :
    Option (Config ι σ τ) :=
  (sec turn.task turn.action c.shared (c.task turn.task)).map fun r =>
    ⟨r.1, Function.update c.task turn.task r.2⟩

/-- Turns one after another, if all can be taken and are allowed. -/
def Config.takeAll (sec : ι → α → σ → τ → Option (σ × τ))
    (allowed : Config ι σ τ → Turn ι α → Prop) [∀ c turn, Decidable (allowed c turn)] :
    Config ι σ τ → List (Turn ι α) → Option (Config ι σ τ)
  | c, [] => some c
  | c, turn :: turns =>
    if allowed c turn then (c.take sec turn).bind (takeAll sec allowed · turns) else none

/-- A turn that is allowed where it is taken. -/
def Step (sec : ι → α → σ → τ → Option (σ × τ)) (allowed : Config ι σ τ → Turn ι α → Prop)
    (c : Config ι σ τ) (turn : Turn ι α) (d : Config ι σ τ) : Prop :=
  allowed c turn ∧ c.take sec turn = some d

variable {sec : ι → α → σ → τ → Option (σ × τ)} {allowed : Config ι σ τ → Turn ι α → Prop}
  {c d : Config ι σ τ} {turn : Turn ι α} {turns : List (Turn ι α)}

theorem take_eq_some : c.take sec turn = some d ↔
    ∃ s t, sec turn.task turn.action c.shared (c.task turn.task) = some (s, t) ∧
      d = ⟨s, update c.task turn.task t⟩ := by
  simp only [Config.take, Option.map_eq_some_iff, Prod.exists]
  constructor
  · rintro ⟨s, t, h, rfl⟩
    exact ⟨s, t, h, rfl⟩
  · rintro ⟨s, t, h, rfl⟩
    exact ⟨s, t, h, rfl⟩

theorem run_of_takeAll [∀ c turn, Decidable (allowed c turn)]
    (h : c.takeAll sec allowed turns = some d) : Run (Step sec allowed) c turns d := by
  induction turns generalizing c with
  | nil =>
    obtain rfl : c = d := Option.some.inj h
    exact .nil c
  | cons turn turns ih =>
    rw [Config.takeAll] at h
    split_ifs at h with hallowed
    obtain ⟨e, htake, hrest⟩ := Option.bind_eq_some_iff.mp h
    exact .cons ⟨hallowed, htake⟩ (ih hrest)

theorem update_spec (task : ι → τ) (i : ι) (t : τ) : update task i t i = t ∧
    ∀ j, task j = if j = i then task i else update task i t j := by
  grind

theorem setOf_update (h : ¬ P (task i)) (ht : P t) :
    {j | P (update task i t j)} = insert i {j | P (task j)} := by
  ext j
  by_cases hj : j = i
  · subst hj
    simp [ht]
  · simp [hj]

theorem setOf_update_of_not (ht : ¬ P t) :
    {j | P (update task i t j)} = {j | P (task j)} \ {i} := by
  ext j
  by_cases hj : j = i
  · subst hj
    simp [ht]
  · simp [hj]

theorem setOf_update_of_both (h : P (task i)) (ht : P t) :
    {j | P (update task i t j)} = {j | P (task j)} := by
  ext j
  by_cases hj : j = i
  · subst hj
    simp [h, ht]
  · simp [update_of_ne hj]

theorem finitelyMany_update (hfin : FinitelyMany P task) (i : ι) (t : τ) :
    FinitelyMany P (update task i t) := by
  apply (Set.Finite.insert i hfin).subset
  intro j hj
  by_cases h : j = i
  · exact .inl h
  · rw [Set.mem_ofPred_eq, update_of_ne h] at hj
    exact .inr hj

/-- The turn of a task changes the count by what it changes for that task. -/
theorem count_update [DecidablePred P] (hfin : FinitelyMany P task) (i : ι) (t : τ) :
    count P (update task i t) + (if P (task i) then 1 else 0) =
      count P task + (if P t then 1 else 0) := by
  unfold count
  by_cases h : P (task i)
  · by_cases ht : P t
    · rw [setOf_update_of_both h ht, if_pos h, if_pos ht]
    · rw [setOf_update_of_not ht, if_pos h, if_neg ht,
        Set.ncard_sdiff_singleton_add_one (show i ∈ {j | P (task j)} from h) hfin]
      rfl
  · by_cases ht : P t
    · rw [setOf_update h ht, if_neg h, if_pos ht,
        Set.ncard_insert_of_notMem (show i ∉ {j | P (task j)} from h) hfin]
    · rw [setOf_update_of_not ht, if_neg h, if_neg ht,
        Set.sdiff_singleton_eq_self (show i ∉ {j | P (task j)} from h)]

/-- An invariant of the shared state and one of each task with it, which every turn keeps. -/
structure Kept (sec : ι → α → σ → τ → Option (σ × τ)) (allowed : Config ι σ τ → Turn ι α → Prop)
    (I : σ → Prop) (J : ι → σ → τ → Prop) : Prop where
  own : ∀ {c : Config ι σ τ} {i : ι} {a : α} {s : σ} {t : τ}, I c.shared →
    (∀ j, J j c.shared (c.task j)) → allowed c ⟨i, a⟩ →
    sec i a c.shared (c.task i) = some (s, t) → I s ∧ J i s t
  others : ∀ {c : Config ι σ τ} {i j : ι} {a : α} {s : σ} {t : τ}, j ≠ i → I c.shared →
    (∀ j, J j c.shared (c.task j)) → allowed c ⟨i, a⟩ →
    sec i a c.shared (c.task i) = some (s, t) → J j s (c.task j)

namespace Kept
variable {I : σ → Prop} {J : ι → σ → τ → Prop}

theorem step (h : Kept sec allowed I J) (hstep : Step sec allowed c turn d)
    (hc : I c.shared ∧ ∀ i, J i c.shared (c.task i)) :
    I d.shared ∧ ∀ i, J i d.shared (d.task i) := by
  obtain ⟨hallowed, htake⟩ := hstep
  obtain ⟨s, t, hsec, rfl⟩ := take_eq_some.mp htake
  have hown := h.own hc.1 hc.2 hallowed hsec
  refine ⟨hown.1, fun j => ?_⟩
  by_cases hj : j = turn.task
  · subst hj
    simpa using hown.2
  · simpa [update_of_ne hj] using h.others hj hc.1 hc.2 hallowed hsec

theorem run (h : Kept sec allowed I J) (hrun : Run (Step sec allowed) c turns d)
    (hc : I c.shared ∧ ∀ i, J i c.shared (c.task i)) :
    I d.shared ∧ ∀ i, J i d.shared (d.task i) :=
  Run.invariant (I := fun _ c => I c.shared ∧ ∀ i, J i c.shared (c.task i))
    (fun _ _ _ _ hs hstep => h.step hstep hs) hrun hc

omit [DecidableEq ι] in
/-- A part of the invariant is stable under what a task relies on, and the turns of the others
guarantee that. -/
theorem ofRely {R : ι → σ → σ → Prop}
    (hown : ∀ {c : Config ι σ τ} {i : ι} {a : α} {s : σ} {t : τ}, I c.shared →
      (∀ j, J j c.shared (c.task j)) → allowed c ⟨i, a⟩ →
      sec i a c.shared (c.task i) = some (s, t) → I s ∧ J i s t)
    (hrely : ∀ {c : Config ι σ τ} {i j : ι} {a : α} {s : σ} {t : τ}, j ≠ i → I c.shared →
      J i c.shared (c.task i) → sec i a c.shared (c.task i) = some (s, t) → R j c.shared s)
    (hstable : ∀ {j : ι} {s s' : σ} {t : τ}, R j s s' → J j s t → J j s' t) :
    Kept sec allowed I J where
  own := hown
  others {_ i j _ _ _} hj hI hJ _ hsec := hstable (hrely hj hI (hJ i) hsec) (hJ j)

end Kept

end CodexRs.Tasks
