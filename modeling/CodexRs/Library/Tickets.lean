import Mathlib.Data.Fintype.Basic
import Mathlib.Order.Nat

/-!
# Reports that are delivered after the change

Each report carries the number of its change, and is delivered outside the lock.
-/
namespace CodexRs.Tickets
open Function

variable {ι β : Type*}

/-- Whoever has a report to deliver, with the number of its change. -/
abbrev Pending (ι β : Type*) := ι → Option (ℕ × β)

/-- No report with a smaller number is under way. -/
def IsFirst (pending : Pending ι β) (number : ℕ) : Prop :=
  ∀ j number' value, pending j = some (number', value) → number ≤ number'

instance [Fintype ι] (pending : Pending ι β) (number : ℕ) : Decidable (IsFirst pending number) :=
  decidable_of_iff (∀ j, (pending j).all fun report => number ≤ report.1) <| by
    simp only [IsFirst, Option.all_eq_true, decide_eq_true_eq, Prod.forall]

/-- The report of the last change is under way, or the last one delivered tells of it. -/
def Current (agrees : β → Prop) (pending : Pending ι β) (delivered : Option β) : Prop :=
  (∃ i number value, pending i = some (number, value) ∧ agrees value ∧
    ∀ j number' value', pending j = some (number', value') → number' ≤ number) ∨
  ((∀ i, pending i = none) ∧ ∀ value ∈ delivered, agrees value)

structure Reports (agrees : β → Prop) (last : ℕ) (pending : Pending ι β)
    (delivered : Option β) : Prop where
  below : ∀ i number value, pending i = some (number, value) → number ≤ last
  distinct : ∀ i j number value value', pending i = some (number, value) →
    pending j = some (number, value') → i = j
  current : Current agrees pending delivered

namespace Reports
variable {agrees agrees' : β → Prop} {last : ℕ} {pending : Pending ι β} {delivered : Option β}
  {i : ι} {number : ℕ} {value : β}

theorem none (hdelivered : ∀ value ∈ delivered, agrees value) :
    Reports agrees last (fun _ : ι => Option.none) delivered :=
  ⟨nofun, nofun, .inr ⟨fun _ => rfl, hdelivered⟩⟩

/-- A change that needs no report. -/
theorem mono (h : Reports agrees last pending delivered)
    (hagrees : ∀ value, agrees value → agrees' value) :
    Reports agrees' (last + 1) pending delivered := by
  refine ⟨fun i number value hi => (h.below i number value hi).trans (Nat.le_succ _), h.distinct,
    h.current.imp ?_ ?_⟩
  · exact fun ⟨i, number, value, hi, hvalue, hmax⟩ => ⟨i, number, value, hi, hagrees _ hvalue, hmax⟩
  · exact fun ⟨hnone, hdelivered⟩ => ⟨hnone, fun value hvalue => hagrees _ (hdelivered _ hvalue)⟩

theorem quiet (h : Reports agrees last pending delivered) (hnone : ∀ i, pending i = .none)
    (hvalue : value ∈ delivered) : agrees value := by
  rcases h.current with ⟨i, number, other, hi, -⟩ | ⟨-, hdelivered⟩
  · rw [hnone i] at hi
    cases hi
  · exact hdelivered value hvalue

attribute [local grind =] Function.update_apply

variable [DecidableEq ι]

/-- A change with a report of its own. -/
theorem publish (h : Reports agrees last pending delivered) (hvalue : agrees' value) :
    Reports agrees' (last + 1) (update pending i (some (last + 1, value))) delivered := by
  obtain ⟨hbelow, hdistinct, -⟩ := h
  refine ⟨?_, ?_, .inl ⟨i, last + 1, value, update_self .., hvalue, ?_⟩⟩ <;>
    simp only [update_apply] <;> grind

/-- A report delivered in its turn. -/
theorem deliver (h : Reports agrees last pending delivered)
    (hi : pending i = some (number, value)) (hfirst : IsFirst pending number) :
    Reports agrees last (update pending i .none) (some value) := by
  obtain ⟨hbelow, hdistinct, hcurrent⟩ := h
  refine ⟨by grind, by grind, ?_⟩
  rcases hcurrent with ⟨j, number', value', hj, hvalue, hmax⟩ | ⟨hnone, -⟩
  · by_cases hji : j = i
    · -- it was the only one left: all others have at least and at most its number
      refine .inr ⟨fun k => ?_, by grind⟩
      cases hk : update pending i .none k with
      | none => rfl
      | some report =>
        have hfirst' := hfirst k report.1 report.2
        grind
    · exact .inl ⟨j, number', value', by grind, hvalue, by grind⟩
  · grind

end Reports

end CodexRs.Tickets
