import Mathlib.Data.List.Basic

/-!
# Lists

Items are appended one after the other, each unless the list has it already; and a list is split
at the last member of some kind.
-/
namespace CodexRs.Lists
variable {α : Type*}

/-- A list with a member of some kind splits at the last one. -/
theorem exists_last {P : α → Prop} {xs : List α} (h : ∃ x ∈ xs, P x) :
    ∃ before x after, xs = before ++ x :: after ∧ P x ∧ ∀ y ∈ after, ¬ P y := by
  induction xs with
  | nil =>
    obtain ⟨x, hx, -⟩ := h
    cases hx
  | cons x xs ih =>
    by_cases hrest : ∃ y ∈ xs, P y
    · obtain ⟨before, y, after, rfl, hy, hafter⟩ := ih hrest
      exact ⟨x :: before, y, after, rfl, hy, hafter⟩
    · obtain ⟨y, hy, hPy⟩ := h
      rcases List.mem_cons.mp hy with rfl | hy
      · exact ⟨[], y, xs, rfl, hPy, fun z hz hPz => hrest ⟨z, hz, hPz⟩⟩
      · exact absurd ⟨y, hy, hPy⟩ hrest

variable [DecidableEq α] {x : α}

def push (xs : List α) (x : α) : List α := if x ∈ xs then xs else xs ++ [x]

def pushAll (xs ys : List α) : List α := ys.foldl push xs

theorem mem_push (xs : List α) (y : α) : x ∈ push xs y ↔ x ∈ xs ∨ x = y := by
  unfold push
  split_ifs with h
  · constructor
    · exact .inl
    · rintro (hx | rfl)
      · exact hx
      · exact h
  · rw [List.mem_append, List.mem_singleton]

theorem mem_pushAll (xs ys : List α) : x ∈ pushAll xs ys ↔ x ∈ xs ∨ x ∈ ys := by
  unfold pushAll
  induction ys generalizing xs with
  | nil => simp
  | cons y ys ih => rw [List.foldl_cons, ih, mem_push, List.mem_cons, or_assoc]

end CodexRs.Lists
