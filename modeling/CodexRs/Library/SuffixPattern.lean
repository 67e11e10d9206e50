import Mathlib.Data.List.Infix

/-!
# Literal patterns and patterns for what is below a domain

Whether one pattern is contained in a union of others can be read off the patterns.
-/
namespace CodexRs.SuffixPattern
open List

inductive Pattern (α : Type*) where
  | literal (text : List α)
  | below (domain : List α)

namespace Pattern
variable {α : Type*} (sep : α)

def Matches : Pattern α → List α → Prop
  | .literal text, x => x = text
  | .below domain, x => ∃ label ≠ [], x = label ++ sep :: domain

/-- The first pattern contains the second. -/
def Covers : Pattern α → Pattern α → Prop
  | p, .literal text => p.Matches sep text
  | .literal _, .below _ => False
  | .below domain, .below lower => sep :: domain <:+ sep :: lower

variable {sep} {p q : Pattern α} {x : List α}

theorem matches_below_iff {domain : List α} :
    (below domain).Matches sep x ↔ sep :: domain <:+ x ∧ sep :: domain ≠ x := by
  constructor
  · rintro ⟨label, hlabel, rfl⟩
    refine ⟨suffix_append _ _, fun h => hlabel ?_⟩
    simpa using h
  · rintro ⟨⟨label, rfl⟩, hne⟩
    refine ⟨label, ?_, rfl⟩
    rintro rfl
    exact hne rfl

theorem Covers.matches (h : p.Covers sep q) (hx : q.Matches sep x) : p.Matches sep x := by
  cases q with
  | literal text =>
    subst hx
    exact h
  | below lower =>
    cases p with
    | literal text => exact absurd h id
    | below domain =>
      obtain ⟨label, hlabel, rfl⟩ := hx
      obtain ⟨between, hbetween⟩ := h
      refine ⟨label ++ between, ?_, ?_⟩
      · simp [hlabel]
      · rw [← hbetween, append_assoc]

end Pattern

end CodexRs.SuffixPattern
