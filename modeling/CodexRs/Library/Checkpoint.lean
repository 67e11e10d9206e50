import Mathlib.Data.List.Infix

/-!
# Folds over lists with checkpoints

A checkpoint is an item that sets the state of a fold, whatever the state was before.
-/
namespace CodexRs.Checkpoint
open List Option

variable {α σ : Type*} (checkpoint : α → Option σ)

/-- The state of the newest checkpoint, with the items behind it. -/
def newest : List α → Option (σ × List α)
  | [] => none
  | a :: as => (newest as).or ((checkpoint a).map (·, as))

variable {checkpoint}

theorem newest_cons_of_none {a : α} (h : checkpoint a = none) (as : List α) :
    newest checkpoint (a :: as) = newest checkpoint as := by
  simp [newest, h]

theorem newest_append (as bs : List α) : newest checkpoint (as ++ bs) =
      (newest checkpoint bs).or ((newest checkpoint as).map fun p => (p.1, p.2 ++ bs)) := by
  induction as with
  | nil => simp [newest]
  | cons a as ih =>
    rw [List.cons_append, newest, ih, newest, Option.or_assoc]
    cases newest checkpoint as <;> cases checkpoint a <;> rfl

theorem newest_append_of_eq_some {as bs : List α} {p : σ × List α}
    (h : newest checkpoint bs = some p) : newest checkpoint (as ++ bs) = some p := by
  rw [newest_append, h, some_or]

theorem newest_eq_none {as : List α} :
    newest checkpoint as = none ↔ ∀ a ∈ as, checkpoint a = none := by
  induction as with
  | nil => simp [newest]
  | cons a as ih => simp [newest, ih, and_comm]

variable {s : σ}

theorem newest_eq_some {as t : List α} (h : newest checkpoint as = some (s, t)) :
    ∃ pre a, as = pre ++ a :: t ∧ checkpoint a = some s := by
  induction as with
  | nil => simp [newest] at h
  | cons a as ih =>
    rcases or_eq_some_iff.mp h with hrest | ⟨-, hhere⟩
    · obtain ⟨pre, c, rfl, hc⟩ := ih hrest
      exact ⟨a :: pre, c, rfl, hc⟩
    · obtain ⟨s', hs', heq⟩ := map_eq_some_iff.mp hhere
      cases heq
      exact ⟨[], a, rfl, hs'⟩

theorem suffix_of_newest {as t : List α} (h : newest checkpoint as = some (s, t)) : t <:+ as := by
  obtain ⟨pre, a, rfl, -⟩ := newest_eq_some h
  exact (suffix_cons a t).trans (suffix_append pre (a :: t))

variable {step : σ → α → σ} (hstep : ∀ s a s', checkpoint a = some s' → step s a = s')
include hstep

theorem foldl_through {pre t : List α} {a : α} (h : checkpoint a = some s) (s₀ : σ) :
    (pre ++ a :: t).foldl step s₀ = t.foldl step s := by
  rw [foldl_append, foldl_cons, hstep _ a s h]

/-- Resuming from the newest checkpoint is as good as starting from the beginning. -/
theorem foldl_resume {as bs t : List α} (h : newest checkpoint as = some (s, t))
    (ht : t <:+ bs) (hbs : bs <:+ as) (s₀ : σ) : bs.foldl step s = as.foldl step s₀ := by
  obtain ⟨pre, a, rfl, ha⟩ := newest_eq_some h
  rw [foldl_through hstep ha]
  rcases Nat.lt_or_ge t.length bs.length with hlt | hge
  · -- The suffix is longer, so it has the checkpoint in it.
    have hat : a :: t <:+ bs := suffix_of_suffix_length_le (suffix_append pre (a :: t)) hbs hlt
    obtain ⟨mid, rfl⟩ := hat
    exact foldl_through hstep ha s
  · rw [ht.eq_of_length_le hge]

end CodexRs.Checkpoint
