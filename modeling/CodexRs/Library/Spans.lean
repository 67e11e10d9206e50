import Mathlib.Data.List.Basic
import Mathlib.Data.List.Count
import Mathlib.Order.MinMax

/-!
# Spans of positions

A span is a half-open interval of positions. `grow` widens it until it holds every listed span it
meets.
-/
namespace CodexRs
open List

@[ext] structure Span where
  start : ℕ
  stop : ℕ
deriving DecidableEq, Repr

namespace Span

def Meets (e r : Span) : Prop := e.start < r.stop ∧ r.start < e.stop

def Within (e r : Span) : Prop := r.start ≤ e.start ∧ e.stop ≤ r.stop

/-- A position that cuts the span in two. -/
def Cuts (p : ℕ) (e : Span) : Prop := e.start < p ∧ p < e.stop

def Before (d e : Span) : Prop := d.stop ≤ e.start

/-- No position lies in both. -/
def Disjoint (d e : Span) : Prop := ∀ p, ¬ ((d.start ≤ p ∧ p < d.stop) ∧ e.start ≤ p ∧ p < e.stop)

instance (e r : Span) : Decidable (e.Meets r) := inferInstanceAs (Decidable (_ ∧ _))
instance (e r : Span) : Decidable (e.Within r) := inferInstanceAs (Decidable (_ ∧ _))
instance (p : ℕ) (e : Span) : Decidable (Cuts p e) := inferInstanceAs (Decidable (_ ∧ _))
instance (d e : Span) : Decidable (d.Before e) := inferInstanceAs (Decidable (_ ≤ _))

theorem Within.refl (r : Span) : r.Within r := ⟨le_rfl, le_rfl⟩

theorem Within.trans {a b c : Span} (hab : a.Within b) (hbc : b.Within c) : a.Within c :=
  ⟨hbc.1.trans hab.1, hab.2.trans hbc.2⟩

theorem Within.antisymm {a b : Span} (hab : a.Within b) (hba : b.Within a) : a = b :=
  Span.ext (le_antisymm hba.1 hab.1) (le_antisymm hab.2 hba.2)

/-- Of two nonempty spans with no position in common one lies before the other. -/
theorem Disjoint.before_or_before {d e : Span} (h : d.Disjoint e) (hd : d.start < d.stop)
    (he : e.start < e.stop) : d.Before e ∨ e.Before d := by
  have hmax := h (max d.start e.start)
  unfold Before
  omega

instance (d e : Span) : Decidable (d.Disjoint e) :=
  decidable_of_iff (d.stop ≤ d.start ∨ e.stop ≤ e.start ∨ d.Before e ∨ e.Before d)
    ⟨fun h p hp => by
      unfold Before at h
      omega, fun h => by
      by_cases hd : d.start < d.stop
      · by_cases he : e.start < e.stop
        · exact .inr (.inr (h.before_or_before hd he))
        · exact .inr (.inl (Nat.le_of_not_lt he))
      · exact .inl (Nat.le_of_not_lt hd)⟩

/-! ## Growing over what is met -/

def absorb (r e : Span) : Span :=
  if e.Meets r then ⟨min r.start e.start, max r.stop e.stop⟩ else r

def absorbAll (r : Span) (es : List Span) : Span := es.foldl absorb r

theorem within_absorb (r e : Span) : r.Within (absorb r e) := by
  unfold absorb
  split
  · exact ⟨min_le_left _ _, le_max_left _ _⟩
  · exact .refl r

theorem within_absorb_of_meets {r e : Span} (h : e.Meets r) : e.Within (absorb r e) := by
  rw [absorb, if_pos h]
  exact ⟨min_le_right _ _, le_max_right _ _⟩

theorem within_absorbAll (r : Span) (es : List Span) : r.Within (absorbAll r es) := by
  induction es generalizing r with
  | nil => exact .refl r
  | cons e es ih => exact (within_absorb r e).trans (ih _)

variable {es : List Span} {r : Span}

/-- A pass that changes nothing has met only spans it already held. -/
theorem within_of_absorbAll_eq (h : absorbAll r es = r) : ∀ e ∈ es, e.Meets r → e.Within r := by
  induction es with
  | nil => simp
  | cons d es ih =>
    -- the pass only widens, so its first step has changed nothing either
    have hrest : (absorb r d).Within r := by
      have := within_absorbAll (absorb r d) es
      rwa [show absorbAll (absorb r d) es = r from h] at this
    have hd : absorb r d = r := hrest.antisymm (within_absorb r d)
    have hes : absorbAll r es = r := by
      have : absorbAll (absorb r d) es = r := h
      rwa [hd] at this
    intro e he hmeets
    rcases mem_cons.mp he with rfl | he
    · have := within_absorb_of_meets hmeets
      rwa [hd] at this
    · exact ih hes e he hmeets

/-- A pass that changes the span takes in a span it did not hold before. -/
theorem exists_absorbed (h : absorbAll r es ≠ r) :
    ∃ e ∈ es, ¬ e.Within r ∧ e.Within (absorbAll r es) := by
  induction es generalizing r with
  | nil => exact absurd rfl h
  | cons d es ih =>
    by_cases hd : absorb r d = r
    · have hes : absorbAll r es ≠ r := by
        intro heq
        apply h
        change absorbAll (absorb r d) es = r
        rw [hd, heq]
      obtain ⟨e, he, hnot, hin⟩ := ih hes
      refine ⟨e, mem_cons_of_mem d he, hnot, ?_⟩
      change e.Within (absorbAll (absorb r d) es)
      rwa [hd]
    · have hmeets : d.Meets r := by
        by_contra hno
        exact hd (if_neg hno)
      refine ⟨d, mem_cons_self, ?_, ?_⟩
      · intro hin
        apply hd
        rw [absorb, if_pos hmeets]
        exact Span.ext (min_eq_left hin.1) (max_eq_left hin.2)
      · exact (within_absorb_of_meets hmeets).trans (within_absorbAll _ es)

theorem countP_absorbAll_lt (h : absorbAll r es ≠ r) :
    es.countP (fun e => !decide (e.Within (absorbAll r es))) <
      es.countP (fun e => !decide (e.Within r)) := by
  obtain ⟨e, he, hnot, hin⟩ := exists_absorbed h
  have hle : ∀ l : List Span, l.countP (fun e => !decide (e.Within (absorbAll r es))) ≤
      l.countP (fun e => !decide (e.Within r)) := fun l =>
    countP_mono_left fun d _ hd => by
      simp only [Bool.not_eq_true', decide_eq_false_iff_not] at hd ⊢
      exact fun hdr => hd (hdr.trans (within_absorbAll r es))
  obtain ⟨before, after, hes⟩ := append_of_mem he
  have hb := hle before
  have ha := hle after
  subst hes
  simp only [countP_append, countP_cons, hnot, hin, decide_false, decide_true,
    Bool.not_false, Bool.not_true, if_true, Bool.false_eq_true, if_false]
  omega

/-- Passes over the listed spans until one changes nothing. -/
def grow (es : List Span) (r : Span) : Span :=
  if h : absorbAll r es = r then r
  else
    have := countP_absorbAll_lt h
    grow es (absorbAll r es)
termination_by es.countP fun e => !decide (e.Within r)

theorem within_grow (es : List Span) (r : Span) : r.Within (grow es r) := by
  fun_induction grow es r with
  | case1 r h => exact .refl r
  | case2 r h _ ih => exact (within_absorbAll r es).trans ih

theorem within_grow_of_meets : ∀ e ∈ es, e.Meets (grow es r) → e.Within (grow es r) := by
  fun_induction grow es r with
  | case1 r h => exact within_of_absorbAll_eq h
  | case2 r h _ ih => exact ih

/-- The ends of the grown span are ends of the span or of listed ones. -/
theorem grow_ends {P : ℕ → Prop}
    (hes : ∀ e ∈ es, P e.start ∧ P e.stop) (hr : P r.start ∧ P r.stop) :
    P (grow es r).start ∧ P (grow es r).stop := by
  have habsorb : ∀ (r e : Span), P r.start ∧ P r.stop → P e.start ∧ P e.stop →
      P (absorb r e).start ∧ P (absorb r e).stop := by
    intro r e hr he
    unfold absorb
    split
    · exact ⟨min_rec' P hr.1 he.1, max_rec' P hr.2 he.2⟩
    · exact hr
  have hpass : ∀ (l : List Span) (r : Span), (∀ e ∈ l, P e.start ∧ P e.stop) →
      P r.start ∧ P r.stop → P (absorbAll r l).start ∧ P (absorbAll r l).stop := by
    intro l
    induction l with
    | nil => exact fun r _ hr => hr
    | cons e l ih =>
      intro r hl hr
      exact ih _ (fun d hd => hl d (mem_cons_of_mem e hd))
        (habsorb r e hr (hl e mem_cons_self))
  fun_induction grow es r with
  | case1 r h => exact hr
  | case2 r h _ ih => exact ih (hpass es r hes hr)

/-! ## Replacing the items of a span -/

/-- Where a span lies once the items of `r` are replaced by `n` others. -/
def shift (r : Span) (n : ℕ) (e : Span) : Span :=
  if e.stop ≤ r.start then e
  else ⟨e.start - r.stop + (r.start + n), e.stop - r.stop + (r.start + n)⟩

theorem shift_start (r e : Span) (n : ℕ) : (shift r n e).start =
    if e.stop ≤ r.start then e.start else e.start - r.stop + (r.start + n) := by
  unfold shift
  split <;> rfl

theorem shift_stop (r e : Span) (n : ℕ) : (shift r n e).stop =
    if e.stop ≤ r.start then e.stop else e.stop - r.stop + (r.start + n) := by
  unfold shift
  split <;> rfl

def Clear (r e : Span) : Prop := e.stop ≤ r.start ∨ r.stop ≤ e.start

theorem before_shift {r d e : Span} {n : ℕ} (he : e.start < e.stop) (h : d.Before e) :
    (shift r n d).Before (shift r n e) := by
  unfold Before at *
  rw [shift_start, shift_stop]
  split_ifs <;> omega

theorem shift_nonempty {r e : Span} {n : ℕ} (he : e.start < e.stop) (her : Clear r e) :
    (shift r n e).start < (shift r n e).stop := by
  unfold Clear at her
  rw [shift_start, shift_stop]
  split_ifs <;> omega

end Span
end CodexRs
