import Mathlib.Data.List.MinMax
import Mathlib.Data.Prod.Lex

/-!
# The most specific rule

Of the rules on the way to a target, those at the deepest place govern it; among these the
greatest mode counts.
-/
namespace CodexRs.Specificity
open List

variable {α ρ μ : Type*} {place : ρ → List α} {mode : ρ → μ} {rules rules' : List ρ}
  {target : List α} {r r' : ρ}

def rank (place : ρ → List α) (mode : ρ → μ) (r : ρ) : ℕ ×ₗ μ := toLex ((place r).length, mode r)

/-- Rules of one rank on the way to a target agree. -/
theorem eq_of_rank_eq (h : rank place mode r = rank place mode r') (hr : place r <+: target)
    (hr' : place r' <+: target) : place r = place r' ∧ mode r = mode r' := by
  have hpair : ((place r).length, mode r) = ((place r').length, mode r') := toLex.injective h
  rw [Prod.mk.injEq] at hpair
  exact ⟨(prefix_of_prefix_length_le hr hr' hpair.1.le).eq_of_length hpair.1, hpair.2⟩

variable [LinearOrder μ]

theorem rank_le_iff : rank place mode r ≤ rank place mode r' ↔
    (place r).length < (place r').length ∨
      (place r).length = (place r').length ∧ mode r ≤ mode r' :=
  Prod.Lex.toLex_le_toLex

structure Governs (place : ρ → List α) (mode : ρ → μ) (rules : List ρ) (target : List α) (r : ρ) :
    Prop where
  mem : r ∈ rules
  on_way : place r <+: target
  top : ∀ r' ∈ rules, place r' <+: target → rank place mode r' ≤ rank place mode r

namespace Governs

section
variable (h : Governs place mode rules target r)
include h

theorem unique (h' : Governs place mode rules target r') : place r = place r' ∧ mode r = mode r' :=
  eq_of_rank_eq (le_antisymm (h'.top r h.mem h.on_way) (h.top r' h'.mem h'.on_way)) h.on_way
    h'.on_way

theorem congr (hrules : ∀ r, r ∈ rules ↔ r ∈ rules') : Governs place mode rules' target r where
  mem := (hrules r).mp h.mem
  on_way := h.on_way
  top r' hr' := h.top r' ((hrules r').mpr hr')

theorem restrict (hsub : ∀ r ∈ rules', r ∈ rules)
    (hr : r ∈ rules') : Governs place mode rules' target r where
  mem := hr
  on_way := h.on_way
  top r' hr' := h.top r' (hsub r' hr')

end

/-- A rule that governs and lies deeper than what governs further rules governs them all. -/
theorem of_deeper {all : List ρ} (hall : ∀ r, r ∈ all ↔ r ∈ rules ∨ r ∈ rules')
    (h : Governs place mode rules target r) (h' : Governs place mode rules' target r')
    (hlt : (place r).length < (place r').length) : Governs place mode all target r' where
  mem := (hall r').mpr (.inr h'.mem)
  on_way := h'.on_way
  top s hs hway := by
    rcases (hall s).mp hs with hs | hs
    · exact (h.top s hs hway).trans (rank_le_iff.mpr (.inl hlt))
    · exact h'.top s hs hway

variable (h : Governs place mode rules target r)
include h

theorem length_le (hr' : r' ∈ rules)
    (hway : place r' <+: target) : (place r').length ≤ (place r).length := by
  rcases rank_le_iff.mp (h.top r' hr' hway) with hlt | ⟨heq, -⟩
  · exact hlt.le
  · exact heq.le

theorem prefix_of_mem (hr' : r' ∈ rules) (hway : place r' <+: target) : place r' <+: place r :=
  prefix_of_prefix_length_le hway h.on_way (h.length_le hr' hway)

/-- What governs a target governs every place on the way from the rule to the target. -/
theorem between {middle : List α} (hbelow : place r <+: middle) (habove : middle <+: target) :
    Governs place mode rules middle r where
  mem := h.mem
  on_way := hbelow
  top r' hr' hway := h.top r' hr' (hway.trans habove)

end Governs

variable [DecidableEq α]

def governing (place : ρ → List α) (mode : ρ → μ) (rules : List ρ) (target : List α) : Option ρ :=
  (rules.filter fun r => decide (place r <+: target)).argmax (rank place mode)

theorem mem_onWay : r ∈ rules.filter (fun r => decide (place r <+: target)) ↔
    r ∈ rules ∧ place r <+: target := by
  rw [mem_filter, decide_eq_true_iff]

theorem governs_of_governing (h : governing place mode rules target = some r) :
    Governs place mode rules target r where
  mem := (mem_onWay.mp (argmax_mem h)).1
  on_way := (mem_onWay.mp (argmax_mem h)).2
  top r' hr' hway := by
    have hmem : r' ∈ rules.filter fun r => decide (place r <+: target) := mem_onWay.mpr ⟨hr', hway⟩
    exact le_of_mem_argmax hmem h

theorem governing_eq_none_iff :
    governing place mode rules target = none ↔ ∀ r ∈ rules, ¬ place r <+: target := by
  rw [governing, argmax_eq_none, filter_eq_nil_iff]
  simp only [decide_eq_true_eq]

theorem exists_governs (hr : r ∈ rules) (hway : place r <+: target) :
    ∃ r, Governs place mode rules target r := by
  cases h : governing place mode rules target with
  | none => exact absurd hway (governing_eq_none_iff.mp h r hr)
  | some r' => exact ⟨r', governs_of_governing h⟩


/-- The mode of the rule that governs is the one that is found. -/
theorem Governs.mode_governing (h : Governs place mode rules target r) :
    (governing place mode rules target).map mode = some (mode r) := by
  cases hg : governing place mode rules target with
  | none => exact absurd h.on_way (governing_eq_none_iff.mp hg r h.mem)
  | some r' => rw [Option.map_some, ((governs_of_governing hg).unique h).2]

theorem mode_governing_congr (hrules : ∀ r, r ∈ rules ↔ r ∈ rules') :
    (governing place mode rules target).map mode =
      (governing place mode rules' target).map mode := by
  cases hg : governing place mode rules target with
  | none =>
    have hnone : governing place mode rules' target = none := by
      rw [governing_eq_none_iff] at hg ⊢
      intro r hr
      exact hg r ((hrules r).mpr hr)
    rw [hnone]
  | some r =>
    rw [((governs_of_governing hg).congr hrules).mode_governing]
    rfl

end CodexRs.Specificity
