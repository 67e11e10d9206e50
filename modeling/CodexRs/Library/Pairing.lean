import Mathlib.Data.List.Basic

/-!
# Requests and replies

A reply is inserted behind each request that has none, and replies that nothing asks for are
dropped.
-/
namespace CodexRs
open List Option

/-- The key an item asks for, the one it replies to, and the one that must be asked for if it is to
stay. -/
structure Pairing (α κ : Type*) where
  asks : α → Option κ
  replies : α → Option κ
  bound : α → Option κ
  reply : α → κ → α
  replies_of_bound : ∀ a k, bound a = some k → replies a = some k
  asks_of_replies : ∀ a k, replies a = some k → asks a = none
  replies_reply : ∀ a k, asks a = some k → replies (reply a k) = some k

namespace Pairing
variable {α κ : Type*} [DecidableEq κ] (P : Pairing α κ) (items : List α)

/-- Every request has a reply, and every reply that needs a request has one. -/
structure Paired : Prop where
  answered : ∀ a ∈ items, ∀ k, P.asks a = some k → ∃ b ∈ items, P.replies b = some k
  asked : ∀ a ∈ items, ∀ k, P.bound a = some k → ∃ b ∈ items, P.asks b = some k

/-- The reply that is missing for an item. -/
def missing (a : α) : Option α :=
  match P.asks a with
  | none => none
  | some k => if items.any fun b => P.replies b = some k then none else some (P.reply a k)

def fill : List α := items.flatMap fun a => a :: (P.missing items a).toList

/-- Nothing asks for the item. -/
def orphan (a : α) : Bool :=
  match P.bound a with
  | none => false
  | some k => !items.any fun b => P.asks b = some k

def prune : List α := items.filter fun a => !P.orphan items a

variable {P items}

theorem missing_eq_some {a b : α} : P.missing items a = some b ↔
    ∃ k, P.asks a = some k ∧ (∀ c ∈ items, P.replies c ≠ some k) ∧ b = P.reply a k := by
  unfold missing
  cases h : P.asks a with
  | none => simp
  | some k =>
    simp only [Option.some.injEq, exists_eq_left']
    split_ifs with hany
    · have hreply : ¬ ∀ c ∈ items, P.replies c ≠ some k := by simpa using hany
      simp [hreply]
    · have hreply : ∀ c ∈ items, P.replies c ≠ some k := by simpa using hany
      rw [Option.some.injEq, and_iff_right hreply, eq_comm]

variable {a : α}

theorem orphan_eq_true : P.orphan items a = true ↔
    ∃ k, P.bound a = some k ∧ ∀ b ∈ items, P.asks b ≠ some k := by
  unfold orphan
  cases h : P.bound a <;> simp

theorem mem_fill {b : α} : b ∈ P.fill items ↔
    b ∈ items ∨ ∃ a ∈ items, P.missing items a = some b := by
  simp only [fill, mem_flatMap, mem_cons, mem_toList]
  constructor
  · rintro ⟨a, ha, rfl | hb⟩
    · exact .inl ha
    · exact .inr ⟨a, ha, hb⟩
  · rintro (hb | ⟨a, ha, hb⟩)
    · exact ⟨b, hb, .inl rfl⟩
    · exact ⟨a, ha, .inr hb⟩

/-- The requests of the filled list are those of the list. -/
theorem asks_of_mem_fill {b : α} {k : κ} (h : b ∈ P.fill items) (hk : P.asks b = some k) :
    b ∈ items := by
  rcases mem_fill.mp h with hb | ⟨a, -, hb⟩
  · exact hb
  · obtain ⟨l, hl, -, rfl⟩ := missing_eq_some.mp hb
    rw [P.asks_of_replies _ _ (P.replies_reply a l hl)] at hk
    cases hk

theorem exists_asks_fill {k : κ} : (∃ b ∈ P.fill items, P.asks b = some k) ↔
    ∃ b ∈ items, P.asks b = some k := by
  constructor
  · rintro ⟨b, hb, hk⟩
    exact ⟨b, asks_of_mem_fill hb hk, hk⟩
  · rintro ⟨b, hb, hk⟩
    exact ⟨b, mem_fill.mpr (.inl hb), hk⟩

theorem orphan_fill (a : α) : P.orphan (P.fill items) a = P.orphan items a := by
  rw [Bool.eq_iff_iff, orphan_eq_true, orphan_eq_true]
  apply exists_congr
  intro k
  apply and_congr_right
  intro _
  have h : (¬ ∃ b ∈ P.fill items, P.asks b = some k) ↔ ¬ ∃ b ∈ items, P.asks b = some k :=
    not_congr exists_asks_fill
  simpa using h

theorem answered_fill : ∀ a ∈ P.fill items, ∀ k, P.asks a = some k →
    ∃ b ∈ P.fill items, P.replies b = some k := by
  intro a ha k hk
  have hmem := asks_of_mem_fill ha hk
  by_cases h : ∃ b ∈ items, P.replies b = some k
  · obtain ⟨b, hb, hreply⟩ := h
    exact ⟨b, mem_fill.mpr (.inl hb), hreply⟩
  · have hmissing : P.missing items a = some (P.reply a k) :=
      missing_eq_some.mpr ⟨k, hk, fun c hc hck => h ⟨c, hc, hck⟩, rfl⟩
    exact ⟨P.reply a k, mem_fill.mpr (.inr ⟨a, hmem, hmissing⟩), P.replies_reply a k hk⟩

theorem mem_prune : a ∈ P.prune items ↔ a ∈ items ∧ P.orphan items a = false := by
  rw [prune, mem_filter, Bool.not_eq_true']

/-- A request is no reply, so that it stays. -/
theorem mem_prune_of_asks {k : κ} (h : a ∈ items) (hk : P.asks a = some k) : a ∈ P.prune items := by
  refine mem_prune.mpr ⟨h, Bool.eq_false_iff.mpr ?_⟩
  intro horphan
  obtain ⟨l, hl, -⟩ := orphan_eq_true.mp horphan
  rw [P.asks_of_replies a l (P.replies_of_bound a l hl)] at hk
  cases hk

theorem paired_prune (h : ∀ a ∈ items, ∀ k, P.asks a = some k → ∃ b ∈ items, P.replies b = some k) :
    P.Paired (P.prune items) where
  answered a ha k hk := by
    have hmem := (mem_prune.mp ha).1
    obtain ⟨b, hb, hreply⟩ := h a hmem k hk
    refine ⟨b, mem_prune.mpr ⟨hb, Bool.eq_false_iff.mpr ?_⟩, hreply⟩
    intro horphan
    obtain ⟨l, hl, hnone⟩ := orphan_eq_true.mp horphan
    rw [P.replies_of_bound b l hl] at hreply
    exact hnone a hmem (hreply ▸ hk)
  asked a ha k hk := by
    obtain ⟨-, horphan⟩ := mem_prune.mp ha
    by_contra hnone
    rw [Bool.eq_false_iff] at horphan
    apply horphan
    apply orphan_eq_true.mpr
    exact ⟨k, hk, fun b hb hbk => hnone ⟨b, mem_prune_of_asks hb hbk, hbk⟩⟩

theorem paired_prune_fill (items : List α) : P.Paired (P.prune (P.fill items)) :=
  paired_prune answered_fill

theorem missing_eq_none (h : P.Paired items) (ha : a ∈ items) : P.missing items a = none := by
  cases hm : P.missing items a with
  | none => rfl
  | some b =>
    obtain ⟨k, hk, hnone, -⟩ := missing_eq_some.mp hm
    obtain ⟨c, hc, hck⟩ := h.answered a ha k hk
    exact absurd hck (hnone c hc)

theorem fill_eq_self (h : P.Paired items) : P.fill items = items := by
  have hcongr : P.fill items = items.flatMap fun a => [a] := by
    apply flatMap_congr
    intro a ha
    rw [missing_eq_none h ha]
    rfl
  rw [hcongr, flatMap_singleton']

theorem prune_eq_self (h : P.Paired items) : P.prune items = items := by
  apply filter_eq_self.mpr
  intro a ha
  rw [Bool.not_eq_true', Bool.eq_false_iff]
  intro horphan
  obtain ⟨k, hk, hnone⟩ := orphan_eq_true.mp horphan
  obtain ⟨b, hb, hbk⟩ := h.asked a ha k hk
  exact hnone b hb hbk

/-- Item by item: orphans are dropped, and every other item stays, followed by the reply that
it misses. -/
theorem prune_fill_eq (items : List α) : P.prune (P.fill items) =
    items.flatMap fun a => if P.orphan items a then [] else a :: (P.missing items a).toList := by
  have horphan : P.orphan (P.fill items) = P.orphan items := by
    funext a
    exact orphan_fill a
  rw [prune, horphan, fill, filter_flatMap]
  apply flatMap_congr
  intro a ha
  have hreply : ∀ b, P.missing items a = some b → P.orphan items b = false := by
    intro b hb
    obtain ⟨k, hk, -, rfl⟩ := missing_eq_some.mp hb
    rw [Bool.eq_false_iff]
    intro hb
    obtain ⟨l, hl, hnone⟩ := orphan_eq_true.mp hb
    have hl' := P.replies_of_bound _ _ hl
    rw [P.replies_reply a k hk] at hl'
    exact hnone a ha (hl' ▸ hk)
  cases ho : P.orphan items a with
  | true =>
    obtain ⟨k, hk, -⟩ := orphan_eq_true.mp ho
    have hmissing : P.missing items a = none := by
      rw [missing, P.asks_of_replies a k (P.replies_of_bound a k hk)]
    simp [ho, hmissing]
  | false =>
    cases hm : P.missing items a with
    | none => simp [ho]
    | some b => simp [ho, hreply b hm]

end Pairing

end CodexRs
