import CodexRs.Tui.TextArea

/-!
# Positions the text area rounds to

Rounding goes to a boundary, keeps boundaries and keeps the order of positions. Under an edit,
what is clear of it keeps its text and moves with it, and what is within it goes with its text.
-/
namespace CodexRs.Tui
open CodexRs.Text CodexRs.Base64 CodexRs.ByteText List CodexRs.Span TextArea

section
variable {text : Str} {p q b : ℕ}

theorem prevCharBoundary_spec (text : Str) (p : ℕ) :
    Boundary text (prevCharBoundary text p) ∧ prevCharBoundary text p ≤ p ∧
      ∀ b, Boundary text b → b ≤ p → b ≤ prevCharBoundary text p := by
  fun_induction prevCharBoundary text p with
  | case1 => exact ⟨boundary_zero text, le_rfl, fun b _ hb => hb⟩
  | case2 p h => exact ⟨isCharBoundary_iff.mp h, le_rfl, fun b _ hb => hb⟩
  | case3 p h ih =>
    obtain ⟨hbound, hle, hmax⟩ := ih
    refine ⟨hbound, by omega, fun b hb hbp => hmax b hb ?_⟩
    have hne : b ≠ p + 1 := by
      rintro rfl
      exact h (isCharBoundary_iff.mpr hb)
    omega

theorem nextCharBoundary_spec (hp : p ≤ utf8Length text) :
    Boundary text (nextCharBoundary text p) ∧ p ≤ nextCharBoundary text p ∧
      ∀ b, Boundary text b → p ≤ b → nextCharBoundary text p ≤ b := by
  fun_induction nextCharBoundary text p with
  | case1 p h ih =>
    obtain ⟨hbound, hle, hmin⟩ := ih (by omega)
    refine ⟨hbound, by omega, fun b hb hpb => hmin b hb ?_⟩
    have hne : b ≠ p := by
      rintro rfl
      rw [isCharBoundary_iff.mpr hb] at h
      exact absurd h.2 (by simp)
    omega
  | case2 p h =>
    refine ⟨?_, le_rfl, fun b _ hb => hb⟩
    by_cases hlt : p < utf8Length text
    · exact isCharBoundary_iff.mp (by simpa [hlt] using h)
    · obtain rfl : p = utf8Length text := by omega
      exact boundary_length text

theorem boundary_clampPosToCharBoundary (text : Str) (p : ℕ) :
    Boundary text (clampPosToCharBoundary text p) := by
  unfold clampPosToCharBoundary
  dsimp only
  split_ifs with h hnear
  · exact isCharBoundary_iff.mp h
  · exact (prevCharBoundary_spec text _).1
  · exact (nextCharBoundary_spec (min_le_right _ _)).1

theorem clampPosToCharBoundary_of_boundary (h : Boundary text p) :
    clampPosToCharBoundary text p = p := by
  unfold clampPosToCharBoundary
  rw [min_eq_left h.le, if_pos (isCharBoundary_iff.mpr h)]

/-- Rounding does not pass a boundary on its way down. -/
theorem le_clampPosToCharBoundary (hb : Boundary text b) (h : b ≤ p) :
    b ≤ clampPosToCharBoundary text p := by
  have hmin : b ≤ min p (utf8Length text) := le_min h hb.le
  unfold clampPosToCharBoundary
  dsimp only
  split_ifs with hc hnear
  · exact hmin
  · exact (prevCharBoundary_spec text _).2.2 b hb hmin
  · exact hmin.trans (nextCharBoundary_spec (min_le_right _ _)).2.1

/-- Rounding does not pass a boundary on its way up. -/
theorem clampPosToCharBoundary_le (hb : Boundary text b) (h : p ≤ b) :
    clampPosToCharBoundary text p ≤ b := by
  have hmin : min p (utf8Length text) ≤ b := (min_le_left _ _).trans h
  unfold clampPosToCharBoundary
  dsimp only
  split_ifs with hc hnear
  · exact hmin
  · exact (prevCharBoundary_spec text _).2.1.trans hmin
  · exact (nextCharBoundary_spec (min_le_right _ _)).2.2 b hb hmin

theorem clampPosToCharBoundary_min (text : Str) (p : ℕ) :
    clampPosToCharBoundary text (min p (utf8Length text)) = clampPosToCharBoundary text p := by
  simp [clampPosToCharBoundary]

theorem clampPosToCharBoundary_mono (h : p ≤ q) :
    clampPosToCharBoundary text p ≤ clampPosToCharBoundary text q := by
  wlog hlen : q ≤ utf8Length text generalizing p q
  · rw [← clampPosToCharBoundary_min text p, ← clampPosToCharBoundary_min text q]
    exact this (min_le_min_right _ h) (min_le_right _ _)
  obtain ⟨hpb, hple, hpmax⟩ := prevCharBoundary_spec text q
  obtain ⟨hnb, hnle, hnmin⟩ := nextCharBoundary_spec (h.trans hlen)
  -- either a boundary lies between the two, or both lie in one gap
  by_cases hsep : nextCharBoundary text p ≤ q
  · exact (clampPosToCharBoundary_le hnb hnle).trans (le_clampPosToCharBoundary hnb hsep)
  · have hnextq := nextCharBoundary_spec hlen
    have hprevp := prevCharBoundary_spec text p
    have hprev : prevCharBoundary text q = prevCharBoundary text p := by
      apply le_antisymm
      · apply hprevp.2.2 _ hpb
        by_contra hlt
        exact hsep ((hnmin _ hpb (by omega)).trans hple)
      · exact hpmax _ hprevp.1 (hprevp.2.1.trans h)
    have hnext : nextCharBoundary text q = nextCharBoundary text p :=
      le_antisymm (hnextq.2.2 _ hnb (by omega)) (hnmin _ hnextq.1 (h.trans hnextq.2.1))
    by_cases hq : Boundary text q
    · rw [clampPosToCharBoundary_of_boundary hq]
      exact clampPosToCharBoundary_le hq h
    by_cases hp : Boundary text p
    · rw [clampPosToCharBoundary_of_boundary hp]
      exact le_clampPosToCharBoundary hp h
    unfold clampPosToCharBoundary
    dsimp only
    rw [min_eq_left hlen, min_eq_left (h.trans hlen), if_neg (mt isCharBoundary_iff.mp hq),
      if_neg (mt isCharBoundary_iff.mp hp)]
    split_ifs <;> omega

/-! ## Elements in order -/

/-- Elements are nonempty, on boundaries, in order and apart from each other. -/
structure InOrder (text : Str) (elements : List TextElement) : Prop where
  ordered : elements.Pairwise fun d e => d.range.Before e.range
  nonempty : ∀ e ∈ elements, e.range.start < e.range.stop
  onBoundaries : ∀ e ∈ elements, Boundary text e.range.start ∧ Boundary text e.range.stop

/-- The position cuts no element. -/
def Free (elements : List TextElement) (p : ℕ) : Prop := ∀ e ∈ elements, ¬ Span.Cuts p e.range

/-- A boundary on the right side of the position, and no error on a whole text. -/
structure Segmentation.OnBoundaries (seg : Segmentation) : Prop where
  prev : ∀ text p, Boundary text p → ∃ r, seg.prevBoundary text p = .ok r ∧
    ∀ b ∈ r, Boundary text b ∧ b ≤ p
  next : ∀ text p, Boundary text p → ∃ r, seg.nextBoundary text p = .ok r ∧
    ∀ b ∈ r, Boundary text b ∧ p ≤ b
  words : ∀ text, ∀ w ∈ seg.splitWordBoundIndices text,
    slice text w.1 (w.1 + utf8Length w.2) = some w.2
  wrapped : ∀ text width, 0 < width →
    (seg.wrapRanges text width).Pairwise (fun k l => k.start ≤ l.start) ∧
    ∀ l ∈ seg.wrapRanges text width, l.start ≤ l.stop - 1 ∧
      Boundary text l.start ∧ Boundary text (l.stop - 1)

namespace InOrder
variable {elements : List TextElement}

/-- Two elements are the same, or one lies before the other. -/
theorem trichotomy (h : InOrder text elements) {d e : TextElement} (hd : d ∈ elements)
    (he : e ∈ elements) : d = e ∨ d.range.Before e.range ∨ e.range.Before d.range := by
  let R : TextElement → TextElement → Prop := fun d e =>
    d = e ∨ d.range.Before e.range ∨ e.range.Before d.range
  have hsymm : Std.Symm R := ⟨fun d e hde => by
    obtain rfl | hbefore | hafter := hde
    · exact .inl rfl
    · exact .inr (.inr hbefore)
    · exact .inr (.inl hafter)⟩
  have hpairs : elements.Pairwise R := h.ordered.imp fun hbefore => .inr (.inl hbefore)
  exact Pairwise.forall_of_forall (fun e _ => .inl rfl) hpairs hd he

theorem free_ends (h : InOrder text elements) {e : TextElement} (he : e ∈ elements) :
    Free elements e.range.start ∧ Free elements e.range.stop := by
  have hnonempty := h.nonempty e he
  constructor <;>
  · intro d hd hcut
    obtain rfl | hbefore | hafter := h.trichotomy hd he
    · unfold Cuts at hcut
      omega
    · unfold Cuts at hcut
      unfold Before at hbefore
      omega
    · unfold Cuts at hcut
      unfold Before at hafter
      omega

end InOrder

namespace TextArea
variable {seg : Segmentation} {ta : TextArea}

theorem findElementContaining_eq_some {e : TextElement}
    (h : ta.findElementContaining p = some e) : e ∈ ta.elements ∧ Cuts p e.range := by
  refine ⟨mem_of_find?_eq_some h, ?_⟩
  have := find?_some h
  exact of_decide_eq_true this

theorem free_of_findElementContaining (h : ta.findElementContaining p = none) :
    Free ta.elements p := by
  intro e he hcut
  have := find?_eq_none.mp h e he
  exact this (decide_eq_true hcut)

/-- A position that is moved to an end of the element it cuts. -/
theorem adjustPosOutOfElements_spec (h : InOrder ta.text ta.elements) (hp : Boundary ta.text p)
    (preferStart : Bool) :
    Boundary ta.text (ta.adjustPosOutOfElements p preferStart) ∧
      Free ta.elements (ta.adjustPosOutOfElements p preferStart) := by
  unfold adjustPosOutOfElements
  split
  next e hfind =>
    obtain ⟨he, -⟩ := findElementContaining_eq_some hfind
    split
    · exact ⟨(h.onBoundaries e he).1, (h.free_ends he).1⟩
    · exact ⟨(h.onBoundaries e he).2, (h.free_ends he).2⟩
  next hfind => exact ⟨hp, free_of_findElementContaining hfind⟩

theorem adjustPosOutOfElements_le : ta.adjustPosOutOfElements p true ≤ p := by
  unfold adjustPosOutOfElements
  split
  next e hfind => exact (findElementContaining_eq_some hfind).2.1.le
  next => exact le_rfl

theorem le_adjustPosOutOfElements : p ≤ ta.adjustPosOutOfElements p false := by
  unfold adjustPosOutOfElements
  split
  next e hfind => exact (findElementContaining_eq_some hfind).2.2.le
  next => exact le_rfl

theorem clampPosToNearestBoundary_spec (h : InOrder ta.text ta.elements) (p : ℕ) :
    Boundary ta.text (ta.clampPosToNearestBoundary p) ∧
      Free ta.elements (ta.clampPosToNearestBoundary p) := by
  unfold clampPosToNearestBoundary
  dsimp only
  split
  next e hfind =>
    obtain ⟨he, -⟩ := findElementContaining_eq_some hfind
    obtain ⟨hstart, hstop⟩ := h.onBoundaries e he
    rw [clampPosToCharBoundary_of_boundary hstart, clampPosToCharBoundary_of_boundary hstop]
    split
    · exact ⟨hstart, (h.free_ends he).1⟩
    · exact ⟨hstop, (h.free_ends he).2⟩
  next hfind =>
    exact ⟨boundary_clampPosToCharBoundary _ _, free_of_findElementContaining hfind⟩

theorem clampPosToNearestBoundary_of_free (hp : Boundary ta.text p) (hfree : Free ta.elements p) :
    ta.clampPosToNearestBoundary p = p := by
  unfold clampPosToNearestBoundary
  dsimp only
  rw [clampPosToCharBoundary_of_boundary hp]
  split
  next e hfind =>
    obtain ⟨he, hcut⟩ := findElementContaining_eq_some hfind
    exact absurd hcut (hfree e he)
  next => rfl

theorem free_zero (elements : List TextElement) : Free elements 0 := fun _ _ hcut =>
  absurd hcut.1 (Nat.not_lt_zero _)

theorem free_len (h : InOrder ta.text ta.elements) : Free ta.elements ta.len :=
  fun e he hcut => absurd hcut.2 (Nat.not_lt.mpr (h.onBoundaries e he).2.le)

theorem prevAtomicBoundary_spec (hseg : seg.OnBoundaries) (h : InOrder ta.text ta.elements)
    (hp : Boundary ta.text p) :
    (Boundary ta.text (ta.prevAtomicBoundary seg p) ∧
      Free ta.elements (ta.prevAtomicBoundary seg p)) ∧ ta.prevAtomicBoundary seg p ≤ p := by
  unfold prevAtomicBoundary
  split_ifs with hzero
  · exact ⟨⟨boundary_zero _, free_zero _⟩, Nat.zero_le _⟩
  split
  next e hfind =>
    have he := mem_of_find?_eq_some hfind
    have hat := find?_some hfind
    rw [decide_eq_true_eq] at hat
    exact ⟨⟨(h.onBoundaries e he).1, (h.free_ends he).1⟩, hat.1.le⟩
  next =>
    obtain ⟨r, hr, hbound⟩ := hseg.prev ta.text p hp
    rw [hr]
    cases r with
    | none => exact ⟨⟨boundary_zero _, free_zero _⟩, Nat.zero_le _⟩
    | some b =>
      obtain ⟨hb, hle⟩ := hbound b rfl
      exact ⟨adjustPosOutOfElements_spec h hb true, adjustPosOutOfElements_le.trans hle⟩

theorem nextAtomicBoundary_spec (hseg : seg.OnBoundaries) (h : InOrder ta.text ta.elements)
    (hp : Boundary ta.text p) :
    (Boundary ta.text (ta.nextAtomicBoundary seg p) ∧
      Free ta.elements (ta.nextAtomicBoundary seg p)) ∧ p ≤ ta.nextAtomicBoundary seg p := by
  unfold nextAtomicBoundary
  split_ifs with hend
  · exact ⟨⟨boundary_length _, free_len h⟩, hp.le⟩
  split
  next e hfind =>
    have he := mem_of_find?_eq_some hfind
    have hat := find?_some hfind
    rw [decide_eq_true_eq] at hat
    exact ⟨⟨(h.onBoundaries e he).2, (h.free_ends he).2⟩, hat.2.le⟩
  next =>
    obtain ⟨r, hr, hbound⟩ := hseg.next ta.text p hp
    rw [hr]
    cases r with
    | none => exact ⟨⟨boundary_length _, free_len h⟩, hp.le⟩
    | some b =>
      obtain ⟨hb, hle⟩ := hbound b rfl
      exact ⟨adjustPosOutOfElements_spec h hb false, hle.trans le_adjustPosOutOfElements⟩

/-- The grown range is on boundaries, and every element lies clear of it or within it. -/
theorem expandRange_spec (h : InOrder ta.text ta.elements) {r : Span} (hle : r.start ≤ r.stop)
    (hr : Boundary ta.text r.start ∧ Boundary ta.text r.stop) :
    let grown := ta.expandRangeToElementBoundaries r
    (Boundary ta.text grown.start ∧ Boundary ta.text grown.stop) ∧ grown.start ≤ grown.stop ∧
      ∀ e ∈ ta.elements, grown.Clear e.range ∨ e.range.Within grown := by
  intro grown
  have hwithin : r.Within grown := within_grow _ r
  refine ⟨grow_ends ?_ hr, hwithin.1.trans (hle.trans hwithin.2), ?_⟩
  · rintro _ hmem
    obtain ⟨e, he, rfl⟩ := mem_map.mp hmem
    exact h.onBoundaries e he
  · intro e he
    by_cases hmeets : e.range.Meets grown
    · exact .inr (within_grow_of_meets _ (mem_map_of_mem he) hmeets)
    · unfold Meets at hmeets
      unfold Clear
      omega

end TextArea

end

variable {text new : Str} {r : Span}

def Whole (r : Span) (elements : List TextElement) : Prop :=
  ∀ e ∈ elements, r.Clear e.range ∨ e.range.Within r

/-- A range of a text that may be replaced as it stands. -/
structure Cut (text : Str) (r : Span) : Prop where
  le : r.start ≤ r.stop
  start : Boundary text r.start
  stop : Boundary text r.stop

instance (text : Str) (r : Span) : Decidable (Cut text r) :=
  decidable_of_iff (r.start ≤ r.stop ∧ Boundary text r.start ∧ Boundary text r.stop)
    ⟨fun h => ⟨h.1, h.2.1, h.2.2⟩, fun h => ⟨h.le, h.start, h.stop⟩⟩

theorem Cut.parts (h : Cut text r) (new : Str) :
    ∃ x y z, text = x ++ y ++ z ∧ utf8Length x = r.start ∧ utf8Length (x ++ y) = r.stop ∧
      replaceRange text r.start r.stop new = some (x ++ new ++ z) := by
  obtain ⟨x, y, z, hs, hx, hy⟩ := h.start.parts h.stop h.le
  exact ⟨x, y, z, hs, hx, hy, replaceRange_eq_some.mpr ⟨x, y, z, hs, hx, hy, rfl⟩⟩

variable {e : TextElement}

/-- A nonempty element within the range is dropped, one clear of it is moved. -/
theorem shiftElement_of_within {n : ℕ} (hr : r.start ≤ r.stop)
    (h : e.range.Within r) : shiftElement r.start (r.stop - r.start) n e = none := by
  unfold shiftElement
  rw [if_pos ⟨h.1, by have := h.2; omega⟩]

theorem shiftElement_of_clear {n : ℕ} (hr : r.start ≤ r.stop)
    (hne : e.range.start < e.range.stop) (h : r.Clear e.range) :
    shiftElement r.start (r.stop - r.start) n e = some { e with range := shift r n e.range } := by
  unfold Clear at h
  unfold shiftElement shift
  rw [if_neg (by omega)]
  by_cases hfront : e.range.stop ≤ r.start
  · rw [if_pos hfront, if_pos hfront]
  · rw [if_neg hfront, if_neg hfront, if_pos (by omega)]
    congr 3 <;> omega

/-- An element clear of the range has its text at its new place. -/
theorem slice_shifted {elements : List TextElement} (hin : InOrder text elements) {t y : Str}
    (he : e ∈ elements) (hclear : r.Clear e.range)
    (ht : replaceRange text r.start r.stop new = some t)
    (hy : slice text e.range.start e.range.stop = some y) :
    let moved := shift r (utf8Length new) e.range
    slice t moved.start moved.stop = some y := by
  intro moved
  obtain ⟨u, v, w, rfl, hu, huv, rfl⟩ := replaceRange_eq_some.mp ht
  obtain ⟨x, z, hs, hx, hxy⟩ := slice_eq_some.mp hy
  have hboundary := hin.onBoundaries e he
  by_cases hfront : e.range.stop ≤ r.start
  · -- in front of the range: the slice is one of the part that is kept there
    have hmoved : moved = e.range := if_pos hfront
    obtain ⟨a, b, hab⟩ := (boundary_append_left (z := v ++ w)
      (hu ▸ hfront)).mp (by simpa using hboundary.2)
    have hua : utf8Length a = e.range.stop := hab.2
    have hpart : slice u e.range.start e.range.stop = some y := by
      have hsplit : splitAtByte (u ++ v ++ w) e.range.stop = some (x ++ y, z) :=
        splitAtByte_eq_some.mpr ⟨hs, hxy⟩
      rw [splitAtByte_eq_some.mpr ⟨show u ++ v ++ w = a ++ (b ++ v ++ w) by rw [hab.1]; simp, hua⟩]
        at hsplit
      obtain ⟨rfl, -⟩ := Prod.mk.inj (Option.some.inj hsplit)
      exact slice_eq_some.mpr ⟨x, b, hab.1, hx, hxy⟩
    rw [hmoved, append_assoc]
    exact slice_append_left hpart
  · -- behind it: the slice is one of the part that is kept there
    have hbehind : r.stop ≤ e.range.start := hclear.resolve_left hfront
    obtain ⟨a, b, hab⟩ := (boundary_append_right (x := u ++ v) (p := e.range.start - r.stop)).mp
      (by rw [huv, Nat.add_sub_cancel' hbehind]; exact hboundary.1)
    have hsplit : splitAtByte (u ++ v ++ w) e.range.start = some (x, y ++ z) :=
      splitAtByte_eq_some.mpr ⟨by rw [hs, append_assoc], hx⟩
    rw [splitAtByte_eq_some.mpr ⟨show u ++ v ++ w = (u ++ v ++ a) ++ b by rw [hab.1]; simp, by
      rw [utf8Length_append]; omega⟩] at hsplit
    obtain ⟨rfl, rfl⟩ := Prod.mk.inj (Option.some.inj hsplit)
    refine slice_eq_some.mpr ⟨u ++ new ++ a, z, by rw [hab.1]; simp, ?_, ?_⟩
    · rw [shift_start, if_neg hfront]
      simp only [utf8Length_append]
      omega
    · rw [shift_stop, if_neg hfront]
      simp only [utf8Length_append] at huv hx hxy ⊢
      omega

/-- Boundaries in front of the range stay, those behind it move with the text. -/
theorem boundary_replaced_front {t : Str} {p : ℕ}
    (ht : replaceRange text r.start r.stop new = some t) (hp : Boundary text p)
    (hle : p ≤ r.start) : Boundary t p := by
  obtain ⟨x, y, z, rfl, hx, -, rfl⟩ := replaceRange_eq_some.mp ht
  rw [append_assoc, boundary_append_left (hx ▸ hle)] at hp ⊢
  exact hp

theorem boundary_replaced_behind {t : Str} {p : ℕ}
    (ht : replaceRange text r.start r.stop new = some t) (hp : Boundary text p)
    (hle : r.stop ≤ p) : Boundary t (p - r.stop + (r.start + utf8Length new)) := by
  obtain ⟨x, y, z, rfl, hx, hy, rfl⟩ := replaceRange_eq_some.mp ht
  rw [← Nat.add_sub_cancel' hle, ← hy, boundary_append_right] at hp
  rw [← hx, ← utf8Length_append, Nat.add_comm, ← hy]
  exact boundary_append_right.mpr hp

variable {elements : List TextElement} (hin : InOrder text elements) (hcut : Cut text r)
  (hwhole : Whole r elements)
include hin hcut hwhole

theorem mem_shifted {n : ℕ} {e' : TextElement} :
    e' ∈ elements.filterMap (shiftElement r.start (r.stop - r.start) n) ↔
      ∃ e ∈ elements, r.Clear e.range ∧ e' = { e with range := shift r n e.range } := by
  rw [mem_filterMap]
  constructor
  · rintro ⟨e, he, hshift⟩
    rcases hwhole e he with hclear | hwithin
    · rw [shiftElement_of_clear hcut.le (hin.nonempty e he) hclear] at hshift
      exact ⟨e, he, hclear, (Option.some.inj hshift).symm⟩
    · rw [shiftElement_of_within hcut.le hwithin] at hshift
      cases hshift
  · rintro ⟨e, he, hclear, rfl⟩
    exact ⟨e, he, shiftElement_of_clear hcut.le (hin.nonempty e he) hclear⟩

/-- The elements that are left are in order in the new text. -/
theorem inOrder_shifted {t : Str} (ht : replaceRange text r.start r.stop new = some t) :
    InOrder t (elements.filterMap (shiftElement r.start (r.stop - r.start) (utf8Length new))) where
  ordered := by
    refine pairwise_filterMap.mpr (hin.ordered.imp_of_mem ?_)
    intro d e hd he hbefore d' hd' e' he'
    rcases hwhole d hd with hdclear | hdin
    · rcases hwhole e he with heclear | hein
      · rw [shiftElement_of_clear hcut.le (hin.nonempty d hd) hdclear] at hd'
        rw [shiftElement_of_clear hcut.le (hin.nonempty e he) heclear] at he'
        obtain rfl := Option.some.inj hd'
        obtain rfl := Option.some.inj he'
        exact before_shift (hin.nonempty e he) hbefore
      · rw [shiftElement_of_within hcut.le hein] at he'
        cases he'
    · rw [shiftElement_of_within hcut.le hdin] at hd'
      cases hd'
  nonempty := by
    intro e' he'
    obtain ⟨e, he, hclear, rfl⟩ := (mem_shifted hin hcut hwhole).mp he'
    exact shift_nonempty (hin.nonempty e he) hclear
  onBoundaries := by
    intro e' he'
    obtain ⟨e, he, hclear, rfl⟩ := (mem_shifted hin hcut hwhole).mp he'
    obtain ⟨hstart, hstop⟩ := hin.onBoundaries e he
    obtain ⟨y, hy⟩ := exists_slice hstart hstop (hin.nonempty e he).le
    have hslice := slice_shifted hin he hclear ht hy
    obtain ⟨x, z, hs, hx, hxy⟩ := slice_eq_some.mp hslice
    exact ⟨⟨x, y ++ z, by rw [hs, append_assoc], hx⟩, ⟨x ++ y, z, hs, hxy⟩⟩

/-- A position in front of what is replaced stays, one behind it moves along. -/
theorem free_shifted {n p q : ℕ} (hp : Free elements p)
    (hq : p ≤ r.start ∧ q = p ∨ r.stop ≤ p ∧ q = p - r.stop + (r.start + n)) :
    Free (elements.filterMap (shiftElement r.start (r.stop - r.start) n)) q := by
  intro e' he' hcuts
  obtain ⟨e, he, hclear, rfl⟩ := (mem_shifted hin hcut hwhole).mp he'
  have hfree := hp e he
  unfold Cuts at hfree hcuts
  rw [shift_start, shift_stop] at hcuts
  split_ifs at hcuts <;> omega

end CodexRs.Tui
