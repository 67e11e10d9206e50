import CodexRs.Tui.TextAreaPositions

/-!
# The invariant of the text area

Every operation moves the cursor, replaces a range that cuts no element, or adds an element.
-/
namespace CodexRs.Tui
open CodexRs.Text CodexRs.Base64 CodexRs.ByteText List CodexRs.Span

variable (text : Str)

/-- Wrapped lines that can be shown: in order, and slices of the text without their
last position. -/
def LinesFit (lines : List Span) : Prop :=
  lines.Pairwise (fun k l => k.start ≤ l.start) ∧
    ∀ l ∈ lines, l.start ≤ l.stop - 1 ∧ Boundary text l.start ∧ Boundary text (l.stop - 1)

namespace TextArea

def payload (ta : TextArea) (e : TextElement) : Option Str :=
  slice ta.text e.range.start e.range.stop

structure Sound (ta : TextArea) : Prop where
  inOrder : InOrder ta.text ta.elements
  cursor : Boundary ta.text ta.cursorPos
  free : Free ta.elements ta.cursorPos
  ids : (ta.elements.map (·.id)).Nodup
  fresh : ∀ e ∈ ta.elements, e.id < ta.nextElementId
  wrapped : ∀ cache ∈ ta.wrapCache, LinesFit ta.text cache.lines

/-- One range of the text is replaced by a given text, so that all that was within the range is gone.
An element is still there with its text, or it is gone and its text was within the range. -/
def Atomic (ta : TextArea) (new : Str) (ta' : TextArea) : Prop :=
  ∃ r, Cut ta.text r ∧ ByteText.replaceRange ta.text r.start r.stop new = some ta'.text ∧
    ∀ e ∈ ta.elements,
      (∃ e' ∈ ta'.elements, e'.id = e.id ∧ ta'.payload e' = ta.payload e) ∨
      (e.range.Within r ∧ ∀ e' ∈ ta'.elements, e'.id ≠ e.id)

theorem sound_new : Sound new where
  inOrder := ⟨Pairwise.nil, by simp [new], by simp [new]⟩
  cursor := boundary_zero _
  free := by simp [Free, new]
  ids := nodup_nil
  fresh := by simp [new]
  wrapped := by simp [new]

variable {ta ta' : TextArea}

theorem replaceRange_nothing : ByteText.replaceRange text 0 0 [] = some text :=
  replaceRange_eq_some.mpr ⟨[], [], text, rfl, rfl, rfl, rfl⟩

/-- Operations that leave the text alone and lose no element. -/
theorem atomic_of_text_eq (htext : ta'.text = ta.text)
    (hsub : ∀ e ∈ ta.elements, e ∈ ta'.elements) : Atomic ta [] ta' := by
  refine ⟨⟨0, 0⟩, ⟨le_rfl, boundary_zero _, boundary_zero _⟩, ?_, fun e he => ?_⟩
  · rw [htext]
    exact replaceRange_nothing ta.text
  · exact .inl ⟨e, hsub e he, rfl, by rw [payload, payload, htext]⟩

/-- The operation goes through, to a sound state and with whole elements only. -/
def Safe (ta : TextArea) (new : Str) (result : Option TextArea) : Prop :=
  ∃ ta', result = some ta' ∧ Sound ta' ∧ Atomic ta new ta'

theorem safe_self (h : Sound ta) : Safe ta [] (some ta) :=
  ⟨ta, rfl, h, atomic_of_text_eq rfl fun _ he => he⟩

theorem Sound.moved (h : Sound ta) {p : ℕ} (hp : Boundary ta.text p) (hfree : Free ta.elements p)
    (col : Option ℕ) : Sound { ta with cursorPos := p, preferredCol := col } :=
  { h with cursor := hp, free := hfree }

theorem atomic_moved (ta : TextArea) (p : ℕ) (col : Option ℕ) :
    Atomic ta [] { ta with cursorPos := p, preferredCol := col } :=
  atomic_of_text_eq rfl fun _ he => he

theorem Sound.setCursor (h : Sound ta) (p : ℕ) : Sound (ta.setCursor p) := by
  obtain ⟨hbound, hfree⟩ := clampPosToNearestBoundary_spec h.inOrder (min p ta.len)
  exact h.moved hbound hfree none

theorem shiftElement_id {a n m : ℕ} {e e' : TextElement} (h : shiftElement a n m e = some e') :
    e'.id = e.id := by
  unfold shiftElement at h
  dsimp only at h
  split_ifs at h <;> cases h <;> rfl

theorem sublist_ids_shifted (a n m : ℕ) (elements : List TextElement) :
    Sublist ((elements.filterMap (shiftElement a n m)).map (·.id)) (elements.map (·.id)) := by
  induction elements with
  | nil => exact Sublist.slnil
  | cons e es ih =>
    cases hshift : shiftElement a n m e with
    | none =>
      rw [filterMap_cons_none hshift]
      exact ih.cons _
    | some e' =>
      rw [filterMap_cons_some hshift, map_cons, shiftElement_id hshift]
      exact ih.cons_cons _

section
variable {r : Span} {new t : Str} (h : Sound ta) (hcut : Cut ta.text r)
  (hwhole : Whole r ta.elements)
  (ht : ByteText.replaceRange ta.text r.start r.stop new = some t)
include h hcut hwhole ht

/-- The elements after an edit, whatever else is changed beside them. -/
theorem atomic_edited (htext : ta'.text = t) (hsub : ∀ e ∈ ta.elements.filterMap
      (shiftElement r.start (r.stop - r.start) (utf8Length new)), e ∈ ta'.elements)
    (hids : ∀ e' ∈ ta'.elements, ∀ e ∈ ta.elements, e'.id = e.id →
      e' ∈ ta.elements.filterMap (shiftElement r.start (r.stop - r.start) (utf8Length new))) :
    Atomic ta new ta' := by
  refine ⟨r, hcut, by rw [htext]; exact ht, fun e he => ?_⟩
  rcases hwhole e he with hclear | hwithin
  · left
    have hmem := (mem_shifted h.inOrder hcut hwhole (n := utf8Length new)).mpr
      ⟨e, he, hclear, rfl⟩
    refine ⟨_, hsub _ hmem, rfl, ?_⟩
    obtain ⟨hstart, hstop⟩ := h.inOrder.onBoundaries e he
    obtain ⟨y, hy⟩ := exists_slice hstart hstop (h.inOrder.nonempty e he).le
    have hmoved := slice_shifted h.inOrder he hclear ht hy
    rw [payload, payload, htext, hy]
    exact hmoved
  · right
    refine ⟨hwithin, fun e' he' heq => ?_⟩
    obtain ⟨d, hd, hdclear, rfl⟩ := (mem_shifted h.inOrder hcut hwhole).mp (hids e' he' e he heq)
    -- identifiers are unique, so the element left would be the one within the range
    obtain rfl : d = e := inj_on_of_nodup_map h.ids hd he heq
    have hne := h.inOrder.nonempty d hd
    unfold Clear at hdclear
    have := hwithin.1
    have := hwithin.2
    omega

/-- The invariant after an edit, once the cursor is known to be in place. -/
theorem Sound.edited (p : ℕ) (col : Option ℕ) (hp : Boundary t p)
    (hfree : Free (ta.elements.filterMap
      (shiftElement r.start (r.stop - r.start) (utf8Length new))) p) :
    Sound { ta with
      text := t, cursorPos := p, wrapCache := none, preferredCol := col
      elements := ta.elements.filterMap
        (shiftElement r.start (r.stop - r.start) (utf8Length new)) } where
  inOrder := inOrder_shifted h.inOrder hcut hwhole ht
  cursor := hp
  free := hfree
  ids := (sublist_ids_shifted _ _ _ _).nodup h.ids
  fresh := by
    intro e' he'
    obtain ⟨e, he, -, rfl⟩ := (mem_shifted h.inOrder hcut hwhole).mp he'
    exact h.fresh e he
  wrapped := by simp

end

/-! ## Replacing a range -/

variable {r : Span}

/-- A replacement that cuts no element goes through. -/
theorem replaceRangeRaw_spec (h : Sound ta) (hcut : Cut ta.text r)
    (hwhole : Whole r ta.elements) (new : Str) :
    Safe ta new (ta.replaceRangeRaw r new) := by
  have hstart : min r.start ta.len = r.start := min_eq_left hcut.start.le
  have hstop : min r.stop ta.len = r.stop := min_eq_left hcut.stop.le
  unfold replaceRangeRaw
  rw [if_neg (Nat.not_lt.mpr hcut.le)]
  rw [hstart, hstop]
  by_cases hnothing : r.stop - r.start = 0 ∧ utf8Length new = 0
  · obtain rfl := utf8Length_eq_zero.mp hnothing.2
    rw [if_pos hnothing]
    exact safe_self h
  rw [if_neg hnothing]
  obtain ⟨x, y, z, -, -, -, ht⟩ := hcut.parts new
  rw [ht]
  refine ⟨_, rfl, ?_, ?_⟩
  · -- the cursor is rounded last, against the elements of the new text
    let edited : TextArea :=
      { ta with text := x ++ new ++ z, wrapCache := none, preferredCol := none
                elements := ta.elements.filterMap
                  (shiftElement r.start (r.stop - r.start) (utf8Length new)) }
    have hin : InOrder edited.text edited.elements := inOrder_shifted h.inOrder hcut hwhole ht
    have hcursor := fun p => clampPosToNearestBoundary_spec hin p
    exact Sound.edited h hcut hwhole ht _ _ (hcursor _).1 (hcursor _).2
  · exact atomic_edited h hcut hwhole ht rfl (fun _ he => he) fun _ he' _ _ _ => he'

theorem replaceRange_spec (h : Sound ta) (hcut : Cut ta.text r) (new : Str) :
    Safe ta new (ta.replaceRange r new) := by
  obtain ⟨hbounds, hle, hwhole⟩ := expandRange_spec h.inOrder hcut.le ⟨hcut.start, hcut.stop⟩
  exact replaceRangeRaw_spec h ⟨hle, hbounds.1, hbounds.2⟩ hwhole new

theorem Sound.storeKillBuffer (h : Sound ta) (text : Str) (kind : KillBufferKind) :
    Sound (ta.storeKillBuffer text kind) :=
  ⟨h.inOrder, h.cursor, h.free, h.ids, h.fresh, h.wrapped⟩

theorem killRangeWithKind_spec (h : Sound ta) (hcut : Cut ta.text r) (kind : KillBufferKind) :
    Safe ta [] (ta.killRangeWithKind r kind) := by
  obtain ⟨hbounds, hle, hwhole⟩ := expandRange_spec h.inOrder hcut.le ⟨hcut.start, hcut.stop⟩
  have hgrown : Cut ta.text (ta.expandRangeToElementBoundaries r) := ⟨hle, hbounds.1, hbounds.2⟩
  unfold killRangeWithKind
  dsimp only
  split_ifs with hempty
  · exact safe_self h
  obtain ⟨removed, hremoved⟩ := exists_slice hbounds.1 hbounds.2 hle
  rw [hremoved]
  simp only [Option.bind_eq_bind, Option.bind_some]
  split_ifs with hnil
  · exact safe_self h
  · exact replaceRangeRaw_spec (h.storeKillBuffer removed kind) hgrown hwhole []

/-! ## Inserting -/

/-- Between elements an empty range cuts none. -/
theorem whole_of_free {p : ℕ} (hp : Free ta.elements p) : Whole ⟨p, p⟩ ta.elements := by
  intro e he
  have hfree := hp e he
  unfold Cuts at hfree
  unfold Clear
  dsimp only
  omega

/-- What an insertion leaves, with the position it was rounded to. -/
theorem insertStrAt_eq (h : Sound ta) (pos : ℕ) (new : Str) :
    let p := ta.clampPosForInsertion pos
    ∃ t, ByteText.replaceRange ta.text p p new = some t ∧
      ta.insertStrAt pos new = some { ta with
        text := t, wrapCache := none, preferredCol := none
        cursorPos := if p ≤ ta.cursorPos then ta.cursorPos + utf8Length new else ta.cursorPos
        elements := ta.elements.filterMap (shiftElement p (p - p) (utf8Length new)) } := by
  intro p
  obtain ⟨hp, -⟩ := clampPosToNearestBoundary_spec h.inOrder pos
  have hcut : Cut ta.text ⟨p, p⟩ := ⟨le_rfl, hp, hp⟩
  obtain ⟨x, y, z, -, -, -, ht⟩ := hcut.parts new
  refine ⟨_, ht, ?_⟩
  change (ByteText.replaceRange ta.text p p new).bind _ = _
  rw [ht, Nat.sub_self]
  rfl

theorem insertStrAt_spec (h : Sound ta) (pos : ℕ) (new : Str) :
    Safe ta new (ta.insertStrAt pos new) := by
  obtain ⟨t, ht, heq⟩ := insertStrAt_eq h pos new
  obtain ⟨hp, hfree⟩ := clampPosToNearestBoundary_spec h.inOrder pos
  change Boundary ta.text (ta.clampPosForInsertion pos) at hp
  change Free ta.elements (ta.clampPosForInsertion pos) at hfree
  refine ⟨_, heq, ?_⟩
  generalize ta.clampPosForInsertion pos = p at *
  have hcut : Cut ta.text ⟨p, p⟩ := ⟨le_rfl, hp, hp⟩
  have hwhole := whole_of_free hfree
  refine ⟨Sound.edited h hcut hwhole ht _ none ?_ ?_,
    atomic_edited h hcut hwhole ht rfl (fun _ he => he) fun _ he' _ _ _ => he'⟩
  · split_ifs with hle
    · have hmoved := boundary_replaced_behind (r := ⟨p, p⟩) ht h.cursor hle
      rwa [← Nat.add_assoc, Nat.sub_add_cancel hle] at hmoved
    · exact boundary_replaced_front (r := ⟨p, p⟩) ht h.cursor (Nat.le_of_not_le hle)
  · refine free_shifted h.inOrder hcut hwhole h.free ?_
    split_ifs with hle
    · exact .inr ⟨hle, by simp only; omega⟩
    · exact .inl ⟨Nat.le_of_not_le hle, rfl⟩

/-! ## Adding elements -/

/-- Nonempty elements that lie apart are in order once they are sorted. -/
theorem inOrder_sortElements {text : Str} {elements : List TextElement}
    (hapart : elements.Pairwise fun d e => d.range.Before e.range ∨ e.range.Before d.range)
    (hne : ∀ e ∈ elements, e.range.start < e.range.stop)
    (hb : ∀ e ∈ elements, Boundary text e.range.start ∧ Boundary text e.range.stop) :
    InOrder text (sortElements elements) := by
  have hperm : (sortElements elements).Perm elements := perm_insertionSort _ _
  refine ⟨?_, fun e he => hne e (hperm.mem_iff.mp he), fun e he => hb e (hperm.mem_iff.mp he)⟩
  have hsymm : (sortElements elements).Pairwise fun d e =>
      d.range.Before e.range ∨ e.range.Before d.range :=
    (hperm.pairwise_iff fun hde => hde.symm).mpr hapart
  have hsorted : (sortElements elements).Pairwise fun d e => d.range.start ≤ e.range.start :=
    pairwise_insertionSort _ _
  refine (hsymm.and hsorted).imp_of_mem fun {d e} _ he hde => ?_
  have henonempty := hne e (hperm.mem_iff.mp he)
  obtain ⟨hbefore | hafter, hle⟩ := hde
  · exact hbefore
  · unfold Before at hafter
    omega

theorem mem_addElement {range : Span} {e : TextElement} :
    e ∈ (ta.addElement range).elements ↔ e ∈ ta.elements ∨ e = ⟨ta.nextElementId, range⟩ := by
  change e ∈ sortElements _ ↔ _
  rw [sortElements, mem_insertionSort, mem_append, mem_singleton]

theorem Sound.addElement (h : Sound ta) {range : Span} (hne : range.start < range.stop)
    (hstart : Boundary ta.text range.start) (hstop : Boundary ta.text range.stop)
    (hclear : ∀ e ∈ ta.elements, range.Clear e.range) (hcursor : ¬ Cuts ta.cursorPos range) :
    Sound (ta.addElement range) where
  inOrder := by
    refine inOrder_sortElements ?_ ?_ ?_
    · refine pairwise_append.mpr ⟨h.inOrder.ordered.imp .inl, by simp, ?_⟩
      intro d hd e he
      obtain rfl := mem_singleton.mp he
      exact hclear d hd
    · exact forall_mem_append.mpr
        ⟨h.inOrder.nonempty, forall_mem_singleton.mpr hne⟩
    · exact forall_mem_append.mpr
        ⟨h.inOrder.onBoundaries, forall_mem_singleton.mpr ⟨hstart, hstop⟩⟩
  cursor := h.cursor
  free := by
    intro e he
    rcases mem_addElement.mp he with he | rfl
    · exact h.free e he
    · exact hcursor
  ids := by
    have hperm := (perm_insertionSort (fun d e : TextElement => d.range.start ≤ e.range.start)
      (ta.elements ++ [⟨ta.nextElementId, range⟩])).map (·.id)
    refine hperm.nodup_iff.mpr ?_
    rw [map_append, nodup_append]
    refine ⟨h.ids, by simp, ?_⟩
    rintro i hi j hj rfl
    obtain ⟨e, he, rfl⟩ := mem_map.mp hi
    have hid : e.id = ta.nextElementId := by simpa using hj
    exact absurd (h.fresh e he) (by omega)
  fresh := by
    intro e he
    rcases mem_addElement.mp he with he | rfl
    · exact (h.fresh e he).trans (Nat.lt_succ_self _)
    · exact Nat.lt_succ_self _
  wrapped := h.wrapped

theorem atomic_addElement (ta : TextArea) (range : Span) : Atomic ta [] (ta.addElement range) :=
  atomic_of_text_eq rfl fun _ he => mem_addElement.mpr (.inl he)

theorem clampRange_eq (range : Span) : clampRange text range =
    ⟨clampPosToCharBoundary text range.start, clampPosToCharBoundary text range.stop⟩ := by
  rw [clampRange, clampPosToCharBoundary_min, clampPosToCharBoundary_min]

/-- The range is refused when it is empty or meets an element; a range that is one already
meets it. -/
theorem addElementRange_eq (ta : TextArea) (range : Span) : ta.addElementRange range =
    if (clampRange ta.text range).start < (clampRange ta.text range).stop ∧
        ∀ e ∈ ta.elements, ¬ e.range.Meets (clampRange ta.text range) then
      ta.addElement (clampRange ta.text range) else ta := by
  unfold addElementRange
  generalize clampRange ta.text range = clamped
  dsimp only
  split_ifs with hempty hrefuse hsame hrefuse hover hrefuse hrefuse
  · exact absurd hrefuse.1 (Nat.not_lt.mpr hempty)
  · rfl
  · obtain ⟨e, he, heq⟩ := any_eq_true.mp hsame
    have hrange : e.range = clamped := of_decide_eq_true heq
    exact absurd ⟨by rw [hrange]; exact hrefuse.1, by rw [hrange]; exact hrefuse.1⟩
      (hrefuse.2 e he)
  · rfl
  · obtain ⟨e, he, hmeets⟩ := any_eq_true.mp hover
    have hboth := of_decide_eq_true hmeets
    exact absurd ⟨hboth.2, hboth.1⟩ (hrefuse.2 e he)
  · rfl
  · rfl
  · refine absurd ⟨Nat.lt_of_not_le hempty, fun e he hmeets => hover ?_⟩ hrefuse
    exact any_eq_true.mpr ⟨e, he, decide_eq_true ⟨hmeets.2, hmeets.1⟩⟩

/-- A new element does not close around the cursor. -/
def KeepsCursorOut (ta : TextArea) (range : Span) : Prop :=
  ¬ Span.Cuts ta.cursorPos (clampRange ta.text range) ∨
    ∃ e ∈ ta.elements, e.range.Meets (clampRange ta.text range)

instance (ta : TextArea) (range : Span) : Decidable (ta.KeepsCursorOut range) :=
  inferInstanceAs (Decidable (_ ∨ _))

/-- Marking a range keeps the invariant exactly if the cursor stays out of it. -/
theorem sound_addElementRange_iff (h : Sound ta) (range : Span) :
    Sound (ta.addElementRange range) ↔ ta.KeepsCursorOut range := by
  rw [addElementRange_eq, KeepsCursorOut]
  have hbounds : Boundary ta.text (clampRange ta.text range).start ∧
      Boundary ta.text (clampRange ta.text range).stop :=
    ⟨boundary_clampPosToCharBoundary _ _, boundary_clampPosToCharBoundary _ _⟩
  generalize clampRange ta.text range = clamped at *
  split_ifs with hadd
  · constructor
    · intro hsound
      exact .inl (hsound.free _ (mem_addElement.mpr (.inr rfl)))
    · rintro (hcursor | ⟨e, he, hmeets⟩)
      · refine h.addElement hadd.1 hbounds.1 hbounds.2 (fun e he => ?_) hcursor
        have hapart := hadd.2 e he
        unfold Meets at hapart
        unfold Clear
        omega
      · exact absurd hmeets (hadd.2 e he)
  · refine ⟨fun _ => ?_, fun _ => h⟩
    by_cases hmeets : ∃ e ∈ ta.elements, e.range.Meets clamped
    · exact .inr hmeets
    · -- then the range is empty, and nothing cuts it
      left
      intro hcuts
      refine hadd ⟨hcuts.1.trans hcuts.2, fun e he hm => hmeets ⟨e, he, hm⟩⟩

theorem atomic_addElementRange (ta : TextArea) (range : Span) :
    Atomic ta [] (ta.addElementRange range) := by
  rw [addElementRange_eq]
  split_ifs
  · exact atomic_addElement ta _
  · exact atomic_of_text_eq rfl fun _ he => he

end TextArea
end CodexRs.Tui
