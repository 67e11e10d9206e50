import CodexRs.Tui.TextAreaSound

/-!
# New elements and new texts

Inserting an element at the cursor, and replacing the whole text by another with given
element ranges.
-/
namespace CodexRs.Tui.TextArea
open CodexRs.Text CodexRs.Base64 CodexRs.ByteText List CodexRs.Span

variable {ta : TextArea}

theorem insertElement_spec (h : Sound ta) {new : Str} (hnew : new ≠ []) :
    Safe ta new (ta.insertElement new) := by
  have hat : ta.clampPosForInsertion ta.cursorPos = ta.cursorPos :=
    clampPosToNearestBoundary_of_free h.cursor h.free
  have hcut : Cut ta.text ⟨ta.cursorPos, ta.cursorPos⟩ := ⟨le_rfl, h.cursor, h.cursor⟩
  have hwhole := whole_of_free h.free
  have hpos : 0 < utf8Length new := Nat.pos_of_ne_zero fun hzero => hnew (utf8Length_eq_zero.mp hzero)
  obtain ⟨t, ht, heq⟩ := insertStrAt_eq h ta.cursorPos new
  obtain ⟨inserted, hinserted, hsound, -⟩ := insertStrAt_spec h ta.cursorPos new
  rw [hat] at ht heq
  obtain rfl := Option.some.inj (hinserted.symm.trans heq)
  unfold insertElement
  dsimp only
  rw [hat, hinserted]
  refine ⟨_, rfl, Sound.setCursor ?_ _, ?_⟩
  · refine hsound.addElement (Nat.lt_add_of_pos_right hpos) ?_ ?_ ?_ ?_
    · exact boundary_replaced_front (r := ⟨ta.cursorPos, ta.cursorPos⟩) ht h.cursor le_rfl
    · have hmoved := boundary_replaced_behind (r := ⟨ta.cursorPos, ta.cursorPos⟩) ht h.cursor le_rfl
      rwa [Nat.sub_self, Nat.zero_add] at hmoved
    · -- what was clear of the cursor is clear of the text inserted there
      intro e' he'
      obtain ⟨e, he, hclear, rfl⟩ := (mem_shifted h.inOrder hcut hwhole).mp he'
      unfold Clear at hclear ⊢
      rw [shift_start, shift_stop]
      dsimp only at hclear ⊢
      split_ifs <;> omega
    · rintro ⟨-, hlt⟩
      simp at hlt
  · refine atomic_edited h hcut hwhole ht rfl (fun e he => mem_addElement.mpr (.inl he)) ?_
    intro e' he' e he hid
    rcases mem_addElement.mp he' with he' | rfl
    · exact he'
    · exact absurd (h.fresh e he) (by rw [← hid]; exact Nat.lt_irrefl _)

/-! ## A new text -/

variable (text : Str) (id : ℕ)

theorem le_rebuildElements (ranges : List Span) : id ≤ (rebuildElements text id ranges).2 := by
  fun_induction rebuildElements text id ranges with
  | case1 => exact le_rfl
  | case2 _ _ _ _ _ ih => exact ih
  | case3 _ _ _ _ _ _ ih => exact (Nat.le_succ _).trans ih

/-- The elements of a new text are its nonempty ranges, rounded and numbered in turn. -/
theorem mem_rebuildElements {text : Str} {id : ℕ} {ranges : List Span} {e : TextElement}
    (he : e ∈ (rebuildElements text id ranges).1) :
    (id ≤ e.id ∧ e.id < (rebuildElements text id ranges).2) ∧ e.range.start < e.range.stop ∧
      ∃ range ∈ ranges, e.range = clampRange text range := by
  fun_induction rebuildElements text id ranges with
  | case1 => simp at he
  | case2 id range ranges clamped hempty ih =>
    obtain ⟨hid, hne, range', hmem, heq⟩ := ih he
    exact ⟨hid, hne, range', mem_cons_of_mem _ hmem, heq⟩
  | case3 id range ranges clamped hempty rest ih =>
    rcases mem_cons.mp he with rfl | he
    · refine ⟨⟨le_rfl, ?_⟩, Nat.lt_of_not_le hempty, range, mem_cons_self, rfl⟩
      exact le_rebuildElements text (id + 1) ranges
    · obtain ⟨hid, hne, range', hmem, heq⟩ := ih he
      exact ⟨⟨by omega, hid.2⟩, hne, range', mem_cons_of_mem _ hmem, heq⟩

theorem nodup_rebuildElements (ranges : List Span) :
    ((rebuildElements text id ranges).1.map (·.id)).Nodup := by
  fun_induction rebuildElements text id ranges with
  | case1 => exact nodup_nil
  | case2 _ _ _ _ _ ih => exact ih
  | case3 id range ranges clamped hempty rest ih =>
    refine nodup_cons.mpr ⟨fun hmem => ?_, ih⟩
    obtain ⟨e, he, heq⟩ := mem_map.mp hmem
    have hid := (mem_rebuildElements he).1.1
    dsimp only at heq
    omega

/-- Rounding keeps the order of positions, so ranges that were disjoint stay apart. -/
theorem apart_clampRange {text : Str} {a b : Span} (h : a.Disjoint b)
    (ha : (clampRange text a).start < (clampRange text a).stop)
    (hb : (clampRange text b).start < (clampRange text b).stop) :
    (clampRange text a).Before (clampRange text b) ∨
      (clampRange text b).Before (clampRange text a) := by
  rw [clampRange_eq] at ha hb
  have hne : ∀ {r : Span}, clampPosToCharBoundary text r.start <
      clampPosToCharBoundary text r.stop → r.start < r.stop := by
    intro r hr
    by_contra hle
    have hmono : clampPosToCharBoundary text r.stop ≤ clampPosToCharBoundary text r.start :=
      clampPosToCharBoundary_mono (Nat.le_of_not_lt hle)
    omega
  rw [clampRange_eq, clampRange_eq]
  rcases h.before_or_before (hne ha) (hne hb) with hbefore | hafter
  · exact .inl (clampPosToCharBoundary_mono hbefore)
  · exact .inr (clampPosToCharBoundary_mono hafter)

theorem apart_rebuildElements {ranges : List Span} (h : ranges.Pairwise Span.Disjoint) :
    (rebuildElements text id ranges).1.Pairwise fun d e =>
      d.range.Before e.range ∨ e.range.Before d.range := by
  fun_induction rebuildElements text id ranges with
  | case1 => exact Pairwise.nil
  | case2 _ _ _ _ _ ih => exact ih (pairwise_cons.mp h).2
  | case3 id range ranges clamped hempty rest ih =>
    obtain ⟨hrange, hranges⟩ := pairwise_cons.mp h
    refine pairwise_cons.mpr ⟨fun e he => ?_, ih hranges⟩
    obtain ⟨-, hne, range', hmem, heq⟩ := mem_rebuildElements he
    rw [heq] at hne ⊢
    exact apart_clampRange (hrange range' hmem) (Nat.lt_of_not_le hempty) hne

/-- Whatever the area held before, a new text with disjoint ranges is sound. -/
theorem sound_setTextInner (ta : TextArea) (text : Str) (ranges : Option (List Span))
    (h : (ranges.getD []).Pairwise Span.Disjoint) : Sound (ta.setTextInner text ranges) := by
  have hperm := perm_insertionSort (fun d e : TextElement => d.range.start ≤ e.range.start)
    (rebuildElements text ta.nextElementId (ranges.getD [])).1
  have hin : InOrder text (sortElements
      (rebuildElements text ta.nextElementId (ranges.getD [])).1) := by
    refine inOrder_sortElements (apart_rebuildElements text _ h)
      (fun e he => (mem_rebuildElements he).2.1) fun e he => ?_
    obtain ⟨-, -, range, -, heq⟩ := mem_rebuildElements he
    rw [heq, clampRange_eq]
    exact ⟨boundary_clampPosToCharBoundary _ _, boundary_clampPosToCharBoundary _ _⟩
  let replaced : TextArea :=
    { ta with
      text := text
      elements := sortElements (rebuildElements text ta.nextElementId (ranges.getD [])).1
      nextElementId := (rebuildElements text ta.nextElementId (ranges.getD [])).2 }
  have hcursor : InOrder replaced.text replaced.elements := hin
  obtain ⟨hbound, hfree⟩ :=
    clampPosToNearestBoundary_spec hcursor (min ta.cursorPos (utf8Length text))
  exact
    { inOrder := hin
      cursor := hbound
      free := hfree
      ids := (hperm.map (·.id)).nodup_iff.mpr (nodup_rebuildElements _ _ _)
      fresh := fun e he => (mem_rebuildElements (hperm.mem_iff.mp he)).1.2
      wrapped := by simp [setTextInner] }

end CodexRs.Tui.TextArea
