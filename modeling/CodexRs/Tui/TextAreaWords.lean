import CodexRs.Tui.TextAreaPositions

/-!
# Lines and words around the cursor

The ends of the line and of the words next to a position that is a boundary are
boundaries too, and so is the place of the newline that ends a line.
-/
namespace CodexRs.Tui
open CodexRs.Text CodexRs.Base64 CodexRs.ByteText List Option

theorem boundary_of_slice {s y : Str} {p q : ℕ} (h : slice s p q = some y) :
    Boundary s p ∧ Boundary s q := by
  obtain ⟨x, z, rfl, hp, hq⟩ := slice_eq_some.mp h
  exact ⟨⟨x, y ++ z, by simp, hp⟩, ⟨x ++ y, z, rfl, hq⟩⟩

namespace TextArea
variable {seg : Segmentation} {ta : TextArea} {p : ℕ}

theorem beginningOfLine_spec (hp : Boundary ta.text p) :
    ∃ bol, ta.beginningOfLine p = some bol ∧ Boundary ta.text bol ∧ bol ≤ p ∧
      Boundary ta.text (bol - 1) := by
  obtain ⟨x, y, hs, rfl⟩ := hp
  unfold beginningOfLine
  rw [splitAtByte_eq_some.mpr ⟨hs, rfl⟩]
  refine ⟨_, rfl, ?_⟩
  have hx := rdropWhile_append_rtakeWhile (p := fun c => decide (c ≠ '\n')) (l := x)
  have hlast := rdropWhile_last_not (p := fun c => decide (c ≠ '\n')) (l := x)
  generalize x.rdropWhile (fun c => decide (c ≠ '\n')) = u at *
  generalize x.rtakeWhile (fun c => decide (c ≠ '\n')) = v at *
  subst hx
  refine ⟨⟨u, v ++ y, by rw [hs, append_assoc], rfl⟩, by simp, ?_⟩
  rcases eq_nil_or_concat u with rfl | ⟨w, c, rfl⟩
  · exact boundary_zero _
  · -- the part in front of the line ends in a newline
    have hc : c = '\n' := by simpa using hlast (by simp)
    subst hc
    refine ⟨w, '\n' :: (v ++ y), by rw [hs]; simp, ?_⟩
    rw [concat_eq_append, utf8Length_append, utf8Length_cons]
    rfl

theorem endOfLine_spec (hp : Boundary ta.text p) :
    ∃ eol, ta.endOfLine p = some eol ∧ Boundary ta.text eol ∧ p ≤ eol ∧
      (eol < ta.len → Boundary ta.text (eol + 1)) := by
  obtain ⟨x, y, hs, rfl⟩ := hp
  unfold endOfLine
  rw [splitAtByte_eq_some.mpr ⟨hs, rfl⟩]
  refine ⟨_, rfl, ?_⟩
  have hy := takeWhile_append_dropWhile (p := fun c => decide (c ≠ '\n')) (l := y)
  have hhead := head?_dropWhile_not (fun c => decide (c ≠ '\n')) y
  generalize y.takeWhile (fun c => decide (c ≠ '\n')) = u at *
  generalize y.dropWhile (fun c => decide (c ≠ '\n')) = v at *
  subst hy
  refine ⟨⟨x ++ u, v, by rw [hs, append_assoc], utf8Length_append x u⟩, by simp, ?_⟩
  intro hlt
  cases v with
  | nil => simp [len, hs] at hlt
  | cons c w =>
    have hc : c = '\n' := by simpa using hhead
    subst hc
    refine ⟨x ++ u ++ ['\n'], w, by rw [hs]; simp, ?_⟩
    simp only [utf8Length_append]
    rfl

/-! ## Words -/

theorem slice_segmentPieces {text s : Str} {start : ℕ}
    (h : slice text start (start + utf8Length s) = some s) :
    ∀ piece ∈ segmentPieces start s,
      slice text piece.1 (piece.1 + utf8Length piece.2) = some piece.2 := by
  fun_induction segmentPieces start s with
  | case1 => simp
  | case2 start ch rest same _ piece ih =>
    have hsplit : ch :: rest = piece ++ rest.dropWhile same := by
      simp [piece]
    obtain ⟨x, z, ht, hx, hxy⟩ := slice_eq_some.mp h
    rw [hsplit] at ht hxy
    intro q hq
    rcases mem_cons.mp hq with rfl | hq
    · refine slice_eq_some.mpr ⟨x, rest.dropWhile same ++ z, by rw [ht]; simp, hx, ?_⟩
      rw [utf8Length_append, hx]
    · refine ih (slice_eq_some.mpr ⟨x ++ piece, z, by rw [ht]; simp, ?_, ?_⟩) q hq
      · rw [utf8Length_append, hx]
      · simp only [utf8Length_append] at hxy ⊢
        omega

theorem slice_splitWordPieces (hseg : seg.OnBoundaries) (run : Str) :
    ∀ piece ∈ splitWordPieces seg run,
      slice run piece.1 (piece.1 + utf8Length piece.2) = some piece.2 := by
  intro piece hpiece
  obtain ⟨part, hpart, hmem⟩ := mem_flatMap.mp hpiece
  exact slice_segmentPieces (hseg.words run part hpart) piece hmem

theorem mem_of_mem_leadingPieces {pieces : List (ℕ × Str)} {piece : ℕ × Str}
    (h : piece ∈ leadingPieces pieces) : piece ∈ pieces := by
  unfold leadingPieces at h
  split at h
  · simp at h
  · split at h
    · rcases mem_cons.mp h with rfl | h
      · exact mem_cons_self
      · exact mem_cons_of_mem _ ((takeWhile_sublist _).subset h)
    · rw [mem_singleton.mp h]
      exact mem_cons_self

theorem beginningOfPreviousWord_spec (hseg : seg.OnBoundaries) (h : InOrder ta.text ta.elements)
    (hp : Boundary ta.text ta.cursorPos) :
    ∃ start, ta.beginningOfPreviousWord seg = some start ∧ Boundary ta.text start ∧
      start ≤ ta.cursorPos := by
  obtain ⟨x, y, hs, hx⟩ := hp
  unfold beginningOfPreviousWord
  rw [splitAtByte_eq_some.mpr ⟨hs, hx⟩]
  simp only [bind_eq_bind, bind_some]
  have hblank := rdropWhile_append_rtakeWhile (p := isWhitespace) (l := x)
  generalize x.rdropWhile isWhitespace = upTo at *
  generalize x.rtakeWhile isWhitespace = blank at *
  split_ifs with hnil
  · exact ⟨0, rfl, boundary_zero _, Nat.zero_le _⟩
  have hrun := rdropWhile_append_rtakeWhile (p := fun ch => !isWhitespace ch) (l := upTo)
  generalize upTo.rdropWhile (fun ch => !isWhitespace ch) = front at *
  generalize upTo.rtakeWhile (fun ch => !isWhitespace ch) = run at *
  subst hrun hblank
  have hstart : utf8Length (front ++ run) - utf8Length run = utf8Length front := by simp
  rw [hstart]
  have hle : utf8Length front + utf8Length run ≤ ta.cursorPos := by
    simp only [utf8Length_append] at hx
    omega
  have hinside : ∀ i, Boundary run i →
      Boundary ta.text (utf8Length front + i) ∧ utf8Length front + i ≤ ta.cursorPos := by
    intro i hi
    refine ⟨?_, by have := hi.le; omega⟩
    obtain ⟨u, v, rfl, rfl⟩ := hi
    exact ⟨front ++ u, v ++ blank ++ y, by rw [hs]; simp, by simp⟩
  split
  next =>
    obtain ⟨hbound, hfrontle⟩ := hinside 0 (boundary_zero run)
    exact ⟨_, rfl, hbound, hfrontle⟩
  next piece hlast =>
    have hmem : piece ∈ splitWordPieces seg run :=
      mem_reverse.mp (mem_of_mem_leadingPieces (mem_of_getLast? hlast))
    obtain ⟨hbound, hple⟩ :=
      hinside piece.1 (boundary_of_slice (slice_splitWordPieces hseg run piece hmem)).1
    exact ⟨_, rfl, (adjustPosOutOfElements_spec h hbound true).1,
      adjustPosOutOfElements_le.trans hple⟩

theorem endOfNextWord_spec (hseg : seg.OnBoundaries) (h : InOrder ta.text ta.elements)
    (hp : Boundary ta.text ta.cursorPos) :
    ∃ stop, ta.endOfNextWord seg = some stop ∧ Boundary ta.text stop := by
  obtain ⟨x, y, hs, hx⟩ := hp
  unfold endOfNextWord
  rw [splitAtByte_eq_some.mpr ⟨hs, hx⟩]
  simp only [bind_eq_bind, bind_some]
  have hblank := takeWhile_append_dropWhile (p := isWhitespace) (l := y)
  generalize y.takeWhile isWhitespace = blank at *
  generalize y.dropWhile isWhitespace = rest at *
  split_ifs with hnil
  · exact ⟨_, rfl, boundary_length _⟩
  have hrun := takeWhile_append_dropWhile (p := fun ch => !isWhitespace ch) (l := rest)
  generalize rest.takeWhile (fun ch => !isWhitespace ch) = run at *
  generalize rest.dropWhile (fun ch => !isWhitespace ch) = behind at *
  subst hrun hblank
  have hinside : ∀ i, Boundary run i →
      Boundary ta.text (ta.cursorPos + utf8Length blank + i) := by
    rintro i ⟨u, v, rfl, rfl⟩
    exact ⟨x ++ blank ++ u, v ++ behind, by rw [hs]; simp, by simp only [utf8Length_append, hx]⟩
  split
  next => exact ⟨_, rfl, hinside 0 (boundary_zero run)⟩
  next piece hlast =>
    have hmem : piece ∈ splitWordPieces seg run := mem_of_mem_leadingPieces (mem_of_getLast? hlast)
    have hbound := hinside _ (boundary_of_slice (slice_splitWordPieces hseg run piece hmem)).2
    rw [← Nat.add_assoc] at hbound
    exact ⟨_, rfl, (adjustPosOutOfElements_spec h hbound false).1⟩

theorem beginningOfNextWord_isSome (hseg : seg.OnBoundaries) (h : InOrder ta.text ta.elements)
    (hp : Boundary ta.text ta.cursorPos) : ∃ start, ta.beginningOfNextWord seg = some start := by
  obtain ⟨stop, hstop, u, v, htext, hlen⟩ := endOfNextWord_spec hseg h hp
  obtain ⟨x, y, hs, hx⟩ := hp
  unfold beginningOfNextWord
  rw [splitAtByte_eq_some.mpr ⟨hs, hx⟩, hstop]
  simp only [bind_eq_bind, bind_some, splitAtByte_eq_some.mpr ⟨htext, hlen⟩]
  split_ifs <;> exact ⟨_, rfl⟩

end TextArea
end CodexRs.Tui
