import CodexRs.Library.Run
import CodexRs.Tui.TextAreaRebuild
import CodexRs.Tui.TextAreaWords

/-!
# Runs of the text area

All operations keep a text area sound, except that marking a range may close an element around the
cursor.
-/
namespace CodexRs.Tui
open CodexRs.Text CodexRs.Base64 CodexRs.ByteText List Option TextArea

namespace TextArea
variable {seg : Segmentation} {ta : TextArea}

/-! ## Cursor moves -/

theorem safe_moved (h : Sound ta) {p : ℕ} (hp : Boundary ta.text p ∧ Free ta.elements p)
    (col : Option ℕ) : Safe ta [] (some { ta with cursorPos := p, preferredCol := col }) :=
  ⟨_, rfl, h.moved hp.1 hp.2 col, atomic_moved ta p col⟩

theorem safe_setCursor (h : Sound ta) (p : ℕ) : Safe ta [] (some (ta.setCursor p)) :=
  safe_moved h (clampPosToNearestBoundary_spec h.inOrder _) none

theorem safe_moveToEdge (h : Sound ta) {p : ℕ} (hp : Boundary ta.text p ∧ Free ta.elements p) :
    Safe ta [] (some (ta.moveToEdge p)) :=
  safe_moved h hp none

/-- A move to a column of a line, with any column remembered on the way. -/
theorem safe_moveToDisplayColOnLine (h : Sound ta) {line : Span} (hline : Cut ta.text line)
    (col : Option ℕ) (targetCol : ℕ) :
    Safe ta [] ({ ta with preferredCol := col }.moveToDisplayColOnLine seg line targetCol) := by
  obtain ⟨shown, hshown⟩ := exists_slice hline.start hline.stop hline.le
  unfold moveToDisplayColOnLine
  rw [hshown]
  exact safe_moved h (clampPosToNearestBoundary_spec h.inOrder _) col

theorem targetColFrom_isSome (seg : Segmentation) (h : Sound ta) {start : ℕ} (hstart : Boundary ta.text start)
    (hle : start ≤ ta.cursorPos) : ∃ col, ta.targetColFrom seg start = some col := by
  unfold targetColFrom
  split
  · exact ⟨_, rfl⟩
  · obtain ⟨shown, hshown⟩ := exists_slice hstart h.cursor hle
    rw [hshown]
    exact ⟨_, rfl⟩

theorem keepPreferredCol_eq (seg : Segmentation) (h : Sound ta) :
    ∃ col, ta.keepPreferredCol seg = some ({ ta with preferredCol := some col }, col) := by
  unfold keepPreferredCol
  split
  next col hcol =>
    refine ⟨col, ?_⟩
    rw [← hcol]
  next =>
    obtain ⟨bol, hbol, hbound, hle, -⟩ := beginningOfLine_spec h.cursor
    obtain ⟨shown, hshown⟩ := exists_slice hbound h.cursor hle
    refine ⟨seg.width shown, ?_⟩
    simp [currentDisplayCol, hbol, hshown]

/-- The last item a search went over is one of the list that it accepts. -/
theorem getD_length_takeWhile {α : Type*} {accept : α → Bool} {l : List α} (d : α)
    (h : (l.takeWhile accept).length ≠ 0) :
    l.getD ((l.takeWhile accept).length - 1) d ∈ l ∧
      accept (l.getD ((l.takeWhile accept).length - 1) d) = true := by
  have hlt : (l.takeWhile accept).length - 1 < (l.takeWhile accept).length := by omega
  have hget : l.getD ((l.takeWhile accept).length - 1) d =
      (l.takeWhile accept).getD ((l.takeWhile accept).length - 1) d := by
    have happend := getD_append (l.takeWhile accept) (l.dropWhile accept) d _ hlt
    rwa [takeWhile_append_dropWhile] at happend
  have hmem : l.getD ((l.takeWhile accept).length - 1) d ∈ l.takeWhile accept := by
    rw [hget, getD_eq_getElem _ _ hlt]
    exact getElem_mem hlt
  exact ⟨(takeWhile_sublist _).subset hmem, mem_takeWhile_imp hmem⟩

section
variable (h : Sound ta)
include h

/-- The wrapped line of the cursor starts at or before it. -/
theorem wrappedPosition_spec {lines : List Span} {idx : ℕ}
    (hpos : ta.wrappedPosition = some (lines, idx)) :
    LinesFit ta.text lines ∧ lines.getD idx ⟨0, 0⟩ ∈ lines ∧
      (lines.getD idx ⟨0, 0⟩).start ≤ ta.cursorPos := by
  simp only [wrappedPosition, bind_eq_bind, bind_eq_some_iff] at hpos
  obtain ⟨cache, hcache, i, hidx, rfl, rfl⟩ := hpos
  refine ⟨h.wrapped cache hcache, ?_⟩
  unfold wrappedLineIndexByStart at hidx
  dsimp only at hidx
  split_ifs at hidx with hzero
  obtain rfl := some.inj hidx
  obtain ⟨hmem, hstart⟩ := getD_length_takeWhile (⟨0, 0⟩ : Span) hzero
  exact ⟨hmem, of_decide_eq_true hstart⟩

theorem safe_moveToWrappedLine {lines : List Span} {idx edge : ℕ}
    (hpos : ta.wrappedPosition = some (lines, idx)) {next : Option Span}
    (hnext : ∀ line ∈ next, line ∈ lines) (hedge : Boundary ta.text edge ∧ Free ta.elements edge) :
    Safe ta [] (ta.moveToWrappedLine seg (lines.getD idx ⟨0, 0⟩) next edge) := by
  obtain ⟨hfit, hmem, hle⟩ := wrappedPosition_spec h hpos
  obtain ⟨col, hcol⟩ := targetColFrom_isSome seg h (hfit.2 _ hmem).2.1 hle
  unfold moveToWrappedLine
  rw [hcol]
  cases next with
  | none => exact safe_moveToEdge h hedge
  | some line =>
    obtain ⟨hline, hstart, hstop⟩ := hfit.2 line (hnext line rfl)
    have hcut : Cut ta.text ⟨line.start, line.stop - 1⟩ := ⟨hline, hstart, hstop⟩
    exact safe_moveToDisplayColOnLine h hcut (some col) col

theorem safe_moveCursorUp : Safe ta [] (ta.moveCursorUp seg) := by
  unfold moveCursorUp
  split
  next lines idx hpos =>
    refine safe_moveToWrappedLine h hpos (fun line hline => ?_) ⟨boundary_zero _, free_zero _⟩
    split_ifs at hline
    · exact mem_of_getElem? hline
    · cases hline
  next =>
    obtain ⟨bol, hbol, hbound, -, hbefore⟩ := beginningOfLine_spec h.cursor
    obtain ⟨start, hstart, hsbound, hsle, -⟩ := beginningOfLine_spec hbefore
    obtain ⟨col, hkept⟩ := keepPreferredCol_eq seg h
    rw [hbol]
    simp only [bind_eq_bind, bind_some, hkept, hstart]
    split_ifs with hfirst
    · exact safe_moveToEdge h ⟨boundary_zero _, free_zero _⟩
    · exact safe_moveToDisplayColOnLine h ⟨hsle, hsbound, hbefore⟩ (some col) col

theorem safe_moveCursorDown : Safe ta [] (ta.moveCursorDown seg) := by
  have hedge : Boundary ta.text ta.len ∧ Free ta.elements ta.len :=
    ⟨boundary_length _, free_len h.inOrder⟩
  unfold moveCursorDown
  split
  next lines idx hpos =>
    exact safe_moveToWrappedLine h hpos (fun line hline => mem_of_getElem? hline) hedge
  next =>
    obtain ⟨eol, heol, hbound, -, hnewline⟩ := endOfLine_spec h.cursor
    obtain ⟨col, hkept⟩ := keepPreferredCol_eq seg h
    rw [hkept]
    simp only [bind_eq_bind, bind_some, heol]
    split_ifs with hlast
    · obtain ⟨stop, hstop, hsbound, hsle, -⟩ := endOfLine_spec (hnewline hlast)
      rw [hstop]
      exact safe_moveToDisplayColOnLine h ⟨hsle, hnewline hlast, hsbound⟩ (some col) col
    · exact safe_moveToEdge h hedge

theorem safe_moveCursorToBeginningOfLine (up : Bool) :
    Safe ta [] (ta.moveCursorToBeginningOfLine up) := by
  obtain ⟨bol, hbol, -, -, hbefore⟩ := beginningOfLine_spec h.cursor
  obtain ⟨above, habove, -⟩ := beginningOfLine_spec hbefore
  unfold moveCursorToBeginningOfLine
  rw [hbol]
  simp only [bind_eq_bind, bind_some]
  split_ifs with hup
  · rw [hup.2, habove]
    exact safe_setCursor h above
  · exact safe_setCursor h bol

theorem safe_moveCursorToEndOfLine (down : Bool) : Safe ta [] (ta.moveCursorToEndOfLine down) := by
  obtain ⟨eol, heol, -, -, hnewline⟩ := endOfLine_spec h.cursor
  unfold moveCursorToEndOfLine
  rw [heol]
  simp only [bind_eq_bind, bind_some]
  split_ifs with hdown
  · have hnext : Boundary ta.text (min (ta.cursorPos + 1) ta.len) := by
      rcases Nat.lt_or_ge eol ta.len with hlt | hge
      · rw [hdown.2, min_eq_left hlt]
        exact hnewline hlt
      · rw [min_eq_right (by omega)]
        exact boundary_length _
    obtain ⟨below, hbelow, -⟩ := endOfLine_spec hnext
    rw [hbelow]
    exact safe_setCursor h below
  · exact safe_setCursor h eol

end

/-! ## Deletions -/

/-- Repeated moves keep what each of them keeps. -/
theorem moveTimes_invariant {I : ℕ → Prop} {move : ℕ → ℕ} (hmove : ∀ p, I p → I (move p))
    (atEdge : ℕ → Bool) (n : ℕ) {p : ℕ} (hp : I p) : I (moveTimes move atEdge n p) := by
  induction n generalizing p with
  | zero => exact hp
  | succ n ih =>
    unfold moveTimes
    split
    · exact hmove p hp
    · exact ih (hmove p hp)

section
variable (hseg : seg.OnBoundaries)
include hseg

theorem safe_deleteBackward (h : Sound ta) (n : ℕ) : Safe ta [] (ta.deleteBackward seg n) := by
  unfold deleteBackward
  split_ifs
  · exact safe_self h
  have htarget := moveTimes_invariant
    (I := fun p => Boundary ta.text p ∧ p ≤ ta.cursorPos)
    (fun p hp => by
      obtain ⟨⟨hbound, -⟩, hle⟩ := prevAtomicBoundary_spec hseg h.inOrder hp.1
      exact ⟨hbound, hle.trans hp.2⟩) (· == 0) n ⟨h.cursor, le_rfl⟩
  exact replaceRange_spec h ⟨htarget.2, htarget.1, h.cursor⟩ []

theorem safe_deleteForward (h : Sound ta) (n : ℕ) : Safe ta [] (ta.deleteForward seg n) := by
  unfold deleteForward
  split_ifs
  · exact safe_self h
  have htarget := moveTimes_invariant
    (I := fun p => Boundary ta.text p ∧ ta.cursorPos ≤ p)
    (fun p hp => by
      obtain ⟨⟨hbound, -⟩, hle⟩ := nextAtomicBoundary_spec hseg h.inOrder hp.1
      exact ⟨hbound, hp.2.trans hle⟩) (fun target => decide (ta.len ≤ target)) n
      ⟨h.cursor, le_rfl⟩
  exact replaceRange_spec h ⟨htarget.2, h.cursor, htarget.1⟩ []

theorem safe_deleteBackwardWord (h : Sound ta) : Safe ta [] (ta.deleteBackwardWord seg) := by
  obtain ⟨start, hstart, hbound, hle⟩ := beginningOfPreviousWord_spec hseg h.inOrder h.cursor
  unfold deleteBackwardWord
  rw [hstart]
  exact killRangeWithKind_spec h ⟨hle, hbound, h.cursor⟩ .characterwise

theorem safe_deleteForwardWord (h : Sound ta) : Safe ta [] (ta.deleteForwardWord seg) := by
  obtain ⟨stop, hstop, hbound⟩ := endOfNextWord_spec hseg h.inOrder h.cursor
  unfold deleteForwardWord
  rw [hstop]
  simp only [bind_eq_bind, bind_some]
  split_ifs with hlt
  · exact killRangeWithKind_spec h ⟨hlt.le, h.cursor, hbound⟩ .characterwise
  · exact safe_self h

end

theorem safe_killToEndOfLine (h : Sound ta) : Safe ta [] ta.killToEndOfLine := by
  obtain ⟨eol, heol, hbound, hle, hnewline⟩ := endOfLine_spec h.cursor
  unfold killToEndOfLine
  rw [heol]
  simp only [bind_eq_bind, bind_some]
  split_ifs with hat hlt
  · exact killRangeWithKind_spec h ⟨hle.trans (Nat.le_succ _), h.cursor, hnewline hlt⟩
      .characterwise
  · exact safe_self h
  · exact killRangeWithKind_spec h ⟨hle, h.cursor, hbound⟩ .characterwise

theorem safe_killToBeginningOfLine (h : Sound ta) : Safe ta [] ta.killToBeginningOfLine := by
  obtain ⟨bol, hbol, hbound, hle, hbefore⟩ := beginningOfLine_spec h.cursor
  unfold killToBeginningOfLine
  rw [hbol]
  simp only [bind_eq_bind, bind_some]
  split_ifs with hat hpos
  · exact killRangeWithKind_spec h ⟨Nat.sub_le _ _, hbefore, hbound⟩ .characterwise
  · exact safe_self h
  · exact killRangeWithKind_spec h ⟨hle, hbound, h.cursor⟩ .characterwise

theorem safe_killCurrentLine (h : Sound ta) : Safe ta [] ta.killCurrentLine := by
  obtain ⟨bol, hbol, hbound, hle, -⟩ := beginningOfLine_spec h.cursor
  obtain ⟨eol, heol, hebound, hele, hnewline⟩ := endOfLine_spec h.cursor
  have hcut : Cut ta.text ⟨bol, if eol < ta.len then eol + 1 else eol⟩ := by
    split_ifs with hlt
    · exact ⟨(hle.trans hele).trans (Nat.le_succ _), hbound, hnewline hlt⟩
    · exact ⟨hle.trans hele, hbound, hebound⟩
  unfold killCurrentLine currentLineRangeWithNewline
  rw [hbol, heol]
  exact killRangeWithKind_spec h hcut .linewise

theorem safe_yank (h : Sound ta) : Safe ta ta.killBuffer ta.yank := by
  unfold yank
  split_ifs with hempty
  · rw [hempty]
    exact safe_self h
  · exact insertStrAt_spec h ta.cursorPos ta.killBuffer

/-- Wrapping for display touches only the cache. -/
theorem safe_wrappedLines (hseg : seg.OnBoundaries) (h : Sound ta) {width : ℕ}
    (hwidth : 0 < width) : Safe ta [] (some (ta.wrappedLines seg width)) := by
  unfold wrappedLines
  split_ifs
  · exact safe_self h
  · refine ⟨_, rfl, { h with wrapped := ?_ }, atomic_of_text_eq rfl fun _ he => he⟩
    intro cache hcache
    obtain rfl := some.inj hcache
    exact hseg.wrapped ta.text width hwidth

end TextArea

/-! ## Operations and runs -/

namespace Op

/-- Given element ranges are disjoint, a replaced range is one of the text, an inserted element has
a text and lines are wrapped to some width. -/
def Allowed (ta : TextArea) : Op → Prop
  | .setText _ elements => (elements.getD []).Pairwise Span.Disjoint
  | .replaceRange range _ => Cut ta.text range
  | .insertElement text => text ≠ []
  | .wrappedLines width => 0 < width
  | _ => True

/-- A range is marked only where it does not close around the cursor. -/
def KeepsCursorOut (ta : TextArea) : Op → Prop
  | .addElementRange range => ta.KeepsCursorOut range
  | _ => True

def isSetText : Op → Bool
  | .setText _ _ => true
  | _ => false

/-- What an operation puts into the text; whatever else it changes is taken out. -/
def inserted (ta : TextArea) : Op → Str
  | .insertStr text | .insertStrAt _ text | .replaceRange _ text | .insertElement text => text
  | .yank => ta.killBuffer
  | _ => []

instance (ta : TextArea) (op : Op) : Decidable (op.Allowed ta) := by
  cases op <;> dsimp only [Allowed] <;> infer_instance

instance (ta : TextArea) (op : Op) : Decidable (op.KeepsCursorOut ta) := by
  cases op <;> dsimp only [KeepsCursorOut] <;> infer_instance

variable {seg : Segmentation} {ta : TextArea}

/-- The operation does not panic, leaves the text area sound unless it marks a range around the
cursor, and takes no element apart unless it sets a new text. -/
def Succeeds (op : Op) (ta : TextArea) (result : Option TextArea) : Prop :=
  ∃ ta', result = some ta' ∧ (ta'.Sound ↔ op.KeepsCursorOut ta) ∧
    (op.isSetText = false → ta.Atomic (op.inserted ta) ta')

theorem apply_spec (hseg : seg.OnBoundaries) (h : ta.Sound) (op : Op) (hop : op.Allowed ta) :
    op.Succeeds ta (op.apply seg ta) := by
  have hsafe : ∀ {result}, op.KeepsCursorOut ta → ta.Safe (op.inserted ta) result →
      op.Succeeds ta result := by
    rintro result hkeeps ⟨ta', heq, hsound, hatomic⟩
    exact ⟨ta', heq, iff_of_true hsound hkeeps, fun _ => hatomic⟩
  cases op with
  | setText text elements =>
    exact ⟨_, rfl, iff_of_true (ta.sound_setTextInner text elements hop) trivial, nofun⟩
  | addElementRange range =>
    exact ⟨_, rfl, sound_addElementRange_iff h range, fun _ => ta.atomic_addElementRange range⟩
  | insertStr text => exact hsafe trivial (insertStrAt_spec h ta.cursorPos text)
  | insertStrAt pos text => exact hsafe trivial (insertStrAt_spec h pos text)
  | replaceRange range text => exact hsafe trivial (replaceRange_spec h hop text)
  | insertElement text => exact hsafe trivial (insertElement_spec h hop)
  | deleteBackward n => exact hsafe trivial (safe_deleteBackward hseg h n)
  | deleteForward n => exact hsafe trivial (safe_deleteForward hseg h n)
  | deleteBackwardWord => exact hsafe trivial (safe_deleteBackwardWord hseg h)
  | deleteForwardWord => exact hsafe trivial (safe_deleteForwardWord hseg h)
  | killToEndOfLine => exact hsafe trivial (safe_killToEndOfLine h)
  | killToBeginningOfLine => exact hsafe trivial (safe_killToBeginningOfLine h)
  | killCurrentLine => exact hsafe trivial (safe_killCurrentLine h)
  | yank => exact hsafe trivial (safe_yank h)
  | moveCursorLeft =>
    exact hsafe trivial (safe_moved h (prevAtomicBoundary_spec hseg h.inOrder h.cursor).1 none)
  | moveCursorRight =>
    exact hsafe trivial (safe_moved h (nextAtomicBoundary_spec hseg h.inOrder h.cursor).1 none)
  | moveCursorUp => exact hsafe trivial (safe_moveCursorUp h)
  | moveCursorDown => exact hsafe trivial (safe_moveCursorDown h)
  | moveCursorToBeginningOfLine up =>
    exact hsafe trivial (safe_moveCursorToBeginningOfLine h up)
  | moveCursorToEndOfLine down =>
    exact hsafe trivial (safe_moveCursorToEndOfLine h down)
  | moveWordLeft =>
    obtain ⟨p, hp, -⟩ := beginningOfPreviousWord_spec hseg h.inOrder h.cursor
    rw [apply, hp]
    exact hsafe trivial (safe_setCursor h p)
  | moveWordRight =>
    obtain ⟨p, hp, -⟩ := endOfNextWord_spec hseg h.inOrder h.cursor
    rw [apply, hp]
    exact hsafe trivial (safe_setCursor h p)
  | moveWordForward =>
    obtain ⟨p, hp⟩ := beginningOfNextWord_isSome hseg h.inOrder h.cursor
    rw [apply, hp]
    exact hsafe trivial (safe_setCursor h p)
  | setCursor pos => exact hsafe trivial (safe_setCursor h pos)
  | wrappedLines width => exact hsafe trivial (safe_wrappedLines hseg h hop)

end Op

def runOps (seg : Segmentation) (ta : TextArea) (ops : List Op) : Option TextArea :=
  ops.foldlM (Op.apply seg) ta

/-- Every operation of the run is allowed where it is reached and meets the condition. -/
def StepsMeet (seg : Segmentation) (condition : TextArea → Op → Prop) (ta : TextArea)
    (ops : List Op) : Prop :=
  Machine.Along (Op.apply seg) (fun ta op => op.Allowed ta ∧ condition ta op) ta ops

instance (seg : Segmentation) (condition : TextArea → Op → Prop)
    [∀ ta op, Decidable (condition ta op)] (ta : TextArea) (ops : List Op) :
    Decidable (StepsMeet seg condition ta ops) :=
  inferInstanceAs (Decidable (Machine.Along _ _ ta ops))

/-- Where no range is marked around the cursor nothing panics, the cursor cuts no element and
elements are in order; what comes next keeps or takes an element whole. -/
theorem elements_atomic {seg : Segmentation} (hseg : seg.OnBoundaries) {ops : List Op}
    (hops : StepsMeet seg (fun ta op => op.KeepsCursorOut ta) TextArea.new ops) :
    ∃ ta, runOps seg TextArea.new ops = some ta ∧ ta.Sound ∧
      ∀ op : Op, op.Allowed ta → op.Succeeds ta (op.apply seg ta) := by
  obtain ⟨ta, hrun, hsound⟩ := by
    refine Machine.Along.exists_foldlM (fun ta op hta hop => ?_) hops sound_new
    obtain ⟨next, hnext, hsound, -⟩ := op.apply_spec hseg hta hop.1
    exact ⟨next, hnext, hsound.mpr hop.2⟩
  exact ⟨ta, hrun, hsound, fun op hop => op.apply_spec hseg hsound hop⟩

/-! ## A segmentation by characters -/

/-- Graphemes and words of a text without combining characters, shown on one line. -/
def charSegmentation : Segmentation where
  prevBoundary text p := .ok (if p = 0 then none else some (prevCharBoundary text (p - 1)))
  nextBoundary text p :=
    .ok (if p < utf8Length text then some (nextCharBoundary text (p + 1)) else none)
  graphemeIndices text :=
    ((range text.length).map fun i => utf8Length (text.take i)).zip (text.map ([·]))
  splitWordBoundIndices run := [(0, run)]
  width := length
  wrapRanges text _ := [⟨0, utf8Length text + 1⟩]

theorem charSegmentation_onBoundaries : charSegmentation.OnBoundaries where
  prev text p _ := by
    refine ⟨_, rfl, fun b hb => ?_⟩
    obtain ⟨-, hsome⟩ := ite_none_left_eq_some.mp hb
    obtain rfl := some.inj hsome
    obtain ⟨hbound, hle, -⟩ := prevCharBoundary_spec text (p - 1)
    exact ⟨hbound, hle.trans (Nat.sub_le _ _)⟩
  next text p _ := by
    refine ⟨_, rfl, fun b hb => ?_⟩
    obtain ⟨hlt, hsome⟩ := ite_none_right_eq_some.mp hb
    obtain rfl := some.inj hsome
    obtain ⟨hbound, hle, -⟩ := nextCharBoundary_spec hlt
    exact ⟨hbound, (Nat.le_succ p).trans hle⟩
  words run w hw := by
    obtain rfl := mem_singleton.mp hw
    exact slice_eq_some.mpr ⟨[], [], by simp, rfl, by simp⟩
  wrapped text width _ := by
    refine ⟨pairwise_singleton _ _, fun l hl => ?_⟩
    obtain rfl := mem_singleton.mp hl
    exact ⟨Nat.zero_le _, boundary_zero _, boundary_length text⟩

/-- A command is marked behind the cursor, text is inserted into it, which goes in front
of it, and a deletion reaches it. -/
def deletedCommand : List Op :=
  [.setText "/plan x".toList none, .setCursor 6, .addElementRange ⟨0, 5⟩,
    .insertStrAt 2 "é".toList, .deleteBackward 2]

theorem elements_atomic_deletedCommand :
    ∃ ta, runOps charSegmentation TextArea.new deletedCommand = some ta ∧ ta.Sound ∧
      ta.text = "éx".toList ∧ ta.elements = [] ∧
      ∀ op : Op, op.Allowed ta → op.Succeeds ta (op.apply charSegmentation ta) := by
  have hmeet : StepsMeet charSegmentation (fun ta op => op.KeepsCursorOut ta) new
      deletedCommand := by decide +kernel
  have hresult : (runOps charSegmentation new deletedCommand).map
      (fun ta => (ta.text, ta.elements)) = some ("éx".toList, []) := by decide +kernel
  obtain ⟨ta, hrun, hsound, hnext⟩ := elements_atomic charSegmentation_onBoundaries hmeet
  rw [hrun] at hresult
  obtain ⟨htext, helements⟩ := Prod.mk.inj (some.inj hresult)
  exact ⟨ta, hrun, hsound, htext, helements, hnext⟩

/-- A command name is completed inside the word and then marked. -/
def completedCommand : List Op :=
  [.setText "/pln x".toList none, .setCursor 3, .insertStr "a".toList, .addElementRange ⟨0, 5⟩]

/-- The cursor is left inside the new element, and what is typed next comes out in reverse
behind it. -/
theorem cursor_inside_completedCommand :
    StepsMeet charSegmentation (fun _ _ => True) TextArea.new completedCommand ∧
    (∃ ta, runOps charSegmentation TextArea.new completedCommand = some ta ∧
      ∃ e ∈ ta.elements, Span.Cuts ta.cursorPos e.range) ∧
    (runOps charSegmentation TextArea.new
      (completedCommand ++ [.insertStr "q".toList, .insertStr "r".toList])).map (·.text) =
      some "/planrq x".toList := by
  refine ⟨by decide +kernel, ⟨_, rfl, ⟨1, ⟨0, 5⟩⟩, mem_cons_self, ?_⟩, by decide +kernel⟩
  decide

end CodexRs.Tui
