import CodexRs.Library.ByteText
import CodexRs.Library.Spans

/-!
# The text area of the composer

Positions are byte positions. A function returns `none` where the source would panic.
-/
namespace CodexRs.Tui
open CodexRs.Text CodexRs.Base64 CodexRs.ByteText

structure TextElement where
  id : ℕ
  range : Span
deriving DecidableEq

inductive KillBufferKind
  | characterwise
  | linewise

structure WrapCache where
  width : ℕ
  lines : List Span

structure TextArea where
  text : Str
  cursorPos : ℕ
  wrapCache : Option WrapCache
  preferredCol : Option ℕ
  elements : List TextElement
  nextElementId : ℕ
  killBuffer : Str
  killBufferKind : KillBufferKind

/-- The segmentation, width and wrapping libraries. A cursor between graphemes answers with an error
where it needs more of the text. -/
structure Segmentation where
  prevBoundary : Str → ℕ → Except Unit (Option ℕ)
  nextBoundary : Str → ℕ → Except Unit (Option ℕ)
  graphemeIndices : Str → List (ℕ × Str)
  splitWordBoundIndices : Str → List (ℕ × Str)
  width : Str → ℕ
  wrapRanges : Str → ℕ → List Span

def wordSeparators : Str := "`~!@#$%^&*()-=+[\x7b]\x7d\\|;:'\",.<>/?".toList

def isWordSeparator (ch : Char) : Bool := wordSeparators.contains ch

/-- Maximal runs of a segment that are all separators or have none. -/
def segmentPieces (start : ℕ) : Str → List (ℕ × Str)
  | [] => []
  | ch :: rest =>
    let same := fun d => isWordSeparator d == isWordSeparator ch
    have := (List.dropWhile_sublist same (l := rest)).length_le
    let piece := ch :: rest.takeWhile same
    (start, piece) :: segmentPieces (start + utf8Length piece) (rest.dropWhile same)
termination_by s => s.length

def splitWordPieces (seg : Segmentation) (run : Str) : List (ℕ × Str) :=
  (seg.splitWordBoundIndices run).flatMap fun part => segmentPieces part.1 part.2

/-! ## Positions -/

def prevCharBoundary (text : Str) : ℕ → ℕ
  | 0 => 0
  | p + 1 => if isCharBoundary text (p + 1) then p + 1 else prevCharBoundary text p

def nextCharBoundary (text : Str) (p : ℕ) : ℕ :=
  if p < utf8Length text ∧ isCharBoundary text p = false then nextCharBoundary text (p + 1) else p
termination_by utf8Length text - p

/-- Rounds to the nearer boundary, to the earlier one if both are as near. -/
def clampPosToCharBoundary (text : Str) (pos : ℕ) : ℕ :=
  let pos := min pos (utf8Length text)
  if isCharBoundary text pos then pos
  else
    let prev := prevCharBoundary text pos
    let next := nextCharBoundary text pos
    if pos - prev ≤ next - pos then prev else next

namespace TextArea

def new : TextArea :=
  { text := [], cursorPos := 0, wrapCache := none, preferredCol := none, elements := [],
    nextElementId := 1, killBuffer := [], killBufferKind := .characterwise }

variable (seg : Segmentation) (ta : TextArea)

def len : ℕ := utf8Length ta.text

variable (pos : ℕ)

def findElementContaining : Option TextElement :=
  ta.elements.find? fun e => e.range.start < pos ∧ pos < e.range.stop

def clampPosToNearestBoundary : ℕ :=
  let pos := clampPosToCharBoundary ta.text pos
  match ta.findElementContaining pos with
  | some e =>
    if pos - e.range.start ≤ e.range.stop - pos then clampPosToCharBoundary ta.text e.range.start
    else clampPosToCharBoundary ta.text e.range.stop
  | none => pos

/-- Written out a second time in the source, with the same body. -/
def clampPosForInsertion : ℕ := ta.clampPosToNearestBoundary pos

variable (range : Span)

def expandRangeToElementBoundaries : Span :=
  Span.grow (ta.elements.map (·.range)) range

def adjustPosOutOfElements (preferStart : Bool) : ℕ :=
  match ta.findElementContaining pos with
  | some e => if preferStart then e.range.start else e.range.stop
  | none => pos

def prevAtomicBoundary : ℕ :=
  if pos = 0 then 0
  else
    match ta.elements.find? fun e => e.range.start < pos ∧ pos ≤ e.range.stop with
    | some e => e.range.start
    | none =>
      match seg.prevBoundary ta.text pos with
      | .ok (some b) => ta.adjustPosOutOfElements b true
      | .ok none => 0
      | .error _ => pos - 1

def nextAtomicBoundary : ℕ :=
  if ta.len ≤ pos then ta.len
  else
    match ta.elements.find? fun e => e.range.start ≤ pos ∧ pos < e.range.stop with
    | some e => e.range.stop
    | none =>
      match seg.nextBoundary ta.text pos with
      | .ok (some b) => ta.adjustPosOutOfElements b false
      | .ok none => ta.len
      | .error _ => pos + 1

def beginningOfLine : Option ℕ := do
  let parts ← splitAtByte ta.text pos
  return utf8Length (parts.1.rdropWhile (· ≠ '\n'))

def endOfLine : Option ℕ := do
  let parts ← splitAtByte ta.text pos
  return pos + utf8Length (parts.2.takeWhile (· ≠ '\n'))

/-- The pieces at the front that are separators, as far as the first piece is one. -/
def leadingPieces (pieces : List (ℕ × Str)) : List (ℕ × Str) :=
  match pieces with
  | [] => []
  | first :: rest =>
    if first.2.all isWordSeparator then
      first :: rest.takeWhile fun piece => piece.2.all isWordSeparator
    else [first]

def beginningOfPreviousWord : Option ℕ := do
  let parts ← splitAtByte ta.text ta.cursorPos
  let upTo := parts.1.rdropWhile isWhitespace
  if upTo = [] then return 0
  let run := upTo.rtakeWhile fun ch => !isWhitespace ch
  let runStart := utf8Length upTo - utf8Length run
  match (leadingPieces (splitWordPieces seg run).reverse).getLast? with
  | none => return runStart
  | some piece => return ta.adjustPosOutOfElements (runStart + piece.1) true

def endOfNextWord : Option ℕ := do
  let parts ← splitAtByte ta.text ta.cursorPos
  let blank := parts.2.takeWhile isWhitespace
  let rest := parts.2.dropWhile isWhitespace
  if rest = [] then return ta.len
  let run := rest.takeWhile fun ch => !isWhitespace ch
  let runStart := ta.cursorPos + utf8Length blank
  match (leadingPieces (splitWordPieces seg run)).getLast? with
  | none => return runStart
  | some piece => return ta.adjustPosOutOfElements (runStart + piece.1 + utf8Length piece.2) false

def beginningOfNextWord : Option ℕ := do
  let parts ← splitAtByte ta.text ta.cursorPos
  let blank := parts.2.takeWhile isWhitespace
  if parts.2.dropWhile isWhitespace = [] then return ta.len
  if blank ≠ [] then return ta.adjustPosOutOfElements (ta.cursorPos + utf8Length blank) true
  let stop ← ta.endOfNextWord seg
  if ta.len ≤ stop then return ta.len
  let rest ← splitAtByte ta.text stop
  if rest.2.dropWhile isWhitespace = [] then return ta.len
  return ta.adjustPosOutOfElements (stop + utf8Length (rest.2.takeWhile isWhitespace)) true

/-! ## Edits -/

variable (at' removed inserted : ℕ)

/-- The element that is left of `e`, in the order of the source: first what was deleted
whole is dropped, then the rest is moved. -/
def shiftElement (e : TextElement) : Option TextElement :=
  let stop := at' + removed
  if at' ≤ e.range.start ∧ e.range.stop ≤ stop then none
  else if e.range.stop ≤ at' then some e
  else if stop ≤ e.range.start then
    some { e with range :=
      ⟨e.range.start - removed + inserted, e.range.stop - removed + inserted⟩ }
  else
    -- an element that is cut is snapped to the new bounds
    some { e with range :=
      ⟨min at' e.range.start, at' + max inserted (e.range.stop - stop)⟩ }

def shiftElements : TextArea :=
  { ta with elements := ta.elements.filterMap (shiftElement at' removed inserted) }

variable (text : Str)

def insertStrAt : Option TextArea := do
  let pos := ta.clampPosForInsertion pos
  let newText ← replaceRange ta.text pos pos text
  let inserted := utf8Length text
  let moved :=
    { ta with
      text := newText
      wrapCache := none
      cursorPos := if pos ≤ ta.cursorPos then ta.cursorPos + inserted else ta.cursorPos }
  return { moved.shiftElements pos 0 inserted with preferredCol := none }

def insertStr : Option TextArea := ta.insertStrAt ta.cursorPos text

def setCursor : TextArea :=
  { ta with
    cursorPos := ta.clampPosToNearestBoundary (min pos ta.len)
    preferredCol := none }

def replaceRangeRaw : Option TextArea := do
  if range.stop < range.start then none
  else
    let start := min range.start ta.len
    let stop := min range.stop ta.len
    let inserted := utf8Length text
    if stop - start = 0 ∧ inserted = 0 then return ta
    let newText ← replaceRange ta.text range.start range.stop text
    let edited :=
      { ta with text := newText, wrapCache := none, preferredCol := none }.shiftElements
        start (stop - start) inserted
    let cursor :=
      if ta.cursorPos < start then ta.cursorPos
      else if ta.cursorPos ≤ stop then start + inserted
      else ta.cursorPos - (stop - start) + inserted
    return { edited with
      cursorPos := edited.clampPosToNearestBoundary (min cursor (utf8Length newText)) }

def replaceRange : Option TextArea :=
  ta.replaceRangeRaw (ta.expandRangeToElementBoundaries range) text

variable (kind : KillBufferKind)

def storeKillBuffer : TextArea :=
  { ta with killBuffer := text, killBufferKind := kind }

def killRangeWithKind : Option TextArea := do
  let range := ta.expandRangeToElementBoundaries range
  if range.stop ≤ range.start then return ta
  let removed ← slice ta.text range.start range.stop
  if removed = [] then return ta
  (ta.storeKillBuffer removed kind).replaceRangeRaw range []

def killRange : Option TextArea := ta.killRangeWithKind range .characterwise

def killLineRange : Option TextArea := ta.killRangeWithKind range .linewise

/-- `n` moves of a boundary function, ended early at the edge of the text. -/
def moveTimes (move : ℕ → ℕ) (atEdge : ℕ → Bool) : ℕ → ℕ → ℕ
  | 0, target => target
  | n + 1, target =>
    if atEdge (move target) then move target else moveTimes move atEdge n (move target)

def deleteBackward (n : ℕ) : Option TextArea :=
  if n = 0 ∨ ta.cursorPos = 0 then some ta
  else
    let target := moveTimes (ta.prevAtomicBoundary seg) (· == 0) n ta.cursorPos
    ta.replaceRange ⟨target, ta.cursorPos⟩ []

def forwardTarget (n : ℕ) : ℕ :=
  moveTimes (ta.nextAtomicBoundary seg) (fun target => decide (ta.len ≤ target)) n ta.cursorPos

def deleteForward (n : ℕ) : Option TextArea :=
  if n = 0 ∨ ta.len ≤ ta.cursorPos then some ta
  else ta.replaceRange ⟨ta.cursorPos, ta.forwardTarget seg n⟩ []

def deleteBackwardWord : Option TextArea := do
  let start ← ta.beginningOfPreviousWord seg
  ta.killRange ⟨start, ta.cursorPos⟩

def deleteForwardWord : Option TextArea := do
  let stop ← ta.endOfNextWord seg
  if ta.cursorPos < stop then ta.killRange ⟨ta.cursorPos, stop⟩ else return ta

def killToEndOfLine : Option TextArea := do
  let eol ← ta.endOfLine ta.cursorPos
  if ta.cursorPos = eol then
    if eol < ta.len then ta.killRange ⟨ta.cursorPos, eol + 1⟩ else return ta
  else ta.killRange ⟨ta.cursorPos, eol⟩

def killToBeginningOfLine : Option TextArea := do
  let bol ← ta.beginningOfLine ta.cursorPos
  if ta.cursorPos = bol then
    if 0 < bol then ta.killRange ⟨bol - 1, bol⟩ else return ta
  else ta.killRange ⟨bol, ta.cursorPos⟩

def currentLineRangeWithNewline : Option Span := do
  let bol ← ta.beginningOfLine ta.cursorPos
  let eol ← ta.endOfLine ta.cursorPos
  return ⟨bol, if eol < ta.len then eol + 1 else eol⟩

def killCurrentLine : Option TextArea := do
  let range ← ta.currentLineRangeWithNewline
  ta.killLineRange range

def yank : Option TextArea :=
  if ta.killBuffer = [] then some ta else ta.insertStr ta.killBuffer

/-! ## Elements -/

def sortElements (elements : List TextElement) : List TextElement :=
  elements.insertionSort fun d e => d.range.start ≤ e.range.start

def addElement : TextArea :=
  { ta with
    elements := sortElements (ta.elements ++ [⟨ta.nextElementId, range⟩])
    nextElementId := ta.nextElementId + 1 }

def clampRange (range : Span) : Span :=
  ⟨clampPosToCharBoundary text (min range.start (utf8Length text)),
    clampPosToCharBoundary text (min range.stop (utf8Length text))⟩

/-- The elements of a new text, numbered from `id` on; empty ranges get no number. -/
def rebuildElements (text : Str) : ℕ → List Span → List TextElement × ℕ
  | id, [] => ([], id)
  | id, range :: ranges =>
    let clamped := clampRange text range
    if clamped.stop ≤ clamped.start then rebuildElements text id ranges
    else
      let rest := rebuildElements text (id + 1) ranges
      (⟨id, clamped⟩ :: rest.1, rest.2)

def setTextInner (elements : Option (List Span)) : TextArea :=
  let rebuilt := rebuildElements text ta.nextElementId (elements.getD [])
  let replaced :=
    { ta with
      text := text
      elements := sortElements rebuilt.1
      nextElementId := rebuilt.2 }
  { replaced with
    cursorPos := replaced.clampPosToNearestBoundary (min ta.cursorPos (utf8Length text))
    wrapCache := none
    preferredCol := none }

def insertElement : Option TextArea := do
  let start := ta.clampPosForInsertion ta.cursorPos
  let inserted ← ta.insertStrAt start text
  let stop := start + utf8Length text
  return (inserted.addElement ⟨start, stop⟩).setCursor stop

/-- The text is left alone, and so is the cursor. -/
def addElementRange : TextArea :=
  let clamped := clampRange ta.text range
  if clamped.stop ≤ clamped.start then ta
  else if ta.elements.any fun e => e.range = clamped then ta
  else if ta.elements.any fun e => decide (clamped.start < e.range.stop ∧
      e.range.start < clamped.stop) then ta
  else ta.addElement clamped

def removeElementRange : TextArea :=
  let clamped := clampRange ta.text range
  if clamped.stop ≤ clamped.start then ta
  else { ta with elements := ta.elements.filter fun e => e.range ≠ clamped }

/-! ## Cursor moves -/

def moveCursorLeft : TextArea :=
  { ta with cursorPos := ta.prevAtomicBoundary seg ta.cursorPos, preferredCol := none }

def moveCursorRight : TextArea :=
  { ta with cursorPos := ta.nextAtomicBoundary seg ta.cursorPos, preferredCol := none }

/-- The first grapheme whose end lies behind the column, by its offset. -/
def graphemeAtCol (width : Str → ℕ) (targetCol : ℕ) : ℕ → List (ℕ × Str) → Option ℕ
  | _, [] => none
  | soFar, (i, g) :: rest =>
    if targetCol < soFar + width g then some i
    else graphemeAtCol width targetCol (soFar + width g) rest

def moveToDisplayColOnLine (line : Span) (targetCol : ℕ) : Option TextArea := do
  let shown ← slice ta.text line.start line.stop
  let pos := match graphemeAtCol seg.width targetCol 0 (seg.graphemeIndices shown) with
    | some i => line.start + i
    | none => line.stop
  return { ta with cursorPos := ta.clampPosToNearestBoundary pos }

def currentDisplayCol : Option ℕ := do
  let bol ← ta.beginningOfLine ta.cursorPos
  let shown ← slice ta.text bol ta.cursorPos
  return seg.width shown

/-- The wrapped line of the cursor: the last that starts at or before it. -/
def wrappedLineIndexByStart (lines : List Span) (pos : ℕ) : Option ℕ :=
  let idx := (lines.takeWhile fun r => r.start ≤ pos).length
  if idx = 0 then none else some (idx - 1)

/-- The column to keep: the preferred one, else that of the cursor from `start` on. -/
def targetColFrom (start : ℕ) : Option ℕ :=
  match ta.preferredCol with
  | some c => some c
  | none => (slice ta.text start ta.cursorPos).map seg.width

def moveToEdge : TextArea := { ta with cursorPos := pos, preferredCol := none }

/-- A move to the wrapped line `next`, or to the edge of the text if there is none. -/
def moveToWrappedLine (current : Span) (next : Option Span) (edge : ℕ) : Option TextArea := do
  let targetCol ← ta.targetColFrom seg current.start
  match next with
  | some line =>
    let kept : TextArea := { ta with preferredCol := some targetCol }
    kept.moveToDisplayColOnLine seg ⟨line.start, line.stop - 1⟩ targetCol
  | none => return ta.moveToEdge edge

def wrappedPosition : Option (List Span × ℕ) := do
  let cache ← ta.wrapCache
  let idx ← wrappedLineIndexByStart cache.lines ta.cursorPos
  return (cache.lines, idx)

def keepPreferredCol : Option (TextArea × ℕ) :=
  match ta.preferredCol with
  | some c => some (ta, c)
  | none => (ta.currentDisplayCol seg).map fun c => ({ ta with preferredCol := some c }, c)

def moveCursorUp : Option TextArea := do
  match ta.wrappedPosition with
  | some (lines, idx) =>
    ta.moveToWrappedLine seg (lines.getD idx ⟨0, 0⟩) (if 0 < idx then lines[idx - 1]? else none) 0
  | none =>
    let bol ← ta.beginningOfLine ta.cursorPos
    -- a line that starts behind 0 is preceded by a newline
    if bol = 0 then return ta.moveToEdge 0
    let (kept, targetCol) ← ta.keepPreferredCol seg
    let start ← ta.beginningOfLine (bol - 1)
    kept.moveToDisplayColOnLine seg ⟨start, bol - 1⟩ targetCol

def moveCursorDown : Option TextArea := do
  match ta.wrappedPosition with
  | some (lines, idx) =>
    ta.moveToWrappedLine seg (lines.getD idx ⟨0, 0⟩) lines[idx + 1]? ta.len
  | none =>
    let (kept, targetCol) ← ta.keepPreferredCol seg
    let eol ← ta.endOfLine ta.cursorPos
    if eol < ta.len then
      let stop ← ta.endOfLine (eol + 1)
      kept.moveToDisplayColOnLine seg ⟨eol + 1, stop⟩ targetCol
    else return ta.moveToEdge ta.len

def moveCursorToBeginningOfLine (moveUpAtBol : Bool) : Option TextArea := do
  let bol ← ta.beginningOfLine ta.cursorPos
  if moveUpAtBol ∧ ta.cursorPos = bol then
    let up ← ta.beginningOfLine (ta.cursorPos - 1)
    return ta.setCursor up
  else return ta.setCursor bol

def moveCursorToEndOfLine (moveDownAtEol : Bool) : Option TextArea := do
  let eol ← ta.endOfLine ta.cursorPos
  if moveDownAtEol ∧ ta.cursorPos = eol then
    let down ← ta.endOfLine (min (ta.cursorPos + 1) ta.len)
    return ta.setCursor down
  else return ta.setCursor eol

/-- Wrapping for display fills the cache unless it holds this width. -/
def wrappedLines (width : ℕ) : TextArea :=
  if ta.wrapCache.any fun cache => cache.width = width then ta
  else { ta with wrapCache := some ⟨width, seg.wrapRanges ta.text width⟩ }

end TextArea

/-! ## Operations -/

inductive Op
  | setText (text : Str) (elements : Option (List Span))
  | insertStr (text : Str)
  | insertStrAt (pos : ℕ) (text : Str)
  | replaceRange (range : Span) (text : Str)
  | insertElement (text : Str)
  | addElementRange (range : Span)
  | deleteBackward (n : ℕ)
  | deleteForward (n : ℕ)
  | deleteBackwardWord
  | deleteForwardWord
  | killToEndOfLine
  | killToBeginningOfLine
  | killCurrentLine
  | yank
  | moveCursorLeft
  | moveCursorRight
  | moveCursorUp
  | moveCursorDown
  | moveCursorToBeginningOfLine (moveUpAtBol : Bool)
  | moveCursorToEndOfLine (moveDownAtEol : Bool)
  | moveWordLeft
  | moveWordRight
  | moveWordForward
  | setCursor (pos : ℕ)
  | wrappedLines (width : ℕ)

def Op.apply (seg : Segmentation) (ta : TextArea) : Op → Option TextArea
  | .setText text elements => some (ta.setTextInner text elements)
  | .insertStr text => ta.insertStr text
  | .insertStrAt pos text => ta.insertStrAt pos text
  | .replaceRange range text => ta.replaceRange range text
  | .insertElement text => ta.insertElement text
  | .addElementRange range => some (ta.addElementRange range)
  | .deleteBackward n => ta.deleteBackward seg n
  | .deleteForward n => ta.deleteForward seg n
  | .deleteBackwardWord => ta.deleteBackwardWord seg
  | .deleteForwardWord => ta.deleteForwardWord seg
  | .killToEndOfLine => ta.killToEndOfLine
  | .killToBeginningOfLine => ta.killToBeginningOfLine
  | .killCurrentLine => ta.killCurrentLine
  | .yank => ta.yank
  | .moveCursorLeft => some (ta.moveCursorLeft seg)
  | .moveCursorRight => some (ta.moveCursorRight seg)
  | .moveCursorUp => ta.moveCursorUp seg
  | .moveCursorDown => ta.moveCursorDown seg
  | .moveCursorToBeginningOfLine up => ta.moveCursorToBeginningOfLine up
  | .moveCursorToEndOfLine down => ta.moveCursorToEndOfLine down
  | .moveWordLeft => (ta.beginningOfPreviousWord seg).map ta.setCursor
  | .moveWordRight => (ta.endOfNextWord seg).map ta.setCursor
  | .moveWordForward => (ta.beginningOfNextWord seg).map ta.setCursor
  | .setCursor pos => some (ta.setCursor pos)
  | .wrappedLines width => some (ta.wrappedLines seg width)

end CodexRs.Tui
