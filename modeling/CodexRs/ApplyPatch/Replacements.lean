import CodexRs.ApplyPatch.Parser
import CodexRs.Library.Splice

/-!
# Replacements that an update makes in a file

The lines of a chunk are sought with decreasing strictness, each time at every position from the
start on. Replacements are sorted by their starts and applied from the back, line by line.
-/
namespace CodexRs.ApplyPatch
open Text Splice List

section

def normaliseChar (c : Char) : Char :=
  let n := c.toNat
  if (0x2010 ≤ n && n ≤ 0x2015) || n == 0x2212 then '-'
  else if 0x2018 ≤ n && n ≤ 0x201B then '\''
  else if 0x201C ≤ n && n ≤ 0x201F then '"'
  else if n == 0xA0 || (0x2002 ≤ n && n ≤ 0x200A) || n == 0x202F || n == 0x205F || n == 0x3000 then
    ' '
  else c

def normalise (s : Str) : Str := (trim s).map normaliseChar

/-- The pattern stands at position `i`, compared after `f` has been applied to each line. -/
def matchesAt (f : Str → Str) (lines pattern : List Str) (i : ℕ) : Bool :=
  ((lines.drop i).take pattern.length).map f = pattern.map f

/-- One pass over the positions from `searchStart` to the last one with room for the pattern. -/
def seekPass (f : Str → Str) (lines pattern : List Str) (searchStart : ℕ) : Option ℕ :=
  (List.range' searchStart (lines.length - pattern.length + 1 - searchStart)).find?
    (matchesAt f lines pattern)

/-- The four passes, from the strictest on. -/
def seekFrom (lines pattern : List Str) (searchStart : ℕ) : Option ℕ :=
  seekPass id lines pattern searchStart <|> seekPass trimEnd lines pattern searchStart <|>
    seekPass trim lines pattern searchStart <|> seekPass normalise lines pattern searchStart

def seekSequence (lines pattern : List Str) (start : ℕ) (eof : Bool) : Option ℕ :=
  if pattern.isEmpty then some start
  else if lines.length < pattern.length then none
  else if eof && decide (pattern.length ≤ lines.length) then
    seekFrom lines pattern (lines.length - pattern.length)
  else seekFrom lines pattern start

variable {lines pattern : List Str} {start i : ℕ} {eof : Bool}

theorem seekPass_bounds {f : Str → Str} (h : seekPass f lines pattern start = some i) :
    start ≤ i ∧ i ≤ lines.length - pattern.length := by
  have hm := List.mem_of_find?_eq_some h
  rw [List.mem_range'_1] at hm
  omega

theorem seekFrom_bounds (h : seekFrom lines pattern start = some i) :
    start ≤ i ∧ i ≤ lines.length - pattern.length := by
  simp only [seekFrom, Option.orElse_eq_orElse, Option.orElse_eq_or, Option.or_eq_some_iff] at h
  rcases h with h | ⟨-, h | ⟨-, h | ⟨-, h⟩⟩⟩ <;> exact seekPass_bounds h

/-- A pattern is found behind the start, with room for its lines. At the end of the file only one
position is tried. -/
theorem seekSequence_bounds (h : seekSequence lines pattern start eof = some i)
    (hp : pattern ≠ []) :
    i + pattern.length ≤ lines.length ∧ (eof = false → start ≤ i) ∧
      (eof = true → i + pattern.length = lines.length) := by
  rw [seekSequence, if_neg (by simpa using hp)] at h
  by_cases hlen : lines.length < pattern.length
  · rw [if_pos hlen] at h
    cases h
  · rw [if_neg hlen] at h
    cases eof with
    | false =>
      have hb := seekFrom_bounds h
      exact ⟨by omega, fun _ => hb.1, by simp⟩
    | true =>
      rw [if_pos (by simpa using hlen)] at h
      have hb := seekFrom_bounds h
      exact ⟨by omega, by simp, fun _ => by omega⟩

@[simp] theorem seekSequence_nil : seekSequence lines [] start eof = some start := rfl

end

abbrev Replacement := Edit Str

structure ReplacementState where
  lineIndex : ℕ
  replacements : List Replacement
deriving DecidableEq

def failedContextMessage (context path : Str) : Str :=
  "Failed to find context '".toList ++ context ++ "' in ".toList ++ path

def failedLinesMessage (path : Str) (oldLines : List Str) : Str :=
  "Failed to find expected lines in ".toList ++ path ++ ":\n".toList ++ joinLines oldLines

/-- The line index behind the context line of a chunk. -/
def seekContext (lines : List Str) (path : Str) (lineIndex : ℕ) (chunk : UpdateFileChunk) :
    Except Str ℕ :=
  match chunk.changeContext with
  | none => .ok lineIndex
  | some context =>
    match seekSequence lines [context] lineIndex false with
    | some idx => .ok (idx + 1)
    | none => .error (failedContextMessage context path)

/-- Where a pure addition goes: to the end, or before an empty last line. -/
def insertionIndex (lines : List Str) : ℕ :=
  if lines.getLast? = some [] then lines.length - 1 else lines.length

def dropEmptyEnd (lines : List Str) : List Str :=
  if lines.getLast? = some [] then lines.dropLast else lines

/-- The place of the old lines, all or all but an empty last one, with the lines that replace them.
-/
def locate (lines : List Str) (lineIndex : ℕ) (chunk : UpdateFileChunk) :
    Option (ℕ × List Str × List Str) :=
  match seekSequence lines chunk.oldLines lineIndex chunk.isEndOfFile with
  | some start => some (start, chunk.oldLines, chunk.newLines)
  | none =>
    if chunk.oldLines.getLast? = some [] then
      (seekSequence lines chunk.oldLines.dropLast lineIndex chunk.isEndOfFile).map
        fun start => (start, chunk.oldLines.dropLast, dropEmptyEnd chunk.newLines)
    else none

def scheduleChunk (lines : List Str) (path : Str) (s : ReplacementState)
    (chunk : UpdateFileChunk) : Except Str ReplacementState :=
  match seekContext lines path s.lineIndex chunk with
  | .error e => .error e
  | .ok lineIndex =>
    if chunk.oldLines.isEmpty then
      .ok ⟨lineIndex, s.replacements ++ [⟨insertionIndex lines, 0, chunk.newLines⟩]⟩
    else match locate lines lineIndex chunk with
      | some (start, pattern, newSlice) =>
        .ok ⟨start + pattern.length, s.replacements ++ [⟨start, pattern.length, newSlice⟩]⟩
      | none => .error (failedLinesMessage path chunk.oldLines)

/-- The replacements of all chunks, in the order of the chunks. -/
def scheduleReplacements (lines : List Str) (path : Str) (chunks : List UpdateFileChunk) :
    Except Str ReplacementState :=
  chunks.foldlM (scheduleChunk lines path) ⟨0, []⟩

/-- An error is the message of a `ComputeReplacements` error. -/
def computeReplacements (lines : List Str) (path : Str) (chunks : List UpdateFileChunk) :
    Except Str (List Replacement) :=
  match scheduleReplacements lines path chunks with
  | .error e => .error e
  | .ok s => .ok (sortEdits s.replacements)

def removeLines (start : ℕ) : ℕ → List Str → List Str
  | 0, lines => lines
  | n + 1, lines =>
    removeLines start n (if start < lines.length then lines.eraseIdx start else lines)

/-- Lines inserted one behind the other; inserting behind the end of the list panics. -/
def insertLines (lines : List Str) : ℕ → List Str → Option (List Str)
  | _, [] => some lines
  | i, newLine :: rest =>
    if i ≤ lines.length then insertLines (lines.insertIdx i newLine) (i + 1) rest else none

def applyReplacement (lines : List Str) (r : Replacement) : Option (List Str) :=
  insertLines (removeLines r.start r.oldLen lines) r.start r.newItems

def applyReplacements (lines : List Str) (replacements : List Replacement) : Option (List Str) :=
  replacements.reverse.foldlM applyReplacement lines

theorem removeLines_eq (start n : ℕ) (lines : List Str) :
    removeLines start n lines = lines.take start ++ lines.drop (start + n) := by
  induction n generalizing lines with
  | zero => simp [removeLines]
  | succ n ih =>
    rw [removeLines, ih]
    by_cases h : start < lines.length
    · rw [if_pos h, eraseIdx_eq_take_drop_succ]
      have hlen : (lines.take start).length = start := by
        rw [length_take]
        omega
      rw [take_append_of_le_length (by omega), take_take, min_self, drop_append,
        drop_eq_nil_of_le (by omega), List.nil_append, drop_drop]
      congr 2
      omega
    · rw [if_neg h, drop_eq_nil_of_le (by omega), drop_eq_nil_of_le (by omega)]

theorem insertLines_append (newLines before after : List Str) :
    insertLines (before ++ after) before.length newLines = some (before ++ newLines ++ after) := by
  induction newLines generalizing before with
  | nil => simp [insertLines]
  | cons newLine rest ih =>
    have hmore := ih (before ++ [newLine])
    simp only [length_append, length_singleton, append_assoc, singleton_append] at hmore
    rw [insertLines, Splice.insertIdx_length_append, hmore]
    simp

variable {lines : List Str}

theorem applyReplacement_eq {r : Replacement} (h : r.start ≤ lines.length) :
    applyReplacement lines r = some (r.apply lines) := by
  have hlen : (lines.take r.start).length = r.start := by
    rw [length_take]
    omega
  have hinsert := insertLines_append r.newItems (lines.take r.start) (lines.drop r.stop)
  rw [hlen] at hinsert
  rw [applyReplacement, removeLines_eq]
  exact hinsert

variable {reps : List Replacement}

/-- A list stays at least as long as the least start of the replacements applied to it. -/
theorem le_length_applyBackward {n : ℕ} (hn : n ≤ lines.length) (hreps : ∀ r ∈ reps, n ≤ r.start) :
    n ≤ (applyBackward lines reps).length := by
  induction reps with
  | nil => exact hn
  | cons r reps ih =>
    have hr := hreps r (by simp)
    have := ih fun d hd => hreps d (by simp [hd])
    simp only [applyBackward, foldr_cons, Edit.apply, length_append, length_take]
    simp only [applyBackward] at this
    omega

/-- Sorted replacements within the file are applied without a panic. -/
theorem applyReplacements_eq (hsorted : reps.Pairwise fun d e => d.start ≤ e.start)
    (hlen : ∀ r ∈ reps, r.start ≤ lines.length) :
    applyReplacements lines reps = some (applyBackward lines reps) := by
  induction reps with
  | nil => rfl
  | cons r reps ih =>
    rw [pairwise_cons] at hsorted
    have hrest := ih hsorted.2 fun d hd => hlen d (by simp [hd])
    rw [applyReplacements] at hrest ⊢
    rw [reverse_cons, foldlM_append, hrest]
    have hr := le_length_applyBackward (hlen r (by simp)) hsorted.1
    change (applyReplacement (applyBackward lines reps) r >>= pure) = _
    rw [applyReplacement_eq hr]
    rfl

end CodexRs.ApplyPatch
