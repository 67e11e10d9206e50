import Mathlib
import CodexRs.ApplyPatch.BatchRuns

/-!
# What the streaming parser does with one line

The excess of a list of hunks counts the lines of its chunks against the text of its contexts and
destinations. Where the two parsers drift apart, the excess of the streaming parser's hunks over
that of the batch parser's increases, and no other line decreases it.
-/
namespace CodexRs.ApplyPatch
open Text List UpdateFileChunk

section

def Hunk.mode (lineNumber : ℕ) : Hunk → StreamingParserMode
  | .addFile _ _ => .addFile
  | .deleteFile _ => .deleteFile
  | .updateFile _ _ _ => .updateFile lineNumber

variable {t : Str} {hunk : Hunk}

theorem headerHunk_cases (h : headerHunk t = some hunk) :
    (∃ path, t = addFileMarker ++ path ∧ hunk = .addFile path []) ∨
      (∃ path, t = deleteFileMarker ++ path ∧ hunk = .deleteFile path) ∨
      (∃ path, t = updateFileMarker ++ path ∧ hunk = .updateFile path none []) := by
  unfold headerHunk at h
  cases ha : stripPrefix addFileMarker t with
  | some path =>
    rw [ha] at h
    cases h
    exact .inl ⟨path, stripPrefix_eq_some.mp ha, rfl⟩
  | none =>
    simp only [ha] at h
    cases hd : stripPrefix deleteFileMarker t with
    | some path =>
      rw [hd] at h
      cases h
      exact .inr (.inl ⟨path, stripPrefix_eq_some.mp hd, rfl⟩)
    | none =>
      simp only [hd] at h
      cases hu : stripPrefix updateFileMarker t with
      | some path =>
        rw [hu] at h
        cases h
        exact .inr (.inr ⟨path, stripPrefix_eq_some.mp hu, rfl⟩)
      | none => simp [hu] at h

/-- Header lines start with a marker that is followed by one of three letters. -/
theorem headerHunk_start (h : headerHunk t = some hunk) :
    ∃ c s, t = '*' :: '*' :: '*' :: ' ' :: c :: s ∧ c ∈ ['A', 'D', 'U'] := by
  rcases headerHunk_cases h with ⟨path, rfl, -⟩ | ⟨path, rfl, -⟩ | ⟨path, rfl, -⟩
  · exact ⟨'A', _, rfl, by decide⟩
  · exact ⟨'D', _, rfl, by decide⟩
  · exact ⟨'U', _, rfl, by decide⟩

theorem headerHunk_eq_none
    (h : ∀ c s, t = '*' :: '*' :: '*' :: ' ' :: c :: s → c ∉ ['A', 'D', 'U']) :
    headerHunk t = none := by
  cases hh : headerHunk t with
  | none => rfl
  | some hunk =>
    obtain ⟨c, s, ht, hc⟩ := headerHunk_start hh
    exact absurd hc (h c s ht)

namespace StreamingPatchParser
variable {p q : StreamingPatchParser} {line : Str}

theorem openedHunk_eq (p : StreamingPatchParser) (t : Str) :
    p.openedHunk t = (headerHunk t).map fun hunk => (hunk.mode p.lineNumber, hunk) := by
  unfold openedHunk headerHunk
  cases ha : stripPrefix addFileMarker t with
  | some path => rfl
  | none =>
    cases hd : stripPrefix deleteFileMarker t with
    | some path => rfl
    | none => cases hu : stripPrefix updateFileMarker t <;> rfl

/-- The parser with a hunk opened by its header. -/
def opening (p : StreamingPatchParser) (hunk : Hunk) : StreamingPatchParser :=
  { p with mode := hunk.mode p.lineNumber, hunks := p.hunks ++ [hunk] }

theorem handle_header (h : headerHunk t = some hunk) :
    p.handleHunkHeadersAndEndPatch t =
      match p.ensureUpdateHunkIsNotEmpty t with
      | .error e => .error e
      | .ok () => .ok (some (p.opening hunk)) := by
  have ht : t ≠ endPatchMarker := by
    rintro rfl
    cases h
  rw [handleHunkHeadersAndEndPatch, if_neg ht, openedHunk_eq, h]
  rfl

theorem handle_none (h : headerHunk t = none) (ht : t ≠ endPatchMarker) :
    p.handleHunkHeadersAndEndPatch t = .ok none := by
  rw [handleHunkHeadersAndEndPatch, if_neg ht, openedHunk_eq, h]
  rfl

theorem handle_end : p.handleHunkHeadersAndEndPatch endPatchMarker =
      match p.ensureUpdateHunkIsNotEmpty endPatchMarker with
      | .error e => .error e
      | .ok () => .ok (some { p with mode := .endedPatch }) :=
  if_pos rfl

theorem handle_cases {r : Option StreamingPatchParser}
    (h : p.handleHunkHeadersAndEndPatch t = .ok r) :
    (t = endPatchMarker ∧ r = some { p with mode := .endedPatch }) ∨
      (∃ hunk, headerHunk t = some hunk ∧ r = some (p.opening hunk)) ∨
      (headerHunk t = none ∧ t ≠ endPatchMarker ∧ r = none) := by
  by_cases ht : t = endPatchMarker
  · subst ht
    rw [handle_end] at h
    cases he : p.ensureUpdateHunkIsNotEmpty endPatchMarker with
    | error e => simp [he] at h
    | ok u =>
      rw [he] at h
      cases h
      exact .inl ⟨rfl, rfl⟩
  · cases hh : headerHunk t with
    | none =>
      rw [handle_none hh ht] at h
      cases h
      exact .inr (.inr ⟨rfl, ht, rfl⟩)
    | some hunk =>
      rw [handle_header hh] at h
      cases he : p.ensureUpdateHunkIsNotEmpty t with
      | error e => simp [he] at h
      | ok u =>
        rw [he] at h
        cases h
        exact .inr (.inl ⟨hunk, rfl, rfl⟩)

/-- Nothing has to be added to the last hunk before another one may start. -/
def LastComplete (hunks : List Hunk) : Prop :=
  ∀ path movePath chunks, hunks.getLast? = some (.updateFile path movePath chunks) →
    chunks ≠ [] ∧ lastChunkIsEmpty chunks = false

theorem ensure_ok (h : LastComplete p.hunks) (line : Str) :
    p.ensureUpdateHunkIsNotEmpty line = .ok () := by
  unfold ensureUpdateHunkIsNotEmpty
  split
  · rename_i path movePath chunks hlast
    obtain ⟨hne, hempty⟩ := h path movePath chunks hlast
    split
    · exact absurd rfl hne
    · rw [hempty]
      rfl
  · rfl

end StreamingPatchParser

/-- The ways in which a line changes the destination and the chunks of an update. -/
inductive UpdateEffect (line : Str) : Option PathBuf → List UpdateFileChunk →
    Option PathBuf → List UpdateFileChunk → Prop
  | move {dest} : trimEnd line = moveToMarker ++ dest →
      UpdateEffect line none [] (some dest) []
  | emptyContext {movePath chunks} : trimEnd line = emptyChangeContextMarker →
      UpdateEffect line movePath chunks movePath (chunks ++ [.opened none])
  | context {movePath chunks text} : trimEnd line = changeContextMarker ++ text →
      UpdateEffect line movePath chunks movePath (chunks ++ [.opened (some text)])
  | eof {movePath chunks} : trimEnd line = eofMarker →
      UpdateEffect line movePath chunks movePath (markLastChunkEof chunks)
  | chunkLine {movePath chunks chunks'} : addToLastChunk chunks line = some chunks' →
      UpdateEffect line movePath chunks movePath chunks'

namespace StreamingPatchParser
variable {p q : StreamingPatchParser} {line : Str}

variable {chunks : List UpdateFileChunk} {movePath : Option PathBuf} {path : PathBuf}

theorem processChunkLine_cases (h : p.processChunkLine line path movePath chunks = .ok q) :
    ∃ movePath' chunks', q = p.setLast (.updateFile path movePath' chunks') ∧
      UpdateEffect line movePath chunks movePath' chunks' := by
  unfold processChunkLine at h
  by_cases heof : trimEnd line = eofMarker
  · split_ifs at h
    cases h
    exact ⟨_, _, rfl, .eof heof⟩
  · rw [if_neg heof] at h
    cases ha : addToLastChunk chunks line with
    | some chunks' =>
      rw [ha] at h
      cases h
      exact ⟨_, _, rfl, .chunkLine ha⟩
    | none =>
      rw [ha] at h
      split_ifs at h

theorem processContextLine_cases (h : p.processContextLine line path movePath chunks = .ok q) :
    ∃ movePath' chunks', q = p.setLast (.updateFile path movePath' chunks') ∧
      UpdateEffect line movePath chunks movePath' chunks' := by
  unfold processContextLine at h
  split at h
  · cases h
  · by_cases hempty : trimEnd line = emptyChangeContextMarker
    · rw [if_pos hempty] at h
      cases h
      exact ⟨_, _, rfl, .emptyContext hempty⟩
    · rw [if_neg hempty] at h
      cases hs : stripPrefix changeContextMarker (trimEnd line) with
      | some text =>
        rw [hs] at h
        cases h
        exact ⟨_, _, rfl, .context (stripPrefix_eq_some.mp hs)⟩
      | none =>
        rw [hs] at h
        exact processChunkLine_cases h

theorem processUpdateLine_cases (h : p.processUpdateLine line path movePath chunks = .ok q) :
    ∃ movePath' chunks', q = p.setLast (.updateFile path movePath' chunks') ∧
      UpdateEffect line movePath chunks movePath' chunks' := by
  unfold processUpdateLine at h
  cases hs : stripPrefix moveToMarker (trimEnd line) with
  | none =>
    rw [hs] at h
    exact processContextLine_cases h
  | some dest =>
    rw [hs] at h
    by_cases hnew : chunks.isEmpty ∧ movePath.isNone
    · simp only [if_pos hnew] at h
      cases h
      simp only [List.isEmpty_iff, Option.isNone_iff_eq_none] at hnew
      obtain ⟨rfl, rfl⟩ := hnew
      exact ⟨_, _, rfl, .move (stripPrefix_eq_some.mp hs)⟩
    · simp only [if_neg hnew] at h
      exact processContextLine_cases h

/-- Everything that an accepted line of an update hunk can do. -/
theorem processLine_update_cases {n : ℕ} (hm : p.mode = .updateFile n)
    (h : p.processLine line = .ok q) :
    (trimEnd line = endPatchMarker ∧ q = { p with mode := .endedPatch }) ∨
      (∃ hunk, headerHunk (trimEnd line) = some hunk ∧ q = p.opening hunk) ∨
      (headerHunk (trimEnd line) = none ∧ trimEnd line ≠ endPatchMarker ∧
        ∃ hs path movePath chunks movePath' chunks',
        p.hunks = hs ++ [.updateFile path movePath chunks] ∧ q = p.setLast (.updateFile path movePath' chunks') ∧
        UpdateEffect line movePath chunks movePath' chunks') := by
  simp only [processLine, hm] at h
  cases hh : p.handleHunkHeadersAndEndPatch (trimEnd line) with
  | error e => simp [hh] at h
  | ok r =>
    rw [hh] at h
    rcases handle_cases hh with ⟨ht, rfl⟩ | ⟨hunk, ht, rfl⟩ | ⟨ht, hend, rfl⟩
    · cases h
      exact .inl ⟨ht, rfl⟩
    · cases h
      exact .inr (.inl ⟨hunk, ht, rfl⟩)
    · simp only at h
      split at h
      · rename_i path movePath chunks hlast
        obtain ⟨hs, hhunks⟩ := List.getLast?_eq_some_iff.mp hlast
        obtain ⟨movePath', chunks', hq, heffect⟩ := processUpdateLine_cases h
        exact .inr (.inr ⟨ht, hend, hs, path, movePath, chunks, movePath', chunks', hhunks, hq,
          heffect⟩)
      · cases h

/-- Everything that an accepted line between hunks or in an added file can do. -/
theorem processLine_outside_cases
    (hm : p.mode = .startedPatch ∨ p.mode = .addFile ∨ p.mode = .deleteFile)
    (h : p.processLine line = .ok q) :
    (trim line = endPatchMarker ∧ q = { p with mode := .endedPatch }) ∨
      (∃ hunk, headerHunk (trim line) = some hunk ∧ q = p.opening hunk) ∨
      (headerHunk (trim line) = none ∧ ∃ hs path contents text,
        p.mode = .addFile ∧ line = '+' :: text ∧
        p.hunks = hs ++ [.addFile path contents] ∧
        q = p.setLast (.addFile path (contents ++ text ++ ['\n']))) := by
  cases hh : p.handleHunkHeadersAndEndPatch (trim line) with
  | error e =>
    rcases hm with hm | hm | hm <;> simp [processLine, hm, hh] at h
  | ok r =>
    rcases handle_cases hh with ⟨ht, rfl⟩ | ⟨hunk, ht, rfl⟩ | ⟨ht, hend, rfl⟩
    · left
      rcases hm with hm | hm | hm <;> simp_all [processLine]
    · right; left
      rcases hm with hm | hm | hm <;> simp_all [processLine]
    · right; right
      rcases hm with hm | hm | hm
      · simp [processLine, hm, hh] at h
      · simp only [processLine, hm, hh] at h
        unfold processAddLine at h
        split at h
        · rename_i text path contents htext hlast
          obtain ⟨hs, hhunks⟩ := List.getLast?_eq_some_iff.mp hlast
          cases h
          exact ⟨ht, hs, path, contents, text, hm, stripPrefix_eq_some.mp htext, hhunks, rfl⟩
        · cases h
      · simp [processLine, hm, hh] at h

end StreamingPatchParser

end

/-- The place behind a line that the batch parser accepts. -/
def Place.next (place : Place) (line : Str) : Place :=
  if place = .outside then (headerHunk (trim line)).elim .outside Hunk.place
  else if Blank line then
    if place = .inChunk ∧ isDiffLine line then .inChunk else place.skip
  else if startsWith line ['*'] then
    if line = eofMarker then .afterChunk
    else (headerHunk (trim line)).elim .beforeChunk Hunk.place
  else .inChunk

/-- The parsers treat a line at this place differently. -/
def Place.Drifts (place : Place) (line : Str) : Prop :=
  place ≠ .outside ∧
    (Blank line ∧ (place = .inChunk → isDiffLine line = false) ∨
      (startsWith line changeContextMarker ∨ startsWith line moveToMarker) ∧ trimEnd line ≠ line)

instance (place : Place) (line : Str) : Decidable (place.Drifts line) :=
  inferInstanceAs (Decidable (_ ∧ (_ ∨ _)))

/-- No line drifts when the first of them stands at this place. -/
def NoDrift : Place → List Str → Prop
  | _, [] => True
  | place, line :: rest => ¬ place.Drifts line ∧ NoDrift (place.next line) rest

instance decidableNoDrift : (place : Place) → (ls : List Str) → Decidable (NoDrift place ls)
  | _, [] => .isTrue trivial
  | place, line :: rest =>
    have := decidableNoDrift (place.next line) rest
    inferInstanceAs (Decidable (¬ _ ∧ _))

section

def textWeight : Option Str → ℤ
  | none => 0
  | some text => text.length + 1

variable (chunk : UpdateFileChunk)

def UpdateFileChunk.excess : ℤ :=
  chunk.oldLines.length + chunk.newLines.length - textWeight chunk.changeContext

variable (chunks : List UpdateFileChunk)

def chunksExcess : ℤ :=
  (chunks.map excess).sum

def Hunk.excess : Hunk → ℤ
  | .updateFile _ movePath chunks => chunksExcess chunks - textWeight movePath
  | _ => 0

def excess (hunks : List Hunk) : ℤ := (hunks.map Hunk.excess).sum

/-- How many old and new lines a line adds to its chunk. -/
def lineGain : Str → ℤ
  | [] => 2
  | ' ' :: _ => 2
  | _ => 1

theorem lineGain_pos (line : Str) : 0 < lineGain line := by
  unfold lineGain
  split <;> decide

@[simp] theorem chunksExcess_concat :
    chunksExcess (chunks ++ [chunk]) = chunksExcess chunks + chunk.excess := by
  simp [chunksExcess]

@[simp] theorem excess_concat (hunks : List Hunk) (hunk : Hunk) :
    excess (hunks ++ [hunk]) = excess hunks + hunk.excess := by
  simp [excess]

@[simp] theorem excess_opened (context : Option Str) :
    (opened context).excess = -textWeight context := by
  simp [UpdateFileChunk.excess, opened]

theorem excess_addLine {chunk chunk' : UpdateFileChunk} {line : Str}
    (h : chunk.addLine line = some chunk') : chunk'.excess = chunk.excess + lineGain line := by
  unfold addLine at h
  split at h <;> cases h <;> simp [UpdateFileChunk.excess, lineGain] <;> omega

theorem excess_addToLastChunk {chunks chunks' : List UpdateFileChunk} {line : Str}
    (h : addToLastChunk chunks line = some chunks') :
    chunksExcess chunks' = chunksExcess chunks + lineGain line := by
  unfold addToLastChunk at h
  rw [Option.map_eq_some_iff] at h
  obtain ⟨chunk, hadd, rfl⟩ := h
  rw [chunksExcess_concat, excess_addLine hadd]
  cases chunks using reverseRecOn with
  | nil => simp [textWeight]
  | append_singleton chunks last => simp [Int.add_assoc]

theorem excess_markLastChunkEof : chunksExcess (markLastChunkEof chunks) = chunksExcess chunks := by
  cases chunks using reverseRecOn with
  | nil => rfl
  | append_singleton chunks last => simp [markLastChunkEof, UpdateFileChunk.excess]

theorem excess_headerHunk {t : Str} {hunk : Hunk} (h : headerHunk t = some hunk) :
    hunk.excess = 0 := by
  rcases headerHunk_cases h with ⟨path, -, rfl⟩ | ⟨path, -, rfl⟩ | ⟨path, -, rfl⟩ <;> rfl

end

variable {line : Str}

theorem isDiffLine_cons {c : Char} {s : Str} (h : isDiffLine (c :: s) = true) :
    c = ' ' ∨ c = '+' ∨ c = '-' := by
  simpa [isDiffLine] using h

/-- The trimmed text of a chunk line is empty or starts like the line. -/
theorem trimEnd_diffLine (h : isDiffLine line = true) :
    trimEnd line = [] ∨ ∃ c s, trimEnd line = c :: s ∧ (c = ' ' ∨ c = '+' ∨ c = '-') := by
  obtain ⟨w, -, hw⟩ := trimEnd_spec line
  cases ht : trimEnd line with
  | nil => exact .inl rfl
  | cons c s =>
    rw [ht] at hw
    rw [hw] at h
    exact .inr ⟨c, s, rfl, isDiffLine_cons h⟩

theorem headerHunk_trimEnd_diffLine (h : isDiffLine line = true) :
    headerHunk (trimEnd line) = none := by
  apply headerHunk_eq_none
  intro c s ht
  rcases trimEnd_diffLine h with hn | ⟨d, t, hd, hc⟩
  · simp [hn] at ht
  · rw [hd] at ht
    simp only [cons.injEq] at ht
    rw [ht.1] at hc
    simp at hc

theorem headerHunk_trimEnd_marker {c : Char} (hc : c ∉ ['A', 'D', 'U']) (rest : Str) :
    headerHunk (trimEnd ('*' :: '*' :: '*' :: ' ' :: c :: rest)) = none := by
  apply headerHunk_eq_none
  intro d s hs
  obtain ⟨w, -, hw⟩ := trimEnd_spec ('*' :: '*' :: '*' :: ' ' :: c :: rest)
  rw [hs] at hw
  simp only [cons_append, cons.injEq] at hw
  rwa [← hw.2.2.2.2.1]

theorem isDiffLine_start (h : isDiffLine line = true) : startsWith line ['*'] = false := by
  cases line with
  | nil => rfl
  | cons c rest => rcases isDiffLine_cons h with rfl | rfl | rfl <;> rfl

theorem addToLastChunk_isSome (chunks : List UpdateFileChunk) (line : Str) :
    (addToLastChunk chunks line).isSome = isDiffLine line := by
  rw [addToLastChunk, Option.isSome_map, addLine_isSome]

variable {movePath movePath' : Option PathBuf} {chunks chunks' : List UpdateFileChunk}

/-- A line of a chunk has no other effect than to be added to one. -/
theorem UpdateEffect.of_diffLine (h : isDiffLine line = true)
    (e : UpdateEffect line movePath chunks movePath' chunks') :
    movePath' = movePath ∧ addToLastChunk chunks line = some chunks' := by
  have hstart : ∀ s, trimEnd line ≠ '*' :: s ∧ trimEnd line ≠ '@' :: s := by
    intro s
    rcases trimEnd_diffLine h with hn | ⟨c, t, ht, hc⟩
    · simp [hn]
    · rw [ht]
      rcases hc with rfl | rfl | rfl <;> simp
  cases e with
  | move hl => exact absurd hl (hstart _).1
  | emptyContext hl => exact absurd hl (hstart _).2
  | context hl => exact absurd hl (hstart _).2
  | eof hl => exact absurd hl (hstart _).1
  | chunkLine ha => exact ⟨rfl, ha⟩

theorem isDiffLine_of_addToLastChunk (h : addToLastChunk chunks line = some chunks') :
    isDiffLine line = true := by
  rw [← addToLastChunk_isSome chunks line, h]
  rfl

/-- A move line can only set the destination, to its trimmed text. -/
theorem UpdateEffect.of_move {dest : Str} (hline : line = moveToMarker ++ dest)
    (e : UpdateEffect line movePath chunks movePath' chunks') :
    ∃ dest' w, dest = dest' ++ w ∧ trimEnd line = moveToMarker ++ dest' ∧
      movePath = none ∧ movePath' = some dest' ∧ chunks' = chunks := by
  obtain ⟨w, -, hw⟩ := trimEnd_spec line
  cases e with
  | move hl =>
    rename_i dest'
    rw [hl, hline, append_assoc, append_cancel_left_eq] at hw
    exact ⟨dest', w, hw, hl, rfl, rfl, rfl⟩
  | emptyContext hl | context hl | eof hl => rw [hl, hline] at hw; cases hw
  | chunkLine ha =>
    have := isDiffLine_of_addToLastChunk ha
    rw [hline] at this
    cases this

/-- A context line can only open a chunk, with its trimmed text as context. -/
theorem UpdateEffect.of_context {text : Str} (hline : line = changeContextMarker ++ text)
    (e : UpdateEffect line movePath chunks movePath' chunks') :
    movePath' = movePath ∧ ∃ context, chunks' = chunks ++ [.opened context] ∧
      (trimEnd line = line ∧ context = some text ∨
        trimEnd line ≠ line ∧ textWeight context < textWeight (some text)) := by
  obtain ⟨w, -, hw⟩ := trimEnd_spec line
  cases e with
  | move hl => rw [hl, hline] at hw; cases hw
  | emptyContext hl =>
    refine ⟨rfl, none, rfl, .inr ⟨?_, ?_⟩⟩
    · rw [hl, hline]
      simp [emptyChangeContextMarker, changeContextMarker]
    · simp only [textWeight]
      omega
  | context hl =>
    rename_i text'
    refine ⟨rfl, some text', rfl, ?_⟩
    have htext : text = text' ++ w := by
      rwa [hl, hline, append_assoc, append_cancel_left_eq] at hw
    by_cases hwn : w = []
    · rw [hwn, append_nil] at hw htext
      exact .inl ⟨hw.symm, by rw [htext]⟩
    · refine .inr ⟨?_, ?_⟩
      · intro heq
        rw [heq] at hw
        exact hwn (by simpa using hw)
      · have := length_pos_iff.mpr hwn
        simp only [textWeight, htext, length_append]
        omega
  | eof hl => rw [hl, hline] at hw; cases hw
  | chunkLine ha =>
    have := isDiffLine_of_addToLastChunk ha
    rw [hline] at this
    cases this

theorem trimEnd_emptyChangeContextMarker :
    trimEnd emptyChangeContextMarker = emptyChangeContextMarker := by decide

theorem trimEnd_eofMarker : trimEnd eofMarker = eofMarker := by decide

theorem UpdateEffect.of_emptyContext
    (e : UpdateEffect emptyChangeContextMarker movePath chunks movePath' chunks') :
    movePath' = movePath ∧ chunks' = chunks ++ [.opened none] := by
  cases e with
  | move hl | context hl | eof hl => cases hl
  | emptyContext hl => exact ⟨rfl, rfl⟩
  | chunkLine ha => cases isDiffLine_of_addToLastChunk ha

theorem UpdateEffect.of_eof (e : UpdateEffect eofMarker movePath chunks movePath' chunks') :
    movePath' = movePath ∧ chunks' = markLastChunkEof chunks := by
  cases e with
  | move hl | emptyContext hl | context hl => cases hl
  | eof hl => exact ⟨rfl, rfl⟩
  | chunkLine ha => cases isDiffLine_of_addToLastChunk ha

end CodexRs.ApplyPatch
