import CodexRs.ApplyPatch.Parser

/-!
# Writing a patch in its grammar, and parsing it

A chunk only records which lines are old and which are new; `HunkText` adds their order. Each loop
of the parser is run on its part of the patch followed by a line at which it stops.
-/
namespace CodexRs.ApplyPatch
open Text

section

inductive DiffLine where
  | context (text : Str)
  | add (text : Str)
  | remove (text : Str)

namespace DiffLine

def render : DiffLine → Str
  | .context text => ' ' :: text
  | .add text => '+' :: text
  | .remove text => '-' :: text

def old : DiffLine → List Str
  | .context text => [text]
  | .add _ => []
  | .remove text => [text]

def new : DiffLine → List Str
  | .context text => [text]
  | .add text => [text]
  | .remove _ => []

end DiffLine

structure ChunkText where
  context : Option Str
  lines : List DiffLine
  isEndOfFile : Bool

def contextLine : Option Str → Str
  | none => emptyChangeContextMarker
  | some context => changeContextMarker ++ context

namespace ChunkText

def chunk (c : ChunkText) : UpdateFileChunk :=
  ⟨c.context, c.lines.flatMap DiffLine.old, c.lines.flatMap DiffLine.new, c.isEndOfFile⟩

def eofLines (c : ChunkText) : List Str := if c.isEndOfFile then [eofMarker] else []

def render (c : ChunkText) : List Str :=
  contextLine c.context :: (c.lines.map DiffLine.render ++ c.eofLines)

end ChunkText

/-- The lines of a content in which every line ends in a line feed. -/
def addedLines (contents : Str) : List Str := (contents.splitOn '\n').dropLast

inductive HunkText where
  | addFile (path : PathBuf) (contents : Str)
  | deleteFile (path : PathBuf)
  | updateFile (path : PathBuf) (movePath : Option PathBuf) (chunks : List ChunkText)

def moveLines : Option PathBuf → List Str
  | none => []
  | some path => [moveToMarker ++ path]

namespace HunkText

def hunk : HunkText → Hunk
  | .addFile path contents => .addFile path contents
  | .deleteFile path => .deleteFile path
  | .updateFile path movePath chunks => .updateFile path movePath (chunks.map ChunkText.chunk)

def header : HunkText → Str
  | .addFile path _ => addFileMarker ++ path
  | .deleteFile path => deleteFileMarker ++ path
  | .updateFile path _ _ => updateFileMarker ++ path

def body : HunkText → List Str
  | .addFile _ contents => (addedLines contents).map ('+' :: ·)
  | .deleteFile _ => []
  | .updateFile _ movePath chunks => moveLines movePath ++ chunks.flatMap ChunkText.render

def render (h : HunkText) : List Str := h.header :: h.body

end HunkText

variable (doc : List HunkText)

def renderHunks : List Str := doc.flatMap HunkText.render

def renderPatch : List Str :=
  beginPatchMarker :: renderHunks doc ++ [endPatchMarker]

/-- The patch as it stands, or inside a here-document as a shell would read it. -/
inductive Wrapping where
  | plain
  | heredoc (start : Str)

def Wrapping.wrap : Wrapping → List Str → List Str
  | .plain, patch => patch
  | .heredoc start, patch => start :: patch ++ ["EOF".toList]

def Wrapping.Valid : Wrapping → Prop
  | .plain => True
  | .heredoc start => start ∈ heredocStarts

instance : DecidablePred Wrapping.Valid
  | .plain => inferInstanceAs (Decidable True)
  | .heredoc start => inferInstanceAs (Decidable (start ∈ heredocStarts))

variable (c : UpdateFileChunk)

/-- One rendering of a chunk: all its removed lines, then all its added ones. -/
def UpdateFileChunk.text : ChunkText :=
  ⟨c.changeContext, c.oldLines.map .remove ++ c.newLines.map .add, c.isEndOfFile⟩

def Hunk.text : Hunk → HunkText
  | .addFile path contents => .addFile path contents
  | .deleteFile path => .deleteFile path
  | .updateFile path movePath chunks => .updateFile path movePath (chunks.map UpdateFileChunk.text)

theorem UpdateFileChunk.chunk_text : c.text.chunk = c := by
  have ho : (c.oldLines.map DiffLine.remove).flatMap DiffLine.old = c.oldLines := by
    induction c.oldLines with
    | nil => rfl
    | cons l ls ih => simp_all [DiffLine.old]
  have hn : (c.newLines.map DiffLine.add).flatMap DiffLine.new = c.newLines := by
    induction c.newLines with
    | nil => rfl
    | cons l ls ih => simp_all [DiffLine.new]
  have ho' : (c.newLines.map DiffLine.add).flatMap DiffLine.old = [] := by
    simp [DiffLine.old]
  have hn' : (c.oldLines.map DiffLine.remove).flatMap DiffLine.new = [] := by
    simp [List.flatMap_map, DiffLine.new]
  simp only [text, ChunkText.chunk, List.flatMap_append, ho, hn, ho', hn', List.append_nil,
    List.nil_append]

theorem Hunk.hunk_text (h : Hunk) : h.text.hunk = h := by
  cases h with
  | addFile path contents => rfl
  | deleteFile path => rfl
  | updateFile path movePath chunks =>
    simp [text, HunkText.hunk, Function.comp_def, UpdateFileChunk.chunk_text]

/-- A line that survives being written and split again. -/
def PlainLine (s : Str) : Prop := '\n' ∉ s ∧ s.getLast? ≠ some '\r'

instance (s : Str) : Decidable (PlainLine s) := inferInstanceAs (Decidable (_ ∧ _))

def PlainPath (path : PathBuf) : Prop := path ≠ [] ∧ '\n' ∉ path ∧ trim path = path

instance (path : PathBuf) : Decidable (PlainPath path) := inferInstanceAs (Decidable (_ ∧ _))

def UpdateFileChunk.Renderable : Prop :=
  (c.oldLines ≠ [] ∨ c.newLines ≠ []) ∧ (∀ l ∈ c.oldLines ++ c.newLines, PlainLine l) ∧
    ∀ context ∈ c.changeContext, PlainLine context

instance (c : UpdateFileChunk) : Decidable c.Renderable := inferInstanceAs (Decidable (_ ∧ _))

/-- The content is a list of lines, each of them ended by a line feed. -/
def TerminatedLines (contents : Str) : Prop :=
  contents = (addedLines contents).flatMap (· ++ ['\n']) ∧ ∀ l ∈ addedLines contents, PlainLine l

instance (contents : Str) : Decidable (TerminatedLines contents) :=
  inferInstanceAs (Decidable (_ ∧ _))

def Hunk.Renderable : Hunk → Prop
  | .addFile path contents => PlainPath path ∧ TerminatedLines contents
  | .deleteFile path => PlainPath path
  | .updateFile path movePath chunks =>
    PlainPath path ∧ (∀ dest ∈ movePath, PlainPath dest) ∧ chunks ≠ [] ∧
      ∀ c ∈ chunks, c.Renderable

instance : DecidablePred Hunk.Renderable
  | .addFile _ _ => inferInstanceAs (Decidable (_ ∧ _))
  | .deleteFile path => inferInstanceAs (Decidable (PlainPath path))
  | .updateFile _ _ _ => inferInstanceAs (Decidable (_ ∧ _ ∧ _ ∧ _))

end

open ChunkText HunkText List UpdateFileChunk

variable (c : UpdateFileChunk)

/-- Chunk `c` after the lines `ds` have been added to it. -/
def UpdateFileChunk.extend (ds : List DiffLine) : UpdateFileChunk :=
  { c with
    oldLines := c.oldLines ++ ds.flatMap DiffLine.old
    newLines := c.newLines ++ ds.flatMap DiffLine.new }

@[simp] theorem UpdateFileChunk.extend_nil : c.extend [] = c := by
  simp [extend]

variable (d : DiffLine)

theorem DiffLine.render_ne_eofMarker : d.render ≠ eofMarker := by
  cases d <;> simp [render, eofMarker]

theorem addLine_render : c.addLine d.render = some (c.extend [d]) := by
  cases d <;>
    simp [DiffLine.render, addLine, extend, DiffLine.old, DiffLine.new]

variable (n k : ℕ)

theorem chunkLines_diffLine (rest : List Str) :
    chunkLines n c k (d.render :: rest) = chunkLines n (c.extend [d]) (k + 1) rest := by
  rw [chunkLines, if_neg d.render_ne_eofMarker, addLine_render]

theorem chunkLines_diffLines (ds : List DiffLine) (rest : List Str) :
    chunkLines n c k (ds.map DiffLine.render ++ rest) =
      chunkLines n (c.extend ds) (k + ds.length) rest := by
  induction ds generalizing c k with
  | nil => simp
  | cons d ds ih =>
    rw [map_cons, cons_append, chunkLines_diffLine, ih]
    congr 1
    · simp [extend]
    · simp only [length_cons]
      omega

/-- The lines behind a chunk start with a line that is no line of a chunk. -/
def ChunkEnd : List Str → Prop
  | [] => True
  | line :: _ => line ≠ eofMarker ∧ ∃ c text, line = c :: text ∧ c ∉ [' ', '+', '-']

variable {rest : List Str}

theorem chunkLines_end (hk : 0 < k) (hr : ChunkEnd rest) : chunkLines n c k rest = .ok (c, k) := by
  cases rest with
  | nil => rfl
  | cons line rest =>
    obtain ⟨heof, a, text, rfl, ha⟩ := hr
    have hline : c.addLine (a :: text) = none := by
      simp only [mem_cons, not_or] at ha
      simp [addLine, ha]
    rw [chunkLines, if_neg heof, hline]
    exact if_neg (by omega)

theorem chunkLines_eof (rest : List Str) (hk : 0 < k) :
    chunkLines n c k (eofMarker :: rest) = .ok ({ c with isEndOfFile := true }, k + 1) := by
  rw [chunkLines, if_pos rfl, if_neg (by omega)]

theorem chunkLines_render (n : ℕ) (c : ChunkText) (hc : c.lines ≠ []) (hr : ChunkEnd rest) :
    chunkLines n (.opened c.context) 0 (c.lines.map DiffLine.render ++ (c.eofLines ++ rest)) =
      .ok (c.chunk, c.lines.length + c.eofLines.length) := by
  have hk : 0 < 0 + c.lines.length := by
    simpa [length_pos_iff] using hc
  rw [chunkLines_diffLines]
  by_cases he : c.isEndOfFile
  · rw [eofLines, if_pos he, singleton_append, chunkLines_eof _ _ _ _ hk]
    simp [chunk, extend, opened, he]
  · rw [eofLines, if_neg he, nil_append, chunkLines_end _ _ _ hk hr]
    simp [chunk, extend, opened, he]

variable (context : Option Str)

theorem chunkHeader_contextLine (n : ℕ) (b : Bool) :
    chunkHeader (contextLine context) n b = .ok (context, 1) := by
  cases context with
  | none => rfl
  | some context =>
    have h : changeContextMarker ++ context ≠ emptyChangeContextMarker := by
      simp [changeContextMarker, emptyChangeContextMarker]
    rw [contextLine, chunkHeader, if_neg h, stripPrefix_append]

theorem parseUpdateFileChunk_render (n : ℕ) (b : Bool) (c : ChunkText)
    (hc : c.lines ≠ []) (hr : ChunkEnd rest) :
    parseUpdateFileChunk (c.render ++ rest) n b = .ok (c.chunk, c.render.length) := by
  have hlen : ¬ (c.render ++ rest).length ≤ 1 := by
    have := length_pos_iff.mpr hc
    simp only [ChunkText.render, length_append, length_cons, length_map]
    omega
  have hdrop : (c.render ++ rest).drop 1 =
      c.lines.map DiffLine.render ++ (c.eofLines ++ rest) := by
    simp [ChunkText.render]
  rw [ChunkText.render, cons_append, parseUpdateFileChunk]
  simp only [chunkHeader_contextLine]
  rw [← cons_append, ← ChunkText.render, if_neg hlen, hdrop, chunkLines_render n c hc hr]
  simp [ChunkText.render]

/-- The lines behind an update hunk are none, or start with a marker in column one. -/
def HunkEnd : List Str → Prop
  | [] => True
  | line :: _ => line ≠ eofMarker ∧ ∃ text, line = '*' :: text

theorem HunkEnd.chunkEnd (h : HunkEnd rest) : ChunkEnd rest := by
  cases rest with
  | nil => trivial
  | cons line rest =>
    obtain ⟨heof, text, rfl⟩ := h
    exact ⟨heof, '*', text, rfl, by simp⟩

theorem contextLine_eq : ∃ text, contextLine context = '@' :: text := by
  cases context with
  | none => exact ⟨_, rfl⟩
  | some context => exact ⟨['@', ' '] ++ context, rfl⟩

variable (cs : List ChunkText)

theorem chunkEnd_chunks (hr : HunkEnd rest) : ChunkEnd (cs.flatMap ChunkText.render ++ rest) := by
  cases cs with
  | nil => exact hr.chunkEnd
  | cons c cs =>
    obtain ⟨text, ht⟩ := contextLine_eq c.context
    refine ⟨?_, '@', text, ht, by simp⟩
    rw [ht]
    simp [eofMarker]

theorem trim_ne_nil_of_cons {a : Char} (ha : isWhitespace a = false) (text : Str) :
    trim (a :: text) ≠ [] := by
  rw [trim, trimStart_cons_of_not ha, ne_eq, trimEnd_eq_nil]
  intro h
  simp [h a (by simp)] at ha

variable (done : List UpdateFileChunk)

theorem updateChunks_end (hr : HunkEnd rest) : updateChunks n done k rest = .ok (done, k) := by
  cases rest with
  | nil => rw [updateChunks]
  | cons line rest =>
    obtain ⟨-, text, rfl⟩ := hr
    rw [updateChunks, if_neg (trim_ne_nil_of_cons (by decide) text), if_pos (by simp)]

theorem updateChunks_render (hcs : ∀ c ∈ cs, c.lines ≠ []) (hr : HunkEnd rest) :
    updateChunks n done k (cs.flatMap ChunkText.render ++ rest) =
      .ok (done ++ cs.map chunk, k + (cs.flatMap ChunkText.render).length) := by
  induction cs generalizing done k with
  | nil => simp [updateChunks_end n k done hr]
  | cons c cs ih =>
    obtain ⟨text, ht⟩ := contextLine_eq c.context
    have hstar : startsWith (contextLine c.context) ['*'] = false := by
      rw [ht]
      simp
    have hparse := parseUpdateFileChunk_render (n + k) done.isEmpty c
      (hcs c (by simp)) (chunkEnd_chunks cs hr)
    rw [ChunkText.render, cons_append] at hparse
    have hdrop : (c.lines.map DiffLine.render ++ c.eofLines ++
        (cs.flatMap ChunkText.render ++ rest)).drop (c.render.length - 1) =
        cs.flatMap ChunkText.render ++ rest :=
      drop_left' (by simp [ChunkText.render])
    rw [flatMap_cons, append_assoc, ChunkText.render, cons_append, updateChunks,
      if_neg (by rw [ht]; exact trim_ne_nil_of_cons (by decide) text), hstar, hparse]
    simp only [Bool.false_eq_true, if_false]
    rw [← ChunkText.render, hdrop, ih _ _ fun d hd => hcs d (by simp [hd])]
    simp only [map_cons, append_assoc, singleton_append, length_append,
      Nat.add_assoc]

theorem addLines_render (contents : Str) (k : ℕ) (ls : List Str) (hr : HunkEnd rest) :
    addLines contents k (ls.map ('+' :: ·) ++ rest) =
      (contents ++ ls.flatMap (· ++ ['\n']), k + ls.length) := by
  induction ls generalizing contents k with
  | nil =>
    cases rest with
    | nil => simp [addLines]
    | cons line rest =>
      obtain ⟨-, text, rfl⟩ := hr
      simp [addLines, stripPrefix]
  | cons l ls ih =>
    have hplus : stripPrefix ['+'] ('+' :: l) = some l := stripPrefix_append ['+'] l
    rw [map_cons, cons_append, addLines, hplus]
    simp only [ih, flatMap_cons, append_assoc, length_cons]
    congr 1
    omega

/-- A path that a hunk header line gives back: only its end is trimmed away. -/
def HeaderPath (path : PathBuf) : Prop := path ≠ [] ∧ '\n' ∉ path ∧ trimEnd path = path

theorem HeaderPath.concat {path : PathBuf} (h : HeaderPath path) :
    ∃ m c, path = m ++ [c] ∧ isWhitespace c = false := by
  refine ⟨path.dropLast, path.getLast h.1, (dropLast_append_getLast h.1).symm, ?_⟩
  have hl := rdropWhile_eq_self_iff.mp h.2.2 h.1
  simpa using hl

theorem HeaderPath.trim_header {path : PathBuf} (h : HeaderPath path) (marker : Str) :
    trim ('*' :: marker ++ path) = '*' :: marker ++ path := by
  obtain ⟨m, c, rfl, hc⟩ := h.concat
  exact trim_eq_self (by decide) hc ⟨'*' :: marker ++ m, by simp⟩

/-- What a hunk text must satisfy for the parser to read its lines back. -/
def HunkText.Readable : HunkText → Prop
  | .addFile path contents =>
    HeaderPath path ∧ contents = (addedLines contents).flatMap (· ++ ['\n'])
  | .deleteFile path => HeaderPath path
  | .updateFile path _ chunks => HeaderPath path ∧ chunks ≠ [] ∧ ∀ c ∈ chunks, c.lines ≠ []

/-- What a hunk text must satisfy for the parser to read its text back. -/
def HunkText.Writable : HunkText → Prop
  | .addFile path contents => HeaderPath path ∧ TerminatedLines contents
  | .deleteFile path => HeaderPath path
  | .updateFile path movePath chunks =>
    HeaderPath path ∧ (∀ dest ∈ movePath, PlainLine dest) ∧ chunks ≠ [] ∧
      ∀ c ∈ chunks, c.chunk.Renderable

theorem ChunkText.lines_ne_nil {c : ChunkText} (h : c.chunk.Renderable) : c.lines ≠ [] := by
  intro hl
  have h1 := h.1
  simp [chunk, hl] at h1

theorem HunkText.Writable.readable {t : HunkText} (h : t.Writable) : t.Readable := by
  cases t with
  | addFile path contents => exact ⟨h.1, h.2.1⟩
  | deleteFile path => exact h
  | updateFile path movePath chunks =>
    exact ⟨h.1, h.2.2.1, fun c hc => lines_ne_nil (h.2.2.2 c hc)⟩

theorem parseUpdateHunk_render (path : PathBuf) (movePath : Option PathBuf)
    (chunks : List ChunkText) (n : ℕ) (hne : chunks ≠ [])
    (hcs : ∀ c ∈ chunks, c.lines ≠ []) (hr : HunkEnd rest) :
    parseUpdateHunk path (moveLines movePath ++ chunks.flatMap ChunkText.render ++ rest) n =
      .ok (.updateFile path movePath (chunks.map chunk),
        (moveLines movePath ++ chunks.flatMap ChunkText.render).length + 1) := by
  have hsome : (chunks.map chunk).isEmpty = false := by simp [hne]
  cases movePath with
  | none =>
    have hmove : moveLine (chunks.flatMap ChunkText.render ++ rest) = none := by
      cases chunks with
      | nil => exact absurd rfl hne
      | cons c chunks =>
        obtain ⟨text, ht⟩ := contextLine_eq c.context
        simp [ChunkText.render, moveLine, ht, moveToMarker, stripPrefix]
    simp only [moveLines, nil_append]
    rw [parseUpdateHunk, hmove]
    simp only [Option.isSome_none, Bool.false_eq_true, if_false, drop_zero]
    rw [updateChunks_render _ _ _ _ hcs hr]
    simp only [nil_append, hsome, Bool.false_eq_true, if_false]
    congr 2
    omega
  | some dest =>
    simp only [moveLines, cons_append, nil_append]
    rw [parseUpdateHunk, moveLine, stripPrefix_append]
    simp only [Option.isSome_some, if_true, drop_succ_cons, drop_zero]
    rw [updateChunks_render _ _ _ _ hcs hr]
    simp only [nil_append, hsome, Bool.false_eq_true, if_false, length_cons]
    congr 2
    omega

theorem parseOneHunk_render (t : HunkText) (ht : t.Readable) (n : ℕ) (hr : HunkEnd rest) :
    parseOneHunk t.header (t.body ++ rest) n = .ok (t.hunk, t.body.length + 1) := by
  cases t with
  | addFile path contents =>
    obtain ⟨hp, hc⟩ := ht
    have htrim : trim (addFileMarker ++ path) = addFileMarker ++ path := hp.trim_header _
    simp only [parseOneHunk, header, body, htrim, stripPrefix_append,
      addLines_render _ _ _ hr, hunk]
    rw [nil_append, ← hc, length_map, Nat.add_comm]
  | deleteFile path =>
    have htrim : trim (deleteFileMarker ++ path) = deleteFileMarker ++ path :=
      HeaderPath.trim_header ht _
    have hadd : stripPrefix addFileMarker (deleteFileMarker ++ path) = none := by
      simp [addFileMarker, deleteFileMarker, stripPrefix]
    simp [parseOneHunk, header, body, htrim, hadd, hunk]
  | updateFile path movePath chunks =>
    obtain ⟨hp, hne, hcs⟩ := ht
    have htrim : trim (updateFileMarker ++ path) = updateFileMarker ++ path := hp.trim_header _
    simp only [parseOneHunk, header, htrim]
    exact parseUpdateHunk_render path movePath chunks n hne hcs hr

theorem HunkText.header_eq (t : HunkText) :
    ∃ text, t.header = '*' :: text ∧ t.header ≠ eofMarker := by
  cases t <;> exact ⟨_, rfl, by simp [header, addFileMarker, deleteFileMarker, updateFileMarker,
    eofMarker]⟩

variable (doc : List HunkText)

theorem hunkEnd_renderHunks : HunkEnd (renderHunks doc) := by
  cases doc with
  | nil => trivial
  | cons t doc =>
    obtain ⟨text, ht, heof⟩ := t.header_eq
    exact ⟨heof, text, ht⟩

/-- The hunk loop reads back every list of hunk texts. -/
theorem parseHunks_render (hdoc : ∀ t ∈ doc, t.Readable) (n : ℕ) (done : List Hunk) :
    parseHunks n done (renderHunks doc) = .ok (done ++ doc.map hunk) := by
  induction doc generalizing n done with
  | nil => simp [renderHunks, parseHunks]
  | cons t doc ih =>
    have hone := parseOneHunk_render t (hdoc t (by simp)) n (hunkEnd_renderHunks doc)
    have hlines : renderHunks (t :: doc) = t.header :: (t.body ++ renderHunks doc) := rfl
    rw [hlines, parseHunks, hone]
    simp only [Nat.add_sub_cancel, drop_left]
    rw [ih fun u hu => hdoc u (by simp [hu])]
    simp

end CodexRs.ApplyPatch
