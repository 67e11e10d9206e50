import CodexRs.ApplyPatch.Parser

/-!
# The streaming patch parser

A line is handled when its line feed arrives, and may extend the last hunk.
-/
namespace CodexRs.ApplyPatch
open Text

inductive StreamingParserMode where
  | notStarted
  | startedPatch
  | addFile
  | deleteFile
  | updateFile (hunkLineNumber : ℕ)
  | endedPatch
deriving DecidableEq

structure StreamingPatchParser where
  lineBuffer : Str
  mode : StreamingParserMode
  hunks : List Hunk
  lineNumber : ℕ

def UpdateFileChunk.isEmpty (c : UpdateFileChunk) : Bool :=
  c.oldLines.isEmpty && c.newLines.isEmpty

variable (chunks : List UpdateFileChunk)

/-- The last chunk exists and has no lines yet. -/
def lastChunkIsEmpty : Bool :=
  chunks.getLast?.any UpdateFileChunk.isEmpty

/-- What a line of a chunk does to the chunks read so far; a first chunk without a
context line is opened by its first line. -/
def addToLastChunk (line : Str) : Option (List UpdateFileChunk) :=
  ((chunks.getLast?.getD (.opened none)).addLine line).map (chunks.dropLast ++ [·])

def markLastChunkEof : List UpdateFileChunk :=
  match chunks.getLast? with
  | none => chunks
  | some chunk => chunks.dropLast ++ [{ chunk with isEndOfFile := true }]

namespace StreamingPatchParser

def new : StreamingPatchParser := ⟨[], .notStarted, [], 0⟩

variable (p : StreamingPatchParser) (line : Str)

def ensureUpdateHunkIsNotEmpty : Except ParseError Unit :=
  match p.hunks.getLast? with
  | some (.updateFile path _ chunks) =>
    match chunks, p.mode with
    | [], .updateFile hunkLineNumber =>
      .error (.invalidHunkError (emptyUpdateMessage path) hunkLineNumber)
    | _, _ =>
      if lastChunkIsEmpty chunks then
        if line = endPatchMarker then .error (.invalidHunkError noLinesMessage p.lineNumber)
        else .error (.invalidHunkError (unexpectedLineMessage line) p.lineNumber)
      else .ok ()
  | _ => .ok ()

variable (trimmed : Str)

/-- The hunk that a header line opens, with the mode that reads it. -/
def openedHunk : Option (StreamingParserMode × Hunk) :=
  match stripPrefix addFileMarker trimmed with
  | some path => some (.addFile, .addFile path [])
  | none => match stripPrefix deleteFileMarker trimmed with
    | some path => some (.deleteFile, .deleteFile path)
    | none => match stripPrefix updateFileMarker trimmed with
      | some path => some (.updateFile p.lineNumber, .updateFile path none [])
      | none => none

/-- The parser after a header or the end marker, or nothing when the line is neither. -/
def handleHunkHeadersAndEndPatch : Except ParseError (Option StreamingPatchParser) :=
  if trimmed = endPatchMarker then
    match p.ensureUpdateHunkIsNotEmpty trimmed with
    | .error e => .error e
    | .ok () => .ok (some { p with mode := .endedPatch })
  else match p.openedHunk trimmed with
    | some (mode, hunk) =>
      match p.ensureUpdateHunkIsNotEmpty trimmed with
      | .error e => .error e
      | .ok () => .ok (some { p with mode := mode, hunks := p.hunks ++ [hunk] })
    | none => .ok none

/-- The parser with the last hunk replaced. -/
def setLast (hunk : Hunk) : StreamingPatchParser :=
  { p with hunks := p.hunks.dropLast ++ [hunk] }

def invalidHeader : ParseError :=
  .invalidHunkError (invalidHeaderMessage trimmed) p.lineNumber

variable (path : PathBuf) (movePath : Option PathBuf)

/-- The end marker of a file, or a line of a chunk. -/
def processChunkLine (chunks : List UpdateFileChunk) : Except ParseError StreamingPatchParser :=
  if trimEnd line = eofMarker then
    if lastChunkIsEmpty chunks then .error (.invalidHunkError noLinesMessage p.lineNumber)
    else .ok (p.setLast (.updateFile path movePath (markLastChunkEof chunks)))
  else match addToLastChunk chunks line with
    | some chunks => .ok (p.setLast (.updateFile path movePath chunks))
    | none =>
      if !chunks.isEmpty && !lastChunkIsEmpty chunks then
        .error (.invalidHunkError (expectedContextMessage line) p.lineNumber)
      else .error (.invalidHunkError (unexpectedLineMessage line) p.lineNumber)

/-- A line that opens a chunk, or one that may follow it. -/
def processContextLine (chunks : List UpdateFileChunk) : Except ParseError StreamingPatchParser :=
  if (trimEnd line = emptyChangeContextMarker ∨ startsWith (trimEnd line) changeContextMarker) ∧
      lastChunkIsEmpty chunks then
    .error (.invalidHunkError (unexpectedLineMessage line) p.lineNumber)
  else if trimEnd line = emptyChangeContextMarker then
    .ok (p.setLast (.updateFile path movePath (chunks ++ [.opened none])))
  else match stripPrefix changeContextMarker (trimEnd line) with
    | some context =>
      .ok (p.setLast (.updateFile path movePath (chunks ++ [.opened (some context)])))
    | none => p.processChunkLine line path movePath chunks

/-- A line of an update hunk other than a header or the end marker. -/
def processUpdateLine (chunks : List UpdateFileChunk) : Except ParseError StreamingPatchParser :=
  match stripPrefix moveToMarker (trimEnd line) with
  | some moveToPath =>
    if chunks.isEmpty ∧ movePath.isNone then
      .ok (p.setLast (.updateFile path (some moveToPath) chunks))
    else p.processContextLine line path movePath chunks
  | none => p.processContextLine line path movePath chunks

/-- A line of an added file that is no header. -/
def processAddLine : Except ParseError StreamingPatchParser :=
  match stripPrefix ['+'] line, p.hunks.getLast? with
  | some lineToAdd, some (.addFile path contents) =>
    .ok (p.setLast (.addFile path (contents ++ lineToAdd ++ ['\n'])))
  | _, _ => .error (p.invalidHeader (trim line))

def processLine : Except ParseError StreamingPatchParser :=
  match p.mode with
  | .notStarted =>
    if trim line = beginPatchMarker then .ok { p with mode := .startedPatch }
    else .error (.invalidPatchError firstLineMessage)
  | .startedPatch =>
    match p.handleHunkHeadersAndEndPatch (trim line) with
    | .error e => .error e
    | .ok (some p) => .ok p
    | .ok none => .error (p.invalidHeader (trim line))
  | .addFile =>
    match p.handleHunkHeadersAndEndPatch (trim line) with
    | .error e => .error e
    | .ok (some p) => .ok p
    | .ok none => p.processAddLine line
  | .deleteFile =>
    match p.handleHunkHeadersAndEndPatch (trim line) with
    | .error e => .error e
    | .ok (some p) => .ok p
    | .ok none => .error (p.invalidHeader (trim line))
  | .updateFile _ =>
    match p.handleHunkHeadersAndEndPatch (trimEnd line) with
    | .error e => .error e
    | .ok (some p) => .ok p
    | .ok none =>
      match p.hunks.getLast? with
      | some (.updateFile path movePath chunks) => p.processUpdateLine line path movePath chunks
      | _ => .error (.invalidHunkError (unexpectedLineMessage line) p.lineNumber)
  | .endedPatch => .ok p

/-- A line whose line feed has arrived. -/
def nextLine : Except ParseError StreamingPatchParser :=
  { p with lineBuffer := [], lineNumber := p.lineNumber + 1 }.processLine line

def pushChar (ch : Char) : Except ParseError StreamingPatchParser :=
  if ch = '\n' then p.nextLine (stripCr p.lineBuffer)
  else .ok { p with lineBuffer := p.lineBuffer ++ [ch] }

/-- The parser after a delta; the hunks reported for the delta are its `hunks`. -/
def pushDelta (delta : Str) : Except ParseError StreamingPatchParser :=
  delta.foldlM pushChar p

/-- The parser after the last line, which no line feed ends. -/
def finishLine : Except ParseError StreamingPatchParser :=
  if p.lineBuffer.isEmpty then .ok p
  else
    let line := p.lineBuffer
    let p := { p with lineBuffer := [], lineNumber := p.lineNumber + 1 }
    if trim line = endPatchMarker then
      match p.ensureUpdateHunkIsNotEmpty (trim line) with
      | .error e => .error e
      | .ok () => .ok { p with mode := .endedPatch }
    else p.processLine line

def finish : Except ParseError (List Hunk) :=
  match p.finishLine with
  | .error e => .error e
  | .ok p =>
    if p.mode = .endedPatch then .ok p.hunks else .error (.invalidPatchError lastLineMessage)

/-- A fresh parser fed with the deltas of a patch text and then finished. -/
def parseDeltas (deltas : List Str) : Except ParseError (List Hunk) :=
  match deltas.foldlM pushDelta new with
  | .error e => .error e
  | .ok p => p.finish

end StreamingPatchParser

end CodexRs.ApplyPatch
