import CodexRs.Library.Text

/-!
# Patch hunks and the batch parser

Paths are kept as the patch spells them. Each loop of the parser works on the lines that are left
and reports how many of them it used.
-/
namespace CodexRs.ApplyPatch
open Text

abbrev PathBuf := Str

def beginPatchMarker : Str :=
  ['*', '*', '*', ' ', 'B', 'e', 'g', 'i', 'n', ' ', 'P', 'a', 't', 'c', 'h']
def endPatchMarker : Str :=
  ['*', '*', '*', ' ', 'E', 'n', 'd', ' ', 'P', 'a', 't', 'c', 'h']
def addFileMarker : Str :=
  ['*', '*', '*', ' ', 'A', 'd', 'd', ' ', 'F', 'i', 'l', 'e', ':', ' ']
def deleteFileMarker : Str :=
  ['*', '*', '*', ' ', 'D', 'e', 'l', 'e', 't', 'e', ' ', 'F', 'i', 'l', 'e', ':', ' ']
def updateFileMarker : Str :=
  ['*', '*', '*', ' ', 'U', 'p', 'd', 'a', 't', 'e', ' ', 'F', 'i', 'l', 'e', ':', ' ']
def moveToMarker : Str :=
  ['*', '*', '*', ' ', 'M', 'o', 'v', 'e', ' ', 't', 'o', ':', ' ']
def eofMarker : Str :=
  ['*', '*', '*', ' ', 'E', 'n', 'd', ' ', 'o', 'f', ' ', 'F', 'i', 'l', 'e']
def changeContextMarker : Str := ['@', '@', ' ']
def emptyChangeContextMarker : Str := ['@', '@']

example : [beginPatchMarker, endPatchMarker, addFileMarker, deleteFileMarker, updateFileMarker,
      moveToMarker, eofMarker, changeContextMarker, emptyChangeContextMarker] =
    ["*** Begin Patch", "*** End Patch", "*** Add File: ", "*** Delete File: ",
      "*** Update File: ", "*** Move to: ", "*** End of File", "@@ ", "@@"].map String.toList := by
  decide +kernel

inductive ParseError where
  | invalidPatchError (message : Str)
  | invalidHunkError (message : Str) (lineNumber : ℕ)
deriving DecidableEq

structure UpdateFileChunk where
  changeContext : Option Str
  oldLines : List Str
  newLines : List Str
  isEndOfFile : Bool
deriving DecidableEq

/-- A chunk before its first line has been read. -/
def UpdateFileChunk.opened (context : Option Str) : UpdateFileChunk :=
  ⟨context, [], [], false⟩

inductive Hunk where
  | addFile (path : PathBuf) (contents : Str)
  | deleteFile (path : PathBuf)
  | updateFile (path : PathBuf) (movePath : Option PathBuf) (chunks : List UpdateFileChunk)
deriving DecidableEq

/-- The path affected by a hunk, which is the destination for a rename. -/
def Hunk.path : Hunk → PathBuf
  | .addFile path _ => path
  | .deleteFile path => path
  | .updateFile _ (some path) _ => path
  | .updateFile path none _ => path

structure ApplyPatchArgs where
  patch : Str
  hunks : List Hunk
  workdir : Option Str
deriving DecidableEq

inductive ParseMode where
  | strict
  | lenient

def noLinesMessage : Str := "Update hunk does not contain any lines".toList

variable (line : Str)

def unexpectedLineMessage : Str :=
  "Unexpected line found in update hunk: '".toList ++ line ++
    "'. Every line should start with ' ' (context line), '+' (added line), or '-' (removed line)".toList

def expectedContextMessage : Str :=
  "Expected update hunk to start with a @@ context marker, got: '".toList ++ line ++ "'".toList

def emptyUpdateMessage (path : PathBuf) : Str :=
  "Update file hunk for path '".toList ++ path ++ "' is empty".toList

def invalidHeaderMessage : Str :=
  "'".toList ++ line ++ "' is not a valid hunk header. Valid hunk headers: ".toList ++
    "'*** Add File: \x7bpath\x7d', '*** Delete File: \x7bpath\x7d', ".toList ++
    "'*** Update File: \x7bpath\x7d'".toList

def firstLineMessage : Str := "The first line of the patch must be '*** Begin Patch'".toList
def lastLineMessage : Str := "The last line of the patch must be '*** End Patch'".toList

/-- What a line adds to a chunk; no line of a chunk starts with another character. -/
def UpdateFileChunk.addLine (chunk : UpdateFileChunk) : Str → Option UpdateFileChunk
  | [] => some { chunk with
      oldLines := chunk.oldLines ++ [[]], newLines := chunk.newLines ++ [[]] }
  | ' ' :: text => some { chunk with
      oldLines := chunk.oldLines ++ [text], newLines := chunk.newLines ++ [text] }
  | '+' :: text => some { chunk with newLines := chunk.newLines ++ [text] }
  | '-' :: text => some { chunk with oldLines := chunk.oldLines ++ [text] }
  | _ :: _ => none

/-- The lines of one chunk, up to its end marker or a line of another kind. -/
def chunkLines (lineNumber : ℕ) (chunk : UpdateFileChunk) (parsedLines : ℕ) :
    List Str → Except ParseError (UpdateFileChunk × ℕ)
  | [] => .ok (chunk, parsedLines)
  | line :: rest =>
    if line = eofMarker then
      if parsedLines = 0 then .error (.invalidHunkError noLinesMessage (lineNumber + 1))
      else .ok ({ chunk with isEndOfFile := true }, parsedLines + 1)
    else match chunk.addLine line with
      | some chunk => chunkLines lineNumber chunk (parsedLines + 1) rest
      | none =>
        if parsedLines = 0 then
          .error (.invalidHunkError (unexpectedLineMessage line) (lineNumber + 1))
        else .ok (chunk, parsedLines)

/-- The context of a chunk and the number of lines its header takes. -/
def chunkHeader (first : Str) (lineNumber : ℕ) (allowMissingContext : Bool) :
    Except ParseError (Option Str × ℕ) :=
  if first = emptyChangeContextMarker then .ok (none, 1)
  else match stripPrefix changeContextMarker first with
    | some context => .ok (some context, 1)
    | none =>
      if allowMissingContext then .ok (none, 0)
      else .error (.invalidHunkError (expectedContextMessage first) lineNumber)

def parseUpdateFileChunk (lines : List Str) (lineNumber : ℕ) (allowMissingContext : Bool) :
    Except ParseError (UpdateFileChunk × ℕ) :=
  match lines with
  | [] => .error (.invalidHunkError noLinesMessage lineNumber)
  | first :: _ =>
    match chunkHeader first lineNumber allowMissingContext with
    | .error e => .error e
    | .ok (context, startIndex) =>
      if lines.length ≤ startIndex then
        .error (.invalidHunkError noLinesMessage (lineNumber + 1))
      else match chunkLines lineNumber (.opened context) 0 (lines.drop startIndex) with
        | .error e => .error e
        | .ok (chunk, parsedLines) => .ok (chunk, parsedLines + startIndex)

/-- The chunks of one update hunk; blank lines between chunks are skipped. -/
def updateChunks (lineNumber : ℕ) (chunks : List UpdateFileChunk) (parsedLines : ℕ)
    (remaining : List Str) : Except ParseError (List UpdateFileChunk × ℕ) :=
  match remaining with
  | [] => .ok (chunks, parsedLines)
  | line :: rest =>
    if trim line = [] then updateChunks lineNumber chunks (parsedLines + 1) rest
    else if startsWith line ['*'] then .ok (chunks, parsedLines)
    else match parseUpdateFileChunk (line :: rest) (lineNumber + parsedLines) chunks.isEmpty with
      | .error e => .error e
      | .ok (chunk, n) =>
        updateChunks lineNumber (chunks ++ [chunk]) (parsedLines + n) (rest.drop (n - 1))
termination_by remaining.length

/-- The added lines that follow an add header, and how many there are. -/
def addLines (contents : Str) (parsedLines : ℕ) : List Str → Str × ℕ
  | [] => (contents, parsedLines)
  | line :: rest =>
    match stripPrefix ['+'] line with
    | some text => addLines (contents ++ text ++ ['\n']) (parsedLines + 1) rest
    | none => (contents, parsedLines)

def moveLine : List Str → Option PathBuf
  | [] => none
  | line :: _ => stripPrefix moveToMarker line

def parseUpdateHunk (path : PathBuf) (rest : List Str) (lineNumber : ℕ) :
    Except ParseError (Hunk × ℕ) :=
  let movePath := moveLine rest
  let skipped := if movePath.isSome then 1 else 0
  match updateChunks lineNumber [] (1 + skipped) (rest.drop skipped) with
  | .error e => .error e
  | .ok (chunks, parsedLines) =>
    if chunks.isEmpty then .error (.invalidHunkError (emptyUpdateMessage path) lineNumber)
    else .ok (.updateFile path movePath chunks, parsedLines)

/-- One hunk from the header line `first` and the lines `rest` behind it. -/
def parseOneHunk (first : Str) (rest : List Str) (lineNumber : ℕ) : Except ParseError (Hunk × ℕ) :=
  let firstLine := trim first
  match stripPrefix addFileMarker firstLine with
  | some path =>
    let (contents, parsedLines) := addLines [] 1 rest
    .ok (.addFile path contents, parsedLines)
  | none => match stripPrefix deleteFileMarker firstLine with
    | some path => .ok (.deleteFile path, 1)
    | none => match stripPrefix updateFileMarker firstLine with
      | some path => parseUpdateHunk path rest lineNumber
      | none => .error (.invalidHunkError (invalidHeaderMessage firstLine) lineNumber)

def parseHunks (lineNumber : ℕ) (hunks : List Hunk) (remaining : List Str) :
    Except ParseError (List Hunk) :=
  match remaining with
  | [] => .ok hunks
  | first :: rest =>
    match parseOneHunk first rest lineNumber with
    | .error e => .error e
    | .ok (hunk, n) => parseHunks (lineNumber + n) (hunks ++ [hunk]) (rest.drop (n - 1))
termination_by remaining.length

def checkStartAndEndLinesStrict (firstLine lastLine : Option Str) : Except ParseError Unit :=
  match firstLine.map trim, lastLine.map trim with
  | some first, some last =>
    if first = beginPatchMarker ∧ last = endPatchMarker then .ok ()
    else if first ≠ beginPatchMarker then .error (.invalidPatchError firstLineMessage)
    else .error (.invalidPatchError lastLineMessage)
  | some first, none =>
    if first ≠ beginPatchMarker then .error (.invalidPatchError firstLineMessage)
    else .error (.invalidPatchError lastLineMessage)
  | none, _ => .error (.invalidPatchError lastLineMessage)

/-- The lines of the patch, and those of them between the two markers. -/
def checkPatchBoundariesStrict (lines : List Str) : Except ParseError (List Str × List Str) :=
  match checkStartAndEndLinesStrict lines.head? lines.getLast? with
  | .error e => .error e
  | .ok () => .ok (lines, lines.tail.dropLast)

def heredocStarts : List Str := ["<<EOF".toList, "<<'EOF'".toList, "<<\"EOF\"".toList]

def checkPatchBoundariesLenient (originalLines : List Str) :
    Except ParseError (List Str × List Str) :=
  match checkPatchBoundariesStrict originalLines with
  | .ok lines => .ok lines
  | .error originalParseError =>
    match originalLines.head?, originalLines.getLast? with
    | some first, some last =>
      if first ∈ heredocStarts ∧ "EOF".toList.isSuffixOf last ∧ 4 ≤ originalLines.length then
        checkPatchBoundariesStrict originalLines.tail.dropLast
      else .error originalParseError
    | _, _ => .error originalParseError

def parsePatchText (patch : Str) (mode : ParseMode) : Except ParseError ApplyPatchArgs :=
  let boundaries := match mode with
    | .strict => checkPatchBoundariesStrict (lines (trim patch))
    | .lenient => checkPatchBoundariesLenient (lines (trim patch))
  match boundaries with
  | .error e => .error e
  | .ok (patchLines, hunkLines) =>
    match parseHunks 2 [] hunkLines with
    | .error e => .error e
    | .ok hunks => .ok ⟨joinLines patchLines, hunks, none⟩

def parsePatch (patch : Str) : Except ParseError ApplyPatchArgs := parsePatchText patch .lenient

end CodexRs.ApplyPatch
