import CodexRs.ApplyPatch.Parser
import CodexRs.ApplyPatch.ChunkRegions
import CodexRs.Files.FileSystem

/-!
# Patch invocations, their preview and their application

The new text of an updated file is derived from its current text. The parse of a script and the
rendering of a difference are parameters here.
-/
namespace CodexRs.ApplyPatch
open Text Files

section

inductive ApplyPatchError where
  | parseError (error : ParseError)
  | ioError (context : Str) (source : IoError)
  | computeReplacements (message : Str)
  | implicitInvocation
deriving DecidableEq

/-- A plain message, an error of the file system with its context, or one of the patch. -/
inductive ApplyError where
  | message (text : Str)
  | io (context : Str) (source : IoError)
  | patch (error : ApplyPatchError)
deriving DecidableEq

structure AppliedPatch where
  originalContents : Str
  newContents : Str
deriving DecidableEq

structure AffectedPaths where
  added : List PathBuf
  modified : List PathBuf
  deleted : List PathBuf
deriving DecidableEq

def failedMessage (what : String) (path : AbsolutePathBuf) : Str := what.toList ++ path.display

/-- The replacements computed for the lines of a file are always applied without a panic. -/
def newText (original path : Str) (chunks : List UpdateFileChunk) : Except Str Str :=
  let originalLines := dropEmptyEnd (original.splitOn '\n')
  match computeReplacements originalLines path chunks with
  | .error message => .error message
  | .ok replacements =>
    let newLines := (applyReplacements originalLines replacements).getD []
    .ok (joinLines (if newLines.getLast? = some [] then newLines else newLines ++ [[]]))

variable {σ : Type*}

def deriveNewContentsFromChunks (fs : ExecutorFileSystem σ) (path : AbsolutePathBuf)
    (chunks : List UpdateFileChunk) (s : σ) : Except ApplyPatchError AppliedPatch :=
  match fs.readFileText path s with
  | .error e => .error (.ioError (failedMessage "Failed to read file to update " path) e)
  | .ok original =>
    match newText original path.display chunks with
    | .error message => .error (.computeReplacements message)
    | .ok new => .ok ⟨original, new⟩

def createParent (fs : ExecutorFileSystem σ) (path : AbsolutePathBuf) (s : σ) :
    Except IoError Unit × σ :=
  match path.parent with
  | some parent => fs.createDirectory parent s
  | none => (.ok (), s)

def writeFileWithMissingParentRetry (fs : ExecutorFileSystem σ) (path : AbsolutePathBuf)
    (contents : Str) (s : σ) : Except ApplyError Unit × σ :=
  match fs.writeFile path contents s with
  | (.ok (), s) => (.ok (), s)
  | (.error e, s) =>
    if e.kind = .notFound then
      match createParent fs path s with
      | (.error e, s) =>
        (.error (.io (failedMessage "Failed to create parent directories for " path) e), s)
      | (.ok (), s) =>
        match fs.writeFile path contents s with
        | (.ok (), s) => (.ok (), s)
        | (.error e, s) => (.error (.io (failedMessage "Failed to write file " path) e), s)
    else (.error (.io (failedMessage "Failed to write file " path) e), s)

/-- Removes a file that is no directory. -/
def removeFile (fs : ExecutorFileSystem σ) (path : AbsolutePathBuf) (s : σ) :
    Except IoError Unit × σ :=
  match fs.getMetadata path s with
  | .error e => (.error e, s)
  | .ok metadata =>
    if metadata.isDirectory then (.error ⟨.invalidInput, "path is a directory".toList⟩, s)
    else fs.remove path s

/-- The source path of a hunk, resolved; a rename is resolved to its original. -/
def Hunk.resolvePath (home : Option Str) (cwd : AbsolutePathBuf) : Hunk → AbsolutePathBuf
  | .updateFile path _ _ => .resolvePathAgainstBase home path cwd
  | .addFile path _ => .resolvePathAgainstBase home path cwd
  | .deleteFile path => .resolvePathAgainstBase home path cwd

variable (fs : ExecutorFileSystem σ) (home : Option Str) (cwd : AbsolutePathBuf)

variable (path : AbsolutePathBuf)

def applyAdd (contents : Str) (s : σ) : Except ApplyError Unit × σ :=
  writeFileWithMissingParentRetry fs path contents s

def applyDelete (s : σ) : Except ApplyError Unit × σ :=
  match removeFile fs path s with
  | (.error e, s) => (.error (.io (failedMessage "Failed to delete file " path) e), s)
  | (.ok (), s) => (.ok (), s)

def applyUpdate (dest : Option AbsolutePathBuf)
    (chunks : List UpdateFileChunk) (s : σ) : Except ApplyError Unit × σ :=
  match deriveNewContentsFromChunks fs path chunks s with
  | .error e => (.error (.patch e), s)
  | .ok applied =>
    match dest with
    | some dest =>
      match writeFileWithMissingParentRetry fs dest applied.newContents s with
      | (.error e, s) => (.error e, s)
      | (.ok (), s) =>
        match removeFile fs path s with
        | (.error e, s) => (.error (.io (failedMessage "Failed to remove original " path) e), s)
        | (.ok (), s) => (.ok (), s)
    | none =>
      match fs.writeFile path applied.newContents s with
      | (.error e, s) => (.error (.io (failedMessage "Failed to write file " path) e), s)
      | (.ok (), s) => (.ok (), s)

/-- One hunk applied to the file system. -/
def applyHunk (hunk : Hunk) (s : σ) : Except ApplyError Unit × σ :=
  let path := hunk.resolvePath home cwd
  match hunk with
  | .addFile _ contents => applyAdd fs path contents s
  | .deleteFile _ => applyDelete fs path s
  | .updateFile _ movePath chunks =>
    applyUpdate fs path (movePath.map (.resolvePathAgainstBase home · cwd)) chunks s

/-- The affected paths with that of one more hunk, as the patch spells it. -/
def AffectedPaths.push (affected : AffectedPaths) (hunk : Hunk) : AffectedPaths :=
  match hunk with
  | .addFile _ _ => { affected with added := affected.added ++ [hunk.path] }
  | .deleteFile _ => { affected with deleted := affected.deleted ++ [hunk.path] }
  | .updateFile _ _ _ => { affected with modified := affected.modified ++ [hunk.path] }

def applyHunks (affected : AffectedPaths) (s : σ) : List Hunk → Except ApplyError AffectedPaths × σ
  | [] => (.ok affected, s)
  | hunk :: hunks =>
    match applyHunk fs home cwd hunk s with
    | (.error e, s) => (.error e, s)
    | (.ok (), s) => applyHunks (affected.push hunk) s hunks

def applyHunksToFiles (hunks : List Hunk) (s : σ) : Except ApplyError AffectedPaths × σ :=
  if hunks.isEmpty then (.error (.message "No files were modified.".toList), s)
  else applyHunks fs home cwd ⟨[], [], []⟩ s hunks

end

def applyPatchCommands : List Str := ["apply_patch".toList, "applypatch".toList]

inductive ApplyPatchShell where
  | unix
  | powerShell
  | cmd

inductive ExtractHeredocError where
  | commandDidNotStartWithApplyPatch
  | failedToLoadBashGrammar (error : Str)
  | heredocNotUtf8 (error : Str)
  | failedToParsePatchIntoAst
  | failedToFindHeredocBody
deriving DecidableEq

inductive MaybeApplyPatch where
  | body (args : ApplyPatchArgs)
  | shellParseError (error : ExtractHeredocError)
  | patchParseError (error : ParseError)
  | notApplyPatch
deriving DecidableEq

/-- The last component of a path, unless it is the parent directory. -/
def fileName (path : Str) : Option Str :=
  match ((path.splitOn '/').filter fun c => c ≠ [] ∧ c ≠ ['.']).getLast? with
  | none => none
  | some name => if name = ['.', '.'] then none else some name

/-- A file name without its extension; a dot at the start begins no extension. -/
def fileStem (name : Str) : Str :=
  let before := ((name.reverse.dropWhile (· ≠ '.')).drop 1).reverse
  if before = [] then name else before

def classifyShellName (shell : Str) : Option Str :=
  (fileName shell).map fun name => toAsciiLowercase (fileStem name)

def classifyShell (shell flag : Str) : Option ApplyPatchShell :=
  (classifyShellName shell).bind fun name =>
    if name ∈ ["bash", "zsh", "sh"].map String.toList ∧
        flag ∈ ["-lc", "-c"].map String.toList then some .unix
    else if name ∈ ["pwsh", "powershell"].map String.toList ∧
        toAsciiLowercase flag = "-command".toList then some .powerShell
    else if name = "cmd".toList ∧ toAsciiLowercase flag = "/c".toList then some .cmd
    else none

def canSkipFlag (shell flag : Str) : Bool :=
  (classifyShellName shell).any fun name =>
    name ∈ ["pwsh", "powershell"].map String.toList ∧
      toAsciiLowercase flag = "-noprofile".toList

def parseShellScript : List Str → Option (ApplyPatchShell × Str)
  | [shell, flag, script] => (classifyShell shell flag).map (·, script)
  | [shell, skipFlag, flag, script] =>
    if canSkipFlag shell skipFlag then (classifyShell shell flag).map (·, script) else none
  | _ => none

inductive CaptureName where
  | heredoc
  | cdPath
  | cdRawString
  | other

/-- A node that the query for an invocation captures, with its text if that is valid. -/
structure Capture where
  name : CaptureName
  text : Except Str Str

/-- The matches of the query in a shell script, each with its captures. -/
abbrev BashQuery := Str → Except ExtractHeredocError (List (List Capture))

def stripQuotes (raw : Str) : Str :=
  match stripPrefix ['\''] raw with
  | none => raw
  | some rest => if rest.getLast? = some '\'' then rest.dropLast else raw

def readCapture (found : Option Str × Option Str) (capture : Capture) :
    Except ExtractHeredocError (Option Str × Option Str) :=
  match capture.name, capture.text with
  | .other, _ => .ok found
  | _, .error e => .error (.heredocNotUtf8 e)
  | .heredoc, .ok text => .ok (some (text.rdropWhile (· = '\n')), found.2)
  | .cdPath, .ok text => .ok (found.1, some text)
  | .cdRawString, .ok raw => .ok (found.1, some (stripQuotes raw))

def readMatches : List (List Capture) → Except ExtractHeredocError (Str × Option Str)
  | [] => .error .commandDidNotStartWithApplyPatch
  | captures :: rest =>
    match captures.foldlM readCapture (none, none) with
    | .error e => .error e
    | .ok (some heredoc, cdPath) => .ok (heredoc, cdPath)
    | .ok (none, _) => readMatches rest

def extractApplyPatchFromBash (query : BashQuery) (script : Str) :
    Except ExtractHeredocError (Str × Option Str) :=
  match query script with
  | .error e => .error e
  | .ok found => readMatches found

/-- Scripts of all shells are read as if they were for one. -/
def extractApplyPatchFromShell (query : BashQuery) (shell : ApplyPatchShell) (script : Str) :
    Except ExtractHeredocError (Str × Option Str) :=
  match shell with
  | .unix => extractApplyPatchFromBash query script
  | .powerShell => extractApplyPatchFromBash query script
  | .cmd => extractApplyPatchFromBash query script

def parseScript (query : BashQuery) (argv : List Str) : MaybeApplyPatch :=
  match parseShellScript argv with
  | none => .notApplyPatch
  | some (shell, script) =>
    match extractApplyPatchFromShell query shell script with
    | .error .commandDidNotStartWithApplyPatch => .notApplyPatch
    | .error e => .shellParseError e
    | .ok (body, workdir) =>
      match parsePatch body with
      | .ok source => .body { source with workdir := workdir }
      | .error e => .patchParseError e

def parseDirect (body : Str) : MaybeApplyPatch :=
  match parsePatch body with
  | .ok source => .body source
  | .error e => .patchParseError e

def maybeParseApplyPatch (query : BashQuery) (argv : List Str) : MaybeApplyPatch :=
  match argv with
  | [cmd, body] => if cmd ∈ applyPatchCommands then parseDirect body else parseScript query argv
  | _ => parseScript query argv

inductive ApplyPatchFileChange where
  | add (content : Str)
  | delete (content : Str)
  | update (unifiedDiff : Str) (movePath : Option AbsolutePathBuf) (newContent : Str)
deriving DecidableEq

abbrev ChangeMap := AList fun _ : AbsolutePathBuf => ApplyPatchFileChange

structure ApplyPatchAction where
  changes : ChangeMap
  patch : Str
  cwd : AbsolutePathBuf

inductive MaybeApplyPatchVerified where
  | body (action : ApplyPatchAction)
  | shellParseError (error : ExtractHeredocError)
  | correctnessError (error : ApplyPatchError)
  | notApplyPatch

structure ApplyPatchFileUpdate where
  unifiedDiff : Str
  content : Str

variable {σ : Type*} (query : BashQuery) (diff : Str → Str → Str) (fs : ExecutorFileSystem σ)
  (home : Option Str) (cwd : AbsolutePathBuf)

def unifiedDiffFromChunks (path : AbsolutePathBuf) (chunks : List UpdateFileChunk) (s : σ) :
    Except ApplyPatchError ApplyPatchFileUpdate :=
  match deriveNewContentsFromChunks fs path chunks s with
  | .error e => .error e
  | .ok applied => .ok ⟨diff applied.originalContents applied.newContents, applied.newContents⟩

/-- The change that one hunk makes to the files as they are before the patch. -/
def previewHunk (s : σ) (hunk : Hunk) : Except ApplyPatchError ApplyPatchFileChange :=
  let path := hunk.resolvePath home cwd
  match hunk with
  | .addFile _ contents => .ok (.add contents)
  | .deleteFile _ =>
    match fs.readFileText path s with
    | .error e => .error (.ioError (failedMessage "Failed to read " path) e)
    | .ok content => .ok (.delete content)
  | .updateFile _ movePath chunks =>
    match unifiedDiffFromChunks diff fs path chunks s with
    | .error e => .error e
    | .ok update => .ok (.update update.unifiedDiff (movePath.map (.join home cwd)) update.content)

def previewHunks (s : σ) (changes : ChangeMap) : List Hunk → Except ApplyPatchError ChangeMap
  | [] => .ok changes
  | hunk :: hunks =>
    match previewHunk diff fs home cwd s hunk with
    | .error e => .error e
    | .ok change => previewHunks s (changes.insert (hunk.resolvePath home cwd) change) hunks

/-- The directory that the paths of a patch are relative to. -/
def effectiveCwd (workdir : Option Str) : AbsolutePathBuf :=
  match workdir with
  | some dir => cwd.join home dir
  | none => cwd

/-- A patch given as the command itself or as the whole script of a shell. -/
def isImplicitInvocation (argv : List Str) : Bool :=
  (match argv with
    | [body] => (parsePatch body).isOk
    | _ => false) ||
  match parseShellScript argv with
  | some (_, script) => (parsePatch script).isOk
  | none => false

def maybeParseApplyPatchVerified (argv : List Str) (s : σ) : MaybeApplyPatchVerified :=
  if isImplicitInvocation argv then .correctnessError .implicitInvocation
  else match maybeParseApplyPatch query argv with
    | .body args =>
      let cwd := effectiveCwd home cwd args.workdir
      match previewHunks diff fs home cwd s ∅ args.hunks with
      | .error e => .correctnessError e
      | .ok changes => .body ⟨changes, args.patch, cwd⟩
    | .shellParseError e => .shellParseError e
    | .patchParseError e => .correctnessError (.parseError e)
    | .notApplyPatch => .notApplyPatch

end CodexRs.ApplyPatch
