import CodexRs.Files.Host
import CodexRs.Library.Specificity
import CodexRs.Library.Lists

/-!
# File-system sandbox policies

The most specific entry decides; a few names of metadata directories are protected directly below
a writable entry. Each writable root has the paths below it that stay read-only.
-/
namespace CodexRs.Protocol
open Text Files

def protectedMetadataPathNames : List Str :=
  [".git".toList, ".agents".toList, ".codex".toList, ".xtech".toList]

inductive FileSystemAccessMode where
  | read
  | write
  | none
deriving DecidableEq

namespace FileSystemAccessMode

/-- Of two entries for one path, denying beats writing, and writing beats reading. -/
def precedence : FileSystemAccessMode → ℕ
  | read => 0
  | write => 1
  | none => 2

theorem precedence_injective : Function.Injective precedence := by
  intro a b h
  cases a <;> cases b <;> first | rfl | cases h

instance : LinearOrder FileSystemAccessMode :=
  LinearOrder.lift' precedence precedence_injective

def canRead : FileSystemAccessMode → Bool
  | none => false
  | _ => true

def canWrite : FileSystemAccessMode → Bool
  | write => true
  | _ => false

theorem canWrite_iff_eq_write {mode : FileSystemAccessMode} : mode.canWrite = true ↔ mode = .write := by
  cases mode <;> simp [canWrite]

end FileSystemAccessMode

inductive FileSystemSpecialPath where
  | root
  | minimal
  | projectRoots (subpath : Option Str)
  | tmpdir
  | slashTmp
  | unknown (path : Str) (subpath : Option Str)
deriving DecidableEq

inductive FileSystemPath where
  | path (path : AbsolutePathBuf)
  | globPattern (pattern : Str)
  | special (value : FileSystemSpecialPath)
deriving DecidableEq

structure FileSystemSandboxEntry where
  path : FileSystemPath
  access : FileSystemAccessMode
deriving DecidableEq

inductive FileSystemSandboxKind where
  | restricted
  | unrestricted
  | externalSandbox
deriving DecidableEq

structure FileSystemSandboxPolicy where
  kind : FileSystemSandboxKind
  globScanMaxDepth : Option ℕ
  entries : List FileSystemSandboxEntry

structure ResolvedFileSystemEntry where
  path : AbsolutePathBuf
  access : FileSystemAccessMode
deriving DecidableEq

def slashTmpPath : AbsolutePathBuf := ⟨["tmp".toList], by decide⟩

def resolveFileSystemSpecialPath (host : Host) (value : FileSystemSpecialPath)
    (cwd : Option AbsolutePathBuf) : Option AbsolutePathBuf :=
  match value with
  | .root => none
  | .minimal => none
  | .unknown .. => none
  | .projectRoots subpath =>
    cwd.map fun cwd =>
      match subpath with
      | some subpath => .resolvePathAgainstBase host.home subpath cwd
      | none => cwd
  | .tmpdir =>
    match host.tmpdir with
    | none => none
    | some tmpdir => if tmpdir = [] then none else AbsolutePathBuf.fromAbsolutePath host tmpdir
  | .slashTmp => if host.isDir slashTmpPath then some slashTmpPath else none

def resolveFileSystemPath (host : Host) (path : FileSystemPath) (cwd : Option AbsolutePathBuf) :
    Option AbsolutePathBuf :=
  match path with
  | .path path => some path
  | .globPattern _ => none
  | .special value => resolveFileSystemSpecialPath host value cwd

def resolveEntryPath (host : Host) (path : FileSystemPath) (cwd : Option AbsolutePathBuf) :
    Option AbsolutePathBuf :=
  match path with
  | .special .root => cwd.map fun _ => .root
  | path => resolveFileSystemPath host path cwd

/-- A path that is looked up is resolved against `cwd` if it is relative. -/
def resolveCandidatePath (host : Host) (path cwd : Str) : Option AbsolutePathBuf :=
  if startsWith path ['/'] then AbsolutePathBuf.fromAbsolutePath host path
  else (AbsolutePathBuf.fromAbsolutePath host cwd).map (AbsolutePathBuf.join host.home · path)

def specialPathsShareTarget : FileSystemSpecialPath → FileSystemSpecialPath → Bool
  | .root, .root => true
  | .minimal, .minimal => true
  | .tmpdir, .tmpdir => true
  | .slashTmp, .slashTmp => true
  | .projectRoots left, .projectRoots right => left = right
  | .unknown left leftSubpath, .unknown right rightSubpath =>
    left = right ∧ leftSubpath = rightSubpath
  | _, _ => false

def specialPathMatchesAbsolutePath (value : FileSystemSpecialPath) (path : AbsolutePathBuf) : Bool :=
  match value with
  | .root => path.parent.isNone
  | .slashTmp => path = slashTmpPath
  | _ => false

def fileSystemPathsShareTarget : FileSystemPath → FileSystemPath → Bool
  | .path left, .path right => left = right
  | .special left, .special right => specialPathsShareTarget left right
  | .path path, .special value => specialPathMatchesAbsolutePath value path
  | .special value, .path path => specialPathMatchesAbsolutePath value path
  | .globPattern left, .globPattern right => left = right
  | _, _ => false

namespace FileSystemSandboxPolicy

def ofRestricted (entries : List FileSystemSandboxEntry) : FileSystemSandboxPolicy :=
  ⟨.restricted, none, entries⟩

variable (policy : FileSystemSandboxPolicy)

def hasRootAccess (predicate : FileSystemAccessMode → Bool) : Bool :=
  policy.kind = .restricted ∧
    policy.entries.any fun entry => entry.path = .special .root ∧ predicate entry.access

def hasDeniedReadRestrictions : Bool :=
  policy.kind = .restricted ∧ policy.entries.any fun entry => entry.access = .none

variable (entry : FileSystemSandboxEntry)

/-- A `write` entry for the same target beats the entry. -/
def hasSameTargetWriteOverride : Bool :=
  policy.entries.any fun candidate =>
    candidate.access.canWrite ∧ entry.access < candidate.access ∧
      fileSystemPathsShareTarget candidate.path entry.path

/-- The entry reduces a grant to write everywhere. -/
def isWriteNarrowing : Bool :=
  if entry.access.canWrite then false
  else
    match entry.path with
    | .path _ => !policy.hasSameTargetWriteOverride entry
    | .globPattern _ => true
    | .special .root => entry.access = .none
    | .special .minimal => false
    | .special (.unknown ..) => false
    | .special _ => !policy.hasSameTargetWriteOverride entry

def hasWriteNarrowingEntries : Bool :=
  policy.kind = .restricted ∧ policy.entries.any policy.isWriteNarrowing

def hasFullDiskReadAccess : Bool :=
  match policy.kind with
  | .restricted =>
    policy.hasRootAccess FileSystemAccessMode.canRead && !policy.hasDeniedReadRestrictions
  | _ => true

def hasFullDiskWriteAccess : Bool :=
  match policy.kind with
  | .restricted =>
    policy.hasRootAccess FileSystemAccessMode.canWrite && !policy.hasWriteNarrowingEntries
  | _ => true

variable (host : Host)

def resolvedEntriesWithCwd (cwd : Str) : List ResolvedFileSystemEntry :=
  let cwdAbsolute := AbsolutePathBuf.fromAbsolutePath host cwd
  policy.entries.filterMap fun entry =>
    (resolveEntryPath host entry.path cwdAbsolute).map (⟨·, entry.access⟩)

/-- Entries that tie are equal, so that it does not matter which of them is taken. -/
def resolveAccessWithCwd (path cwd : Str) : FileSystemAccessMode :=
  match policy.kind with
  | .restricted =>
    match resolveCandidatePath host path cwd with
    | none => .none
    | some path =>
      ((Specificity.governing (fun entry => entry.path.components) ResolvedFileSystemEntry.access
        (policy.resolvedEntriesWithCwd host cwd) path.components).map
          ResolvedFileSystemEntry.access).getD .none
  | _ => .write

def canReadPathWithCwd (path cwd : Str) : Bool := (policy.resolveAccessWithCwd host path cwd).canRead

end FileSystemSandboxPolicy

def metadataPathName (name : Str) : Option Str := protectedMetadataPathNames.find? (· = name)

/-- The protected name that comes first in the target below the path of a writable entry. -/
def exposedMetadataName (entry : ResolvedFileSystemEntry) (target : AbsolutePathBuf) : Option Str :=
  if target.startsWith entry.path then
    (target.components.drop entry.path.components.length).head?.bind metadataPathName
  else none

namespace FileSystemSandboxPolicy
variable (policy : FileSystemSandboxPolicy) (host : Host)

def metadataChildOfWritableRoot (target : AbsolutePathBuf) (cwd : Str) :
    Option (AbsolutePathBuf × Str) :=
  ((policy.resolvedEntriesWithCwd host cwd).filter fun entry => entry.access.canWrite).findSome?
    fun entry => (exposedMetadataName entry target).map fun name =>
      (entry.path.join host.home name, name)

def hasExplicitWriteEntryForMetadataPath (protectedMetadataPath target : AbsolutePathBuf)
    (cwd : Str) : Bool :=
  (policy.resolvedEntriesWithCwd host cwd).any fun entry =>
    entry.access.canWrite ∧ target.startsWith entry.path ∧
      entry.path.startsWith protectedMetadataPath

def isMetadataWriteDenied (path cwd : Str) : Bool :=
  if policy.kind ≠ .restricted then false
  else
    match resolveCandidatePath host path cwd with
    | none => true
    | some target =>
      match policy.metadataChildOfWritableRoot host target cwd with
      | none => false
      | some (protectedMetadataPath, _) =>
        !policy.hasExplicitWriteEntryForMetadataPath host protectedMetadataPath target cwd

def canWritePathWithCwd (path cwd : Str) : Bool :=
  if !(policy.resolveAccessWithCwd host path cwd).canWrite then false
  else if policy.hasFullDiskWriteAccess then true
  else !policy.isMetadataWriteDenied host path cwd

end FileSystemSandboxPolicy

section
variable (host : Host) (path : AbsolutePathBuf)

/-- The deepest ancestor that exists is replaced by its canonical form. -/
def normalizeEffectiveAbsolutePath : AbsolutePathBuf :=
  (path.ancestors.findSome? fun ancestor =>
    if (host.symlinkMetadata ancestor).isNone then none
    else some (path.rebase ancestor (canonicalizePreservingSymlinks host ancestor))).getD path

def dedupAbsolutePaths (paths : List AbsolutePathBuf) (normalizeEffectivePaths : Bool) :
    List AbsolutePathBuf :=
  Lists.pushAll [] <| paths.map fun path =>
    if normalizeEffectivePaths then normalizeEffectiveAbsolutePath host path else path

def normalizedAndCanonicalCandidates : List AbsolutePathBuf :=
  match host.canonicalize path with
  | some canonical => Lists.push [path] canonical
  | none => [path]

end

namespace FileSystemSandboxPolicy
variable (policy : FileSystemSandboxPolicy) (host : Host)

/-- The entry for the paths every command needs is there and allows to read. -/
def includePlatformDefaults : Bool :=
  !policy.hasFullDiskReadAccess ∧ policy.kind = .restricted ∧
    policy.entries.any fun entry => entry.path = .special .minimal ∧ entry.access.canRead

variable (cwd : Str)

def getReadableRootsWithCwd : List AbsolutePathBuf :=
  if policy.hasFullDiskReadAccess then []
  else
    dedupAbsolutePaths host
      ((((policy.resolvedEntriesWithCwd host cwd).filter fun entry => entry.access.canRead).filter
        fun entry => policy.canReadPathWithCwd host entry.path.display cwd).map
          ResolvedFileSystemEntry.path) true

/-- The file-system root is left out: what no entry allows is denied anyway. -/
def getUnreadableRootsWithCwd : List AbsolutePathBuf :=
  if policy.kind ≠ .restricted then []
  else
    let root := (AbsolutePathBuf.fromAbsolutePath host cwd).map fun _ => AbsolutePathBuf.root
    dedupAbsolutePaths host
      ((((policy.resolvedEntriesWithCwd host cwd).filter fun entry => entry.access = .none).filter
        fun entry => !policy.canReadPathWithCwd host entry.path.display cwd ∧
          root ≠ some entry.path).map ResolvedFileSystemEntry.path) true

/-- The globs are only looked through, so that their order does not matter. -/
def getUnreadableGlobsWithCwd : List Str :=
  if policy.kind ≠ .restricted then []
  else
    Lists.pushAll [] <| (policy.entries.filter fun entry => entry.access = .none).filterMap
      fun entry =>
        match entry.path with
        | .globPattern pattern =>
          some (AbsolutePathBuf.resolvePathAgainstBase host.home pattern
            (absolutizeFrom cwd .root)).display
        | _ => none

end FileSystemSandboxPolicy

abbrev BuildGlobMatcher := Str → Option (AbsolutePathBuf → Bool)

structure ReadDenyMatcher where
  deniedCandidates : List (List AbsolutePathBuf)
  denyReadMatchers : List (AbsolutePathBuf → Bool)
  invalidPattern : Bool

namespace ReadDenyMatcher

/-- No matcher if the policy denies nothing. -/
def new (host : Host) (buildGlobMatcher : BuildGlobMatcher) (policy : FileSystemSandboxPolicy)
    (cwd : Str) : Option ReadDenyMatcher :=
  if !policy.hasDeniedReadRestrictions then none
  else
    let patterns := policy.getUnreadableGlobsWithCwd host cwd
    some
      { deniedCandidates :=
          (policy.getUnreadableRootsWithCwd host cwd).map (normalizedAndCanonicalCandidates host)
        denyReadMatchers := patterns.filterMap buildGlobMatcher
        invalidPattern := patterns.any fun pattern => (buildGlobMatcher pattern).isNone }

def isReadDenied (host : Host) (matcher : ReadDenyMatcher) (path : AbsolutePathBuf) : Bool :=
  if matcher.invalidPattern then true
  else
    let pathCandidates := normalizedAndCanonicalCandidates host path
    if matcher.deniedCandidates.any fun deniedCandidates => pathCandidates.any fun candidate =>
        deniedCandidates.any fun deniedCandidate => candidate.startsWith deniedCandidate
    then true
    else matcher.denyReadMatchers.any fun isMatch => pathCandidates.any isMatch

end ReadDenyMatcher

structure WritableRoot where
  root : AbsolutePathBuf
  readOnlySubpaths : List AbsolutePathBuf
  protectedMetadataNames : List Str

/-- A path as it is spelled starts with an absolute path. -/
def pathStartsWith (path : Str) (base : AbsolutePathBuf) : Bool :=
  startsWith path ['/'] ∧ base.components <+: pathComponents path

namespace WritableRoot
variable (writableRoot : WritableRoot) (path : Str)

def pathContainsProtectedMetadataName : Bool :=
  if pathStartsWith path writableRoot.root then
    ((pathComponents path).drop writableRoot.root.components.length).head?.any
      (· ∈ writableRoot.protectedMetadataNames)
  else false

def isPathWritable : Bool :=
  if !pathStartsWith path writableRoot.root then false
  else if writableRoot.readOnlySubpaths.any (pathStartsWith path) then false
  else if writableRoot.pathContainsProtectedMetadataName path then false
  else true

end WritableRoot

section
variable (host : Host)

def isGitPointerFile (path : AbsolutePathBuf) : Bool :=
  host.isFile path ∧ path.components.getLast? = some ".git".toList

/-- The directory that a file of the form `gitdir: <path>` points to. -/
def resolveGitdirFromFile (dotGit : AbsolutePathBuf) : Option AbsolutePathBuf := do
  let contents ← host.readToString dotGit
  let trimmed := trim contents
  let index ← trimmed.idxOf? ':'
  if trim (trimmed.take index) ≠ "gitdir".toList then none
  else
    let gitdirRaw := trim (trimmed.drop (index + 1))
    if gitdirRaw = [] then none
    else
      let base ← dotGit.parent
      let gitdirPath := AbsolutePathBuf.resolvePathAgainstBase host.home gitdirRaw base
      if host.pathExists gitdirPath then some gitdirPath else none

def defaultReadOnlySubpathsForWritableRoot (writableRoot : AbsolutePathBuf)
    (protectMissingDotCodex : Bool) : List AbsolutePathBuf :=
  let topLevelGit := writableRoot.join host.home ".git".toList
  let topLevelAgents := writableRoot.join host.home ".agents".toList
  let topLevelCodex := writableRoot.join host.home ".codex".toList
  let topLevelXtech := writableRoot.join host.home ".xtech".toList
  let gitdir :=
    if host.isFile topLevelGit ∧ isGitPointerFile host topLevelGit then
      (resolveGitdirFromFile host topLevelGit).toList
    else []
  dedupAbsolutePaths host
    ((if host.isDir topLevelGit ∨ host.isFile topLevelGit then gitdir ++ [topLevelGit] else []) ++
      (if host.isDir topLevelAgents then [topLevelAgents] else []) ++
      (if protectMissingDotCodex ∨ host.isDir topLevelCodex then [topLevelCodex] else []) ++
      (if protectMissingDotCodex ∨ host.isDir topLevelXtech then [topLevelXtech] else [])) false

end

def hasExplicitResolvedPathEntry (entries : List ResolvedFileSystemEntry)
    (path : AbsolutePathBuf) : Bool :=
  entries.any fun entry => entry.path = path

namespace FileSystemSandboxPolicy
variable (policy : FileSystemSandboxPolicy) (host : Host) (root : AbsolutePathBuf)

variable (rawWritableRoots : List AbsolutePathBuf) (cwd : Str)

def protectedMetadataNamesForWritableRoot : List Str :=
  protectedMetadataPathNames.filter fun metadataName =>
    ((root :: rawWritableRoots).map fun path => path.join host.home metadataName).all
      fun metadataPath => !policy.canWritePathWithCwd host metadataPath.display cwd

/-- Where an entry that does not allow to write is masked: as it is spelled if that lies below a
spelling of the root, and its canonical form otherwise. -/
def carveoutPath (entryPath : AbsolutePathBuf) : Option AbsolutePathBuf :=
  let effectivePath := normalizeEffectiveAbsolutePath host entryPath
  let rawCarveoutPath : Option AbsolutePathBuf :=
    if root.parent.isSome then
      if entryPath = root then none
      else if entryPath.startsWith root then some entryPath
      else
        rawWritableRoots.findSome? fun rawRoot =>
          if entryPath.startsWith rawRoot then
            let suffix := entryPath.components.drop rawRoot.components.length
            if suffix = [] then none else some (root.join host.home (['/'].intercalate suffix))
          else none
    else none
  match rawCarveoutPath with
  | some rawCarveoutPath => some rawCarveoutPath
  | none =>
    if effectivePath = root ∨ !effectivePath.startsWith root then none else some effectivePath

/-- The paths of the entries that allow to write and are not overruled by another entry. -/
def writableEntriesWithCwd : List AbsolutePathBuf :=
  (((policy.resolvedEntriesWithCwd host cwd).filter fun entry => entry.access.canWrite).filter
    fun entry => policy.canWritePathWithCwd host entry.path.display cwd).map
      ResolvedFileSystemEntry.path

/-- One root with its exceptions. -/
def writableRootWithCwd (root : AbsolutePathBuf) : WritableRoot :=
  let resolvedEntries := policy.resolvedEntriesWithCwd host cwd
  let rawWritableRoots := (policy.writableEntriesWithCwd host cwd).filter
    fun path => normalizeEffectiveAbsolutePath host path = root
  let protectMissingDotCodex := (AbsolutePathBuf.fromAbsolutePath host cwd).any
    fun cwd => normalizeEffectiveAbsolutePath host cwd = root
  let defaults :=
    (defaultReadOnlySubpathsForWritableRoot host root protectMissingDotCodex).filter
      fun path => !hasExplicitResolvedPathEntry resolvedEntries path
  let carveouts := ((resolvedEntries.filter fun entry => !entry.access.canWrite).filter
    fun entry => !policy.canWritePathWithCwd host entry.path.display cwd).filterMap
      fun entry => carveoutPath host root rawWritableRoots entry.path
  { root
    readOnlySubpaths := dedupAbsolutePaths host (defaults ++ carveouts) false
    protectedMetadataNames :=
      policy.protectedMetadataNamesForWritableRoot host root rawWritableRoots cwd }

def getWritableRootsWithCwd : List WritableRoot :=
  if policy.hasFullDiskWriteAccess then []
  else
    (dedupAbsolutePaths host (policy.writableEntriesWithCwd host cwd) true).map
      (policy.writableRootWithCwd host cwd)

end FileSystemSandboxPolicy

end CodexRs.Protocol
