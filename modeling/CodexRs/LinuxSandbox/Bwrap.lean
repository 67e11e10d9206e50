import Mathlib
import CodexRs.Library.Layers
import CodexRs.Protocol.Permissions

/-!
# The mounts of a bubblewrap sandbox

A read-only or empty base, then one pass for each writable root, shallow roots first.
-/
namespace CodexRs.LinuxSandbox
open Text Files Protocol

/-- What the arguments depend on beside what resolving a policy reads from the disk. -/
structure MountHost extends Host where
  fileLen : AbsolutePathBuf → ℕ
  directoryIsEmpty : AbsolutePathBuf → Bool

inductive BwrapArg where
  | roBind (path : AbsolutePathBuf)
  | bind (path : AbsolutePathBuf)
  | dev (path : AbsolutePathBuf)
  | tmpfs (path : AbsolutePathBuf)
  | roBindData (path : AbsolutePathBuf)
  | perms (mode : Str)
  | dir (path : AbsolutePathBuf)
  | remountRo (path : AbsolutePathBuf)

/-- What a mount lets a command do with the real contents below its target. -/
inductive MountAccess where
  | writable
  | readable
  | hidden
deriving DecidableEq

/-- The mount an argument makes: what is put over the real contents hides them. -/
def BwrapArg.mount : BwrapArg → Option (Layers.Layer Str MountAccess)
  | .roBind path => some ⟨path.components, .readable⟩
  | .bind path => some ⟨path.components, .writable⟩
  | .dev path => some ⟨path.components, .hidden⟩
  | .tmpfs path => some ⟨path.components, .hidden⟩
  | .roBindData path => some ⟨path.components, .hidden⟩
  | .perms _ => none
  | .dir _ => none
  | .remountRo _ => none

def mounts (args : List BwrapArg) : List (Layers.Layer Str MountAccess) :=
  args.filterMap BwrapArg.mount

/-- The access that the last mount at or above a path gives. -/
def mountedAccess (args : List BwrapArg) (path : AbsolutePathBuf) : MountAccess :=
  (Layers.visible (mounts args) path.components).getD .hidden

def devPath : AbsolutePathBuf := ⟨["dev".toList], by decide⟩

def linuxPlatformDefaultReadRoots : List AbsolutePathBuf :=
  [⟨["bin".toList], by decide⟩, ⟨["sbin".toList], by decide⟩, ⟨["usr".toList], by decide⟩,
    ⟨["etc".toList], by decide⟩, ⟨["lib".toList], by decide⟩, ⟨["lib64".toList], by decide⟩,
    ⟨["nix".toList, "store".toList], by decide⟩,
    ⟨["run".toList, "current-system".toList, "sw".toList], by decide⟩]

section
variable (path : AbsolutePathBuf)

/-- The root is a component of its own. -/
def pathDepth : ℕ := path.components.length + 1

variable (paths : List AbsolutePathBuf)

def sortByDepth : List AbsolutePathBuf :=
  paths.insertionSort fun a b => pathDepth a ≤ pathDepth b

/-- The paths in their order, each once. -/
def sortedUnique : List AbsolutePathBuf :=
  (paths.insertionSort fun a b => a.components ≤ b.components).dedup

/-- What is met on the way down from the root to the path, the root left out. -/
def descent : List AbsolutePathBuf :=
  (List.range path.components.length).map fun n => path.take (n + 1)

def isProtectedMetadataFile : Bool :=
  path.components.getLast?.any (· ∈ protectedMetadataPathNames)

def isWithinAllowedWritePaths (allowedWritePaths : List AbsolutePathBuf) : Bool :=
  allowedWritePaths.any fun root => path.startsWith root

variable (host : MountHost)

def firstSymlink : List AbsolutePathBuf → Bool
  | [] => false
  | current :: rest =>
    match host.symlinkMetadata current with
    | none => false
    | some true => true
    | some false => firstSymlink rest

/-- The real location of a path if a symbolic link is on the way to it. -/
def canonicalTargetIfSymlinkedPath (path : AbsolutePathBuf) : Option AbsolutePathBuf :=
  if firstSymlink host (descent path) then
    (host.canonicalize path).bind fun target => if target = path then none else some target
  else none

def firstWritableSymlink (allowedWritePaths : List AbsolutePathBuf) :
    List AbsolutePathBuf → Option AbsolutePathBuf
  | [] => none
  | current :: rest =>
    match host.symlinkMetadata current with
    | none => none
    | some isSymlink =>
      if isSymlink ∧ isWithinAllowedWritePaths current allowedWritePaths then some current
      else firstWritableSymlink allowedWritePaths rest

variable (targetPath : AbsolutePathBuf)

def firstWritableSymlinkComponentInPath
    (allowedWritePaths : List AbsolutePathBuf) : Option AbsolutePathBuf :=
  firstWritableSymlink host allowedWritePaths (descent targetPath)

def findFirstNonExistentComponent : Option AbsolutePathBuf :=
  (descent targetPath).find? fun current => !host.pathExists current

def remapPathsForSymlinkTarget (paths : List AbsolutePathBuf) (root target : AbsolutePathBuf) :
    List AbsolutePathBuf :=
  paths.map fun path => if path.startsWith root then path.rebase root target else path

inductive EmptyProtectedMetadataPath where
  | file
  | directory

def transientEmptyMetadataPath (path : AbsolutePathBuf) : Option EmptyProtectedMetadataPath :=
  if !isProtectedMetadataFile path then none
  else
    -- the metadata of a symbolic link is that of neither a file nor a directory
    match host.symlinkMetadata path with
    | some false =>
      if host.isFile path ∧ host.fileLen path = 0 then some .file
      else if host.isDir path ∧ host.directoryIsEmpty path then some .directory
      else none
    | _ => none

def ancestorHasGitMetadata (ancestor : AbsolutePathBuf) : Bool :=
  let gitPath := ancestor.join host.home ".git".toList
  match host.symlinkMetadata gitPath with
  | some false =>
    if host.isDir gitPath then
      (host.symlinkMetadata (gitPath.join host.home "HEAD".toList)).isSome
    else if host.isFile gitPath then
      (host.readToString gitPath).any fun contents =>
        startsWith (trimStart contents) "gitdir:".toList
    else false
  | _ => false

def shouldLeaveMissingGitForParentRepoDiscovery (mountRoot : AbsolutePathBuf) (name : Str) : Bool :=
  name = ".git".toList ∧ (host.symlinkMetadata (mountRoot.join host.home name)).isNone ∧
    (mountRoot.ancestors.drop 1).any (ancestorHasGitMetadata host)

end

section
variable (host : MountHost) (args : List BwrapArg)

def appendMountTargetParentDirArgs (mountTarget anchor : AbsolutePathBuf) : List BwrapArg :=
  let mountTargetDir := if host.isDir mountTarget then some mountTarget else mountTarget.parent
  match mountTargetDir with
  | none => args
  | some dir =>
    args ++ ((dir.ancestors.takeWhile fun path => path ≠ anchor).reverse.map BwrapArg.dir)

variable (path : AbsolutePathBuf)

def appendEmptyFileBindDataArgs : List BwrapArg :=
  args ++ [.roBindData path]

def appendEmptyDirectoryArgs : List BwrapArg :=
  args ++ [.perms "555".toList, .tmpfs path, .remountRo path]

def appendMissingReadOnlySubpathArgs : List BwrapArg :=
  if isProtectedMetadataFile path then appendEmptyDirectoryArgs args path
  else appendEmptyFileBindDataArgs args path

variable (allowedWritePaths : List AbsolutePathBuf)

def appendReadOnlySubpathArgs (subpath : AbsolutePathBuf) : Except Str (List BwrapArg) :=
  match firstWritableSymlinkComponentInPath host subpath allowedWritePaths with
  | some symlink =>
    .error ("cannot enforce sandbox read-only path ".toList ++ subpath.display ++
      " because it crosses writable symlink ".toList ++ symlink.display)
  | none =>
    match transientEmptyMetadataPath host subpath,
        isWithinAllowedWritePaths subpath allowedWritePaths with
    | some .file, true => .ok (appendEmptyFileBindDataArgs args subpath)
    | some .directory, true => .ok (appendEmptyDirectoryArgs args subpath)
    | _, within =>
      if !host.pathExists subpath then
        match findFirstNonExistentComponent host subpath with
        | some firstMissingComponent =>
          if isWithinAllowedWritePaths firstMissingComponent allowedWritePaths then
            .ok (appendMissingReadOnlySubpathArgs args firstMissingComponent)
          else .ok args
        | none => .ok args
      else if within then .ok (args ++ [.roBind subpath])
      else .ok args

variable (unreadableRoot : AbsolutePathBuf)

def appendExistingUnreadablePathArgs : List BwrapArg :=
  if host.isDir unreadableRoot then
    let writableDescendants := allowedWritePaths.filter fun path =>
      path ≠ unreadableRoot ∧ path.startsWith unreadableRoot
    let perms := if writableDescendants = [] then "000".toList else "111".toList
    (sortByDepth writableDescendants).foldl
      (fun args writableDescendant =>
        appendMountTargetParentDirArgs host args writableDescendant unreadableRoot)
      (args ++ [.perms perms, .tmpfs unreadableRoot]) ++ [.remountRo unreadableRoot]
  else appendEmptyFileBindDataArgs (args ++ [.perms "000".toList]) unreadableRoot

def appendUnreadableRootArgs : Except Str (List BwrapArg) :=
  match firstWritableSymlinkComponentInPath host unreadableRoot allowedWritePaths with
  | some symlink =>
    .error ("cannot enforce sandbox deny-read path ".toList ++ unreadableRoot.display ++
      " because it crosses writable symlink ".toList ++ symlink.display)
  | none =>
    if !host.pathExists unreadableRoot then
      match findFirstNonExistentComponent host unreadableRoot with
      | some firstMissingComponent =>
        if isWithinAllowedWritePaths firstMissingComponent allowedWritePaths then
          .ok (appendEmptyFileBindDataArgs args firstMissingComponent)
        else .ok args
      | none => .ok args
    else .ok (appendExistingUnreadablePathArgs host args allowedWritePaths unreadableRoot)

end

variable (host : MountHost) (policy : FileSystemSandboxPolicy) (cwd : Str)

/-- A path as it is spelled that is a single name. -/
def isPathNamed (path name : Str) : Bool :=
  (path.splitOn '/').head? = some name ∧ pathComponents path = [name]

/-- The paths of entries made to protect metadata that is not there. -/
def missingAutoMetadataReadOnlyProjectRootSubpaths : List AbsolutePathBuf :=
  (policy.entries.filter fun entry => entry.access = .read).filterMap fun entry =>
    match entry.path with
    | .special (.projectRoots (some subpath)) =>
      if [".git".toList, ".agents".toList, ".codex".toList].any (isPathNamed subpath) then
        let resolved := AbsolutePathBuf.resolvePathAgainstBase host.home subpath
          (absolutizeFrom cwd .root)
        if host.pathExists resolved then none else some resolved
      else none
    | _ => none

/-- Roots that do not exist cannot be bound. -/
def boundWritableRoots : List WritableRoot :=
  let writableRoots := (policy.getWritableRootsWithCwd host.toHost cwd).filter
    fun writableRoot => host.pathExists writableRoot.root
  if writableRoots = [] ∧ policy.hasFullDiskWriteAccess ∧
      policy.getUnreadableGlobsWithCwd host.toHost cwd ≠ [] then
    [⟨.root, [], []⟩]
  else writableRoots

def sortedWritableRoots : List WritableRoot :=
  (boundWritableRoots host policy cwd).insertionSort
    fun a b => pathDepth a.root ≤ pathDepth b.root

def allowedWritePaths : List AbsolutePathBuf :=
  (boundWritableRoots host policy cwd).flatMap fun writableRoot =>
    writableRoot.root :: (canonicalTargetIfSymlinkedPath host writableRoot.root).toList

def readableBaseArgs : List BwrapArg := [.roBind .root, .dev devPath]

def baseArgs : List BwrapArg :=
  if policy.hasFullDiskReadAccess then readableBaseArgs
  else
    let readableRoots := sortedUnique (policy.getReadableRootsWithCwd host.toHost cwd ++
      if policy.includePlatformDefaults then
        linuxPlatformDefaultReadRoots.filter fun path => host.pathExists path
      else [])
    if AbsolutePathBuf.root ∈ readableRoots then readableBaseArgs
    else
      [.tmpfs .root, .dev devPath] ++
        (readableRoots.filter fun root => host.pathExists root).map fun root =>
          .roBind <|
            if (boundWritableRoots host policy cwd).any
                fun writableRoot => root.startsWith writableRoot.root then
              (canonicalTargetIfSymlinkedPath host root).getD root
            else root

def appendMetadataPathMasksForWritableRoot (readOnlySubpaths : List AbsolutePathBuf)
    (root mountRoot : AbsolutePathBuf) (protectedMetadataNames : List Str) :
    List AbsolutePathBuf :=
  protectedMetadataNames.foldl
    (fun readOnlySubpaths name =>
      let path := root.join host.home name
      if shouldLeaveMissingGitForParentRepoDiscovery host mountRoot name then readOnlySubpaths
      else if path ∈ readOnlySubpaths then readOnlySubpaths
      else readOnlySubpaths ++ [path])
    readOnlySubpaths

variable (unreadableRoots : List AbsolutePathBuf)

/-- The paths below a root that are put back read-only. -/
def readOnlySubpathsToBind (writableRoot : WritableRoot) (mountRoot : AbsolutePathBuf) :
    List AbsolutePathBuf :=
  appendMetadataPathMasksForWritableRoot host
    ((writableRoot.readOnlySubpaths.filter fun path => path ∉ unreadableRoots).filter
      fun path => path ∉ missingAutoMetadataReadOnlyProjectRootSubpaths host policy cwd)
    writableRoot.root mountRoot writableRoot.protectedMetadataNames

variable (args : List BwrapArg)

/-- Below a denied path that is masked already, the directories above a root are made again. -/
def appendMaskedParentDirArgs (root : AbsolutePathBuf) : List BwrapArg :=
  match (unreadableRoots.filter fun unreadableRoot =>
      root.startsWith unreadableRoot).argmax pathDepth with
  | some maskingRoot => appendMountTargetParentDirArgs host args root maskingRoot
  | none => args

/-- The pass for one writable root. -/
def appendWritableRootArgs (writableRoot : WritableRoot) : Except Str (List BwrapArg) := do
  let root := writableRoot.root
  let symlinkTarget := canonicalTargetIfSymlinkedPath host root
  let args := appendMaskedParentDirArgs host unreadableRoots args root
  let mountRoot := symlinkTarget.getD root
  let remap := fun paths =>
    match symlinkTarget with
    | some target => remapPathsForSymlinkTarget paths root target
    | none => paths
  let readOnlySubpaths := remap
    (readOnlySubpathsToBind host policy cwd unreadableRoots writableRoot mountRoot)
  let nestedUnreadableRoots := remap
    (unreadableRoots.filter fun unreadableRoot => unreadableRoot.startsWith root)
  let allowed := allowedWritePaths host policy cwd
  let args ← (sortByDepth readOnlySubpaths).foldlM
    (fun args subpath => appendReadOnlySubpathArgs host args allowed subpath)
    (args ++ [.bind mountRoot])
  (sortByDepth nestedUnreadableRoots).foldlM
    (fun args unreadableRoot => appendUnreadableRootArgs host args allowed unreadableRoot) args

/-- The denied paths that lie outside every writable root and above one. -/
def unreadableAncestorsOfWritableRoots : List AbsolutePathBuf :=
  unreadableRoots.filter fun unreadableRoot =>
    !isWithinAllowedWritePaths unreadableRoot (allowedWritePaths host policy cwd) ∧
      (allowedWritePaths host policy cwd).any fun root => root.startsWith unreadableRoot

/-- The denied paths that are neither above nor below a writable root. -/
def rootlessUnreadableRoots : List AbsolutePathBuf :=
  unreadableRoots.filter fun unreadableRoot =>
    !(allowedWritePaths host policy cwd).any fun root =>
      unreadableRoot.startsWith root ∨ root.startsWith unreadableRoot

/-- The existing matches of glob patterns, or why they cannot be listed. -/
abbrev ExpandGlobs := List Str → Str → Option ℕ → Except Str (List AbsolutePathBuf)

variable (expandGlobs : ExpandGlobs)

def expandUnreadableGlobsWithRipgrep (patterns : List Str) (cwd : Str)
    (maxDepth : Option ℕ) : Except Str (List AbsolutePathBuf) :=
  if patterns = [] ∨ maxDepth = some 0 then .ok [] else expandGlobs patterns cwd maxDepth

def createFilesystemArgs (globScanMaxDepth : Option ℕ) : Except Str (List BwrapArg) := do
  let expanded ← expandUnreadableGlobsWithRipgrep expandGlobs
    (policy.getUnreadableGlobsWithCwd host.toHost cwd) cwd globScanMaxDepth
  let unreadableRoots :=
    sortedUnique (policy.getUnreadableRootsWithCwd host.toHost cwd ++ expanded)
  let appendUnreadable := fun args unreadableRoot =>
    appendUnreadableRootArgs host args (allowedWritePaths host policy cwd) unreadableRoot
  let args ← (sortByDepth (unreadableAncestorsOfWritableRoots host policy cwd
    unreadableRoots)).foldlM appendUnreadable (baseArgs host policy cwd)
  let args ← (sortedWritableRoots host policy cwd).foldlM
    (appendWritableRootArgs host policy cwd unreadableRoots) args
  (sortByDepth (rootlessUnreadableRoots host policy cwd unreadableRoots)).foldlM
    appendUnreadable args

end CodexRs.LinuxSandbox
