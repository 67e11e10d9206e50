import CodexRs.Files.Path

/-!
# What paths are resolved against

The environment of the process and the disk, as far as resolving a path reads them.
-/
namespace CodexRs.Files
open Text

structure Host where
  home : Option Str
  currentDir : Option AbsolutePathBuf
  tmpdir : Option Str
  isDir : AbsolutePathBuf → Bool
  isFile : AbsolutePathBuf → Bool
  pathExists : AbsolutePathBuf → Bool
  readToString : AbsolutePathBuf → Option Str
  /-- Whether the entry at the path is a symbolic link; nothing if there is no entry. -/
  symlinkMetadata : AbsolutePathBuf → Option Bool
  canonicalize : AbsolutePathBuf → Option AbsolutePathBuf

/-- A host with nothing on its disk and no environment. -/
def Host.bare : Host where
  home := none
  currentDir := none
  tmpdir := none
  isDir _ := false
  isFile _ := false
  pathExists _ := false
  readToString _ := none
  symlinkMetadata _ := none
  canonicalize _ := none

namespace AbsolutePathBuf

theorem normal_nil (c : Str) (h : c ∈ ([] : List Str)) : NormalComponent c :=
  absurd h List.not_mem_nil

def root : AbsolutePathBuf := ⟨[], normal_nil⟩

def take (path : AbsolutePathBuf) (n : ℕ) : AbsolutePathBuf :=
  ⟨path.components.take n, fun c hc => path.normal c (List.mem_of_mem_take hc)⟩

variable (path : AbsolutePathBuf)

/-- The path, its parent and so on up to the root. -/
def ancestors : List AbsolutePathBuf :=
  (List.range (path.components.length + 1)).reverse.map path.take

/-- `path` with its first components, as many as `old` has, replaced by those of `new`. -/
def rebase (path old new : AbsolutePathBuf) : AbsolutePathBuf where
  components := new.components ++ path.components.drop old.components.length
  normal c hc := by
    rcases List.mem_append.mp hc with h | h
    · exact new.normal c h
    · exact path.normal c (List.mem_of_mem_drop h)

def startsWith (path base : AbsolutePathBuf) : Bool := base.components <+: path.components

theorem startsWith_iff {path base : AbsolutePathBuf} :
    path.startsWith base = true ↔ base.components <+: path.components := by
  rw [startsWith, decide_eq_true_iff]

/-- A relative path is resolved against the current directory of the process. -/
def fromAbsolutePath (host : Host) (path : Str) : Option AbsolutePathBuf :=
  let expanded := maybeExpandHomeDirectory host.home path
  if Text.startsWith expanded ['/'] then some (absolutizeFrom expanded root)
  else host.currentDir.map (absolutizeFrom expanded)

theorem fromAbsolutePath_of_slash (host : Host) {path : Str}
    (h : Text.startsWith path ['/'] = true) :
    fromAbsolutePath host path = some (absolutizeFrom path root) := by
  rw [fromAbsolutePath, maybeExpandHomeDirectory_of_slash host.home h]
  exact if_pos h

theorem startsWith_display : Text.startsWith path.display ['/'] = true := by
  unfold display
  split_ifs with h
  · rfl
  · cases hc : path.components with
    | nil => exact absurd hc h
    | cons c components => simp

theorem components_absolutizeFrom_of_slash {path : Str} (base : AbsolutePathBuf)
    (h : Text.startsWith path ['/'] = true) :
    (absolutizeFrom path base).components = normalizePath [] path := by
  change normalizePath (if Text.startsWith path ['/'] then [] else base.components) path = _
  rw [if_pos h]

@[ext] theorem ext {path path' : AbsolutePathBuf} (h : path.components = path'.components) :
    path = path' := by
  cases path
  cases path'
  simpa using h

theorem fromAbsolutePath_display (host : Host) (path : AbsolutePathBuf) :
    fromAbsolutePath host path.display = some path := by
  rw [fromAbsolutePath_of_slash host path.startsWith_display]
  congr 1
  ext1
  rw [components_absolutizeFrom_of_slash root path.startsWith_display, normalizePath_display]

end AbsolutePathBuf

/-- Some directory on the way, other than a top-level one, is a symbolic link. -/
def shouldPreserveLogicalPath (host : Host) (logical : AbsolutePathBuf) : Bool :=
  logical.ancestors.any fun ancestor =>
    host.symlinkMetadata ancestor = some true ∧ 2 ≤ ancestor.components.length

def canonicalizePreservingSymlinks (host : Host) (path : AbsolutePathBuf) : AbsolutePathBuf :=
  match host.canonicalize path with
  | some canonical =>
    if shouldPreserveLogicalPath host path ∧ canonical ≠ path then path else canonical
  | none => path

/-- The disk has no symbolic links: a path that exists is its own canonical form. -/
structure Host.LinkFree (host : Host) : Prop where
  symlinkMetadata : ∀ path, host.symlinkMetadata path ≠ some true
  canonicalize : ∀ path canonical, host.canonicalize path = some canonical → canonical = path

theorem Host.linkFree_bare : Host.bare.LinkFree where
  symlinkMetadata _ := by simp [Host.bare]
  canonicalize _ _ h := by simp [Host.bare] at h

theorem canonicalizePreservingSymlinks_of_linkFree {host : Host} (h : host.LinkFree)
    (path : AbsolutePathBuf) : canonicalizePreservingSymlinks host path = path := by
  unfold canonicalizePreservingSymlinks
  split
  · rename_i canonical hcanonical
    split_ifs
    · rfl
    · exact h.canonicalize path canonical hcanonical
  · rfl

end CodexRs.Files
