import CodexRs.Protocol.PermissionDecisions
import Mathlib.Data.PNat.Defs

/-!
# Merging and intersecting permissions

What is granted is cut down to what was requested, entry by entry, and then appended. An entry
that only allows to read takes away the permission to write below a writable one.
-/
namespace CodexRs.Sandboxing
open Text Files Protocol FileSystemSandboxPolicy

section

structure FileSystemPermissions where
  entries : List FileSystemSandboxEntry
  globScanMaxDepth : Option ℕ+

def FileSystemPermissions.isEmpty (permissions : FileSystemPermissions) : Bool :=
  permissions.entries.isEmpty

structure NetworkPermissions where
  enabled : Option Bool
deriving DecidableEq

structure AdditionalPermissionProfile where
  network : Option NetworkPermissions
  fileSystem : Option FileSystemPermissions

inductive GlobScanDepth where
  | bounded (depth : ℕ)
  | unbounded

/-- No depth if the entries have no glob that denies. -/
def effectiveGlobScanDepth (entries : List FileSystemSandboxEntry) (depth : Option ℕ) :
    Option GlobScanDepth :=
  let isDenyGlob (entry : FileSystemSandboxEntry) : Bool :=
    match entry.path with
    | .globPattern _ => entry.access = .none
    | _ => false
  if entries.any isDenyGlob then
    some (match depth with
      | some depth => .bounded depth
      | none => .unbounded)
  else none

def mergeGlobScanMaxDepth (leftEntries : List FileSystemSandboxEntry) (leftDepth : Option ℕ)
    (rightEntries : List FileSystemSandboxEntry) (rightDepth : Option ℕ) : Option ℕ :=
  match effectiveGlobScanDepth leftEntries leftDepth,
    effectiveGlobScanDepth rightEntries rightDepth with
  | some .unbounded, _ => none
  | _, some .unbounded => none
  | some (.bounded left), some (.bounded right) => some (max left right)
  | some (.bounded depth), none => some depth
  | none, some (.bounded depth) => some depth
  | none, none => none

section
variable (host : Host)

/-- The last of the ancestors of a relative `cwd` is the empty path. -/
def resolvePermissionPath (path : FileSystemPath) (cwd : Str) : Option AbsolutePathBuf :=
  match path with
  | .path path => some path
  | .globPattern _ => none
  | .special .root =>
    AbsolutePathBuf.fromAbsolutePath host (if startsWith cwd ['/'] then ['/'] else [])
  | .special value =>
    resolveFileSystemSpecialPath host value (AbsolutePathBuf.fromAbsolutePath host cwd)

def accessCovers (requested granted : FileSystemAccessMode) : Bool :=
  match granted with
  | .read => requested.canRead
  | .write => requested.canWrite
  | .none => false

def materializeCwdDependentEntry (entry : FileSystemSandboxEntry) (cwd : Str) :
    FileSystemSandboxEntry :=
  match entry.path with
  | .special (.projectRoots _) =>
    match resolvePermissionPath host entry.path cwd with
    | some path => ⟨.path path, entry.access⟩
    | none => entry
  | .globPattern pattern =>
    ⟨.globPattern (AbsolutePathBuf.resolvePathAgainstBase host.home pattern
      (absolutizeFrom cwd .root)).display, entry.access⟩
  | _ => entry

def pathsOverlap (left right : AbsolutePathBuf) : Bool :=
  left.startsWith right || right.startsWith left

/-- The directory in which a pattern starts to match, without its wildcards. -/
def globStaticPrefixPath (pattern cwd : Str) : Option AbsolutePathBuf :=
  let resolvedPattern := (AbsolutePathBuf.resolvePathAgainstBase host.home pattern
    (absolutizeFrom cwd .root)).display
  match resolvedPattern.findIdx? (· ∈ ['*', '?', '[', ']']) with
  | some 0 => none
  | some index =>
    let staticPart := resolvedPattern.take index
    if staticPart.getLast? = some '/' ∨ staticPart.getLast? = some '\\' then
      AbsolutePathBuf.fromAbsolutePath host staticPart
    else
      match pathComponents staticPart with
      | [] => none
      | components =>
        AbsolutePathBuf.fromAbsolutePath host ('/' :: ['/'].intercalate components.dropLast)
  | none => AbsolutePathBuf.fromAbsolutePath host resolvedPattern

def denyEntryConstrainsAcceptedGrant (denyEntry : FileSystemSandboxEntry)
    (acceptedEntries : List FileSystemSandboxEntry) (cwd : Str) : Bool :=
  (acceptedEntries.filter fun entry => entry.access.canRead).any fun entry =>
    match resolvePermissionPath host entry.path cwd with
    | none => false
    | some grantPath =>
      let denyPath :=
        match denyEntry.path with
        | .globPattern pattern => globStaticPrefixPath host pattern cwd
        | path => resolvePermissionPath host path cwd
      denyPath.any (pathsOverlap · grantPath)

/-- The entries that deny something below or above what is granted. -/
def retainConstrainingDenyEntries (sourceEntries acceptedEntries : List FileSystemSandboxEntry)
    (cwd : Str) : List FileSystemSandboxEntry :=
  ((sourceEntries.filter fun entry => entry.access = .none).filter
    (denyEntryConstrainsAcceptedGrant host · acceptedEntries cwd)).map
      (materializeCwdDependentEntry host · cwd)

def grantedFileSystemEntryWithinRequest (requested : FileSystemPermissions)
    (requestedPolicy : FileSystemSandboxPolicy) (requestedReadDenyMatcher : Option ReadDenyMatcher)
    (grantedEntry : FileSystemSandboxEntry) (cwd : Str) : Bool :=
  if !grantedEntry.access.canRead then false
  else
    match resolvePermissionPath host grantedEntry.path cwd with
    | some path =>
      if requestedReadDenyMatcher.any (ReadDenyMatcher.isReadDenied host · path) then false
      else accessCovers (requestedPolicy.resolveAccessWithCwd host path.display cwd)
        grantedEntry.access
    | none => requested.entries.any fun requestedEntry =>
        accessCovers requestedEntry.access grantedEntry.access ∧
          requestedEntry.path = grantedEntry.path

def intersectPermissionProfiles (buildGlobMatcher : BuildGlobMatcher)
    (requested granted : AdditionalPermissionProfile) (cwd : Str) : AdditionalPermissionProfile :=
  let fileSystem := requested.fileSystem.map fun requestedFileSystem =>
    let grantedFileSystem := granted.fileSystem.getD ⟨[], none⟩
    let requestedPolicy := FileSystemSandboxPolicy.ofRestricted requestedFileSystem.entries
    let requestedReadDenyMatcher := ReadDenyMatcher.new host buildGlobMatcher requestedPolicy cwd
    let acceptedEntries := Lists.pushAll [] <|
      (grantedFileSystem.entries.filter fun entry =>
        grantedFileSystemEntryWithinRequest host requestedFileSystem requestedPolicy
          requestedReadDenyMatcher entry cwd).map (materializeCwdDependentEntry host · cwd)
    let requestedRetainedDenyEntries :=
      retainConstrainingDenyEntries host requestedFileSystem.entries acceptedEntries cwd
    let grantedRetainedDenyEntries :=
      retainConstrainingDenyEntries host grantedFileSystem.entries acceptedEntries cwd
    { entries := Lists.pushAll (Lists.pushAll acceptedEntries requestedRetainedDenyEntries)
        grantedRetainedDenyEntries
      globScanMaxDepth := (mergeGlobScanMaxDepth
        requestedRetainedDenyEntries (requestedFileSystem.globScanMaxDepth.map PNat.val)
        grantedRetainedDenyEntries (grantedFileSystem.globScanMaxDepth.map PNat.val)).bind
          fun depth => if h : 0 < depth then some ⟨depth, h⟩ else none : FileSystemPermissions }
  { network :=
      match requested.network, granted.network with
      | some ⟨some true⟩, some ⟨some true⟩ => some ⟨some true⟩
      | _, _ => none
    fileSystem := fileSystem.filter fun fileSystem => !fileSystem.isEmpty }

end

variable (fileSystemPolicy : FileSystemSandboxPolicy)

def mergeFileSystemPolicyWithAdditionalPermissions
    (additionalPermissions : FileSystemPermissions) : FileSystemSandboxPolicy :=
  match fileSystemPolicy.kind with
  | .restricted =>
    { fileSystemPolicy with
      entries := Lists.pushAll fileSystemPolicy.entries additionalPermissions.entries
      globScanMaxDepth := mergeGlobScanMaxDepth fileSystemPolicy.entries
        fileSystemPolicy.globScanMaxDepth additionalPermissions.entries
        (additionalPermissions.globScanMaxDepth.map PNat.val) }
  | _ => fileSystemPolicy

def effectiveFileSystemSandboxPolicy
    (additionalPermissions : Option AdditionalPermissionProfile) : FileSystemSandboxPolicy :=
  match additionalPermissions with
  | none => fileSystemPolicy
  | some additionalPermissions =>
    match additionalPermissions.fileSystem with
    | none => fileSystemPolicy
    | some fileSystemPermissions =>
      if fileSystemPermissions.isEmpty then fileSystemPolicy
      else mergeFileSystemPolicyWithAdditionalPermissions fileSystemPolicy fileSystemPermissions

end

/-- How much an access allows. -/
def level : FileSystemAccessMode → ℕ
  | .none => 0
  | .read => 1
  | .write => 2

/-- The entries of a profile; none if it says nothing of the file system. -/
def profileEntries (profile : AdditionalPermissionProfile) : List FileSystemSandboxEntry :=
  (profile.fileSystem.map FileSystemPermissions.entries).getD []

def addedEntries (additional : Option AdditionalPermissionProfile) : List FileSystemSandboxEntry :=
  (additional.map profileEntries).getD []

variable {policy : FileSystemSandboxPolicy} {additional : Option AdditionalPermissionProfile}
  {host : Host} {path cwd : Str} {target : AbsolutePathBuf}

theorem effective_of_not_restricted (h : policy.kind ≠ .restricted) :
    effectiveFileSystemSandboxPolicy policy additional = policy := by
  unfold effectiveFileSystemSandboxPolicy mergeFileSystemPolicyWithAdditionalPermissions
  cases hkind : policy.kind with
  | restricted => exact absurd hkind h
  | unrestricted => aesop
  | externalSandbox => aesop

theorem effective_kind : (effectiveFileSystemSandboxPolicy policy additional).kind = policy.kind := by
  unfold effectiveFileSystemSandboxPolicy mergeFileSystemPolicyWithAdditionalPermissions
  aesop

theorem mem_effective_entries (h : policy.kind = .restricted) (entry : FileSystemSandboxEntry) :
    entry ∈ (effectiveFileSystemSandboxPolicy policy additional).entries ↔
      entry ∈ policy.entries ∨ entry ∈ addedEntries additional := by
  unfold effectiveFileSystemSandboxPolicy
  split
  · simp [addedEntries]
  · rename_i profile
    split
    · rename_i hprofile
      simp [addedEntries, profileEntries, hprofile]
    · rename_i permissions hprofile
      have hadded : addedEntries (some profile) = permissions.entries := by
        simp [addedEntries, profileEntries, hprofile]
      rw [hadded]
      split_ifs with hempty
      · rw [FileSystemPermissions.isEmpty, List.isEmpty_iff] at hempty
        simp [hempty]
      · simp only [mergeFileSystemPolicyWithAdditionalPermissions, h]
        exact Lists.mem_pushAll _ _

theorem mem_resolvedEntries_union {union left right : FileSystemSandboxPolicy}
    (h : ∀ entry, entry ∈ union.entries ↔ entry ∈ left.entries ∨ entry ∈ right.entries)
    (entry : ResolvedFileSystemEntry) : entry ∈ union.resolvedEntriesWithCwd host cwd ↔
      entry ∈ left.resolvedEntriesWithCwd host cwd ∨
        entry ∈ right.resolvedEntriesWithCwd host cwd := by
  simp only [resolvedEntriesWithCwd, List.mem_filterMap, h, or_and_right, exists_or]

/-- The additional entry for the target only allows to read and lies below the one of the policy
that allows to write. -/
def Narrows (base added : List ResolvedFileSystemEntry) (target : AbsolutePathBuf) : Prop :=
  ∃ outer inner, Governs base target outer ∧ Governs added target inner ∧
    outer.access = .write ∧ inner.access = .read ∧
      outer.path.components.length < inner.path.components.length

theorem level_accessAt_le_iff {base added all : List ResolvedFileSystemEntry}
    (hall : ∀ entry, entry ∈ all ↔ entry ∈ base ∨ entry ∈ added)
    (hadded : ∀ entry ∈ added, entry.access ≠ .none) :
    level (accessAt base target) ≤ level (accessAt all target) ↔ ¬ Narrows base added target := by
  constructor
  · rintro hle ⟨outer, inner, houter, hinner, hwrite, hread, hlt⟩
    have hgoverns : Governs all target inner := houter.of_deeper hall hinner hlt
    rw [accessAt_of_governs houter, accessAt_of_governs hgoverns, hwrite, hread] at hle
    exact absurd hle (by decide)
  · intro hnot
    rcases accessAt_cases base target with ⟨outer, houter⟩ | ⟨-, hnone⟩
    · obtain ⟨top, htop⟩ : ∃ top, Governs all target top :=
        Specificity.exists_governs ((hall outer).mpr (.inl houter.mem)) houter.on_way
      rw [accessAt_of_governs houter, accessAt_of_governs htop]
      rcases (hall top).mp htop.mem with hmem | hmem
      · have hbase : Governs base target top :=
          htop.restrict (fun entry he => (hall entry).mpr (.inl he)) hmem
        rw [(houter.unique hbase).2]
      · have hinner : Governs added target top :=
          htop.restrict (fun entry he => (hall entry).mpr (.inr he)) hmem
        have hrank := Specificity.rank_le_iff.mp
          (htop.top outer ((hall outer).mpr (.inl houter.mem)) houter.on_way)
        by_contra hgt
        -- Only a permission to write can be more than what an additional entry allows.
        have hmodes : outer.access = .write ∧ top.access = .read := by
          cases houterAccess : outer.access <;> cases htopAccess : top.access <;>
            simp_all [level]
        apply hnot
        refine ⟨outer, top, houter, hinner, hmodes.1, hmodes.2, ?_⟩
        rcases hrank with hlt | ⟨-, hle⟩
        · exact hlt
        · rw [hmodes.1, hmodes.2] at hle
          exact absurd hle (by decide)
    · rw [hnone]
      exact Nat.zero_le _

/-- Additional permissions add to what a policy allows unless one of them narrows it. -/
theorem effective_adds_iff (policy : FileSystemSandboxPolicy)
    (additional : Option AdditionalPermissionProfile) (host : Host) (path cwd : Str)
    (hadded : ∀ entry ∈ addedEntries additional, entry.access ≠ .none) :
    level (policy.resolveAccessWithCwd host path cwd) ≤
        level ((effectiveFileSystemSandboxPolicy policy additional).resolveAccessWithCwd host path
          cwd) ↔
      ¬ (policy.kind = .restricted ∧ ∃ target, resolveCandidatePath host path cwd = some target ∧
          Narrows (policy.resolvedEntriesWithCwd host cwd)
            ((ofRestricted (addedEntries additional)).resolvedEntriesWithCwd host cwd) target) := by
  by_cases hkind : policy.kind = .restricted
  · have hkind' : (effectiveFileSystemSandboxPolicy policy additional).kind = .restricted :=
      effective_kind.trans hkind
    cases hpath : resolveCandidatePath host path cwd with
    | none =>
      have hnone : policy.resolveAccessWithCwd host path cwd = .none := by
        simp only [resolveAccessWithCwd, hkind, hpath]
      simp [hnone, level]
    | some target =>
      rw [resolveAccess_eq_accessAt hkind hpath, resolveAccess_eq_accessAt hkind' hpath]
      have hentries : ∀ entry,
          entry ∈ (effectiveFileSystemSandboxPolicy policy additional).entries ↔
            entry ∈ policy.entries ∨ entry ∈ (ofRestricted (addedEntries additional)).entries :=
        mem_effective_entries hkind
      rw [level_accessAt_le_iff (mem_resolvedEntries_union hentries)]
      · simp [hkind]
      · intro entry hmem
        obtain ⟨raw, hraw, hresolved⟩ := List.mem_filterMap.mp hmem
        obtain ⟨_, -, rfl⟩ := Option.map_eq_some_iff.mp hresolved
        exact hadded raw hraw
  · rw [effective_of_not_restricted hkind]
    simp [hkind]

def writableA : FileSystemSandboxEntry := ⟨.path ⟨["a".toList], by decide⟩, .write⟩

def readableAB : FileSystemSandboxEntry :=
  ⟨.path ⟨["a".toList, "b".toList], by decide⟩, .read⟩

/-- An additional entry to read `/a/b` takes away what the policy allows there. -/
theorem effective_narrows :
    level ((ofRestricted [writableA]).resolveAccessWithCwd .bare "/a/b".toList "/".toList) = 2 ∧
      level ((effectiveFileSystemSandboxPolicy (ofRestricted [writableA])
        (some ⟨none, some ⟨[readableAB], none⟩⟩)).resolveAccessWithCwd .bare "/a/b".toList
          "/".toList) = 1 := by
  decide +kernel

theorem effective_adds_iff_widened :
    (∀ target, ¬ Narrows ((ofRestricted [readableAB]).resolvedEntriesWithCwd .bare "/".toList)
      ((ofRestricted [writableA]).resolvedEntriesWithCwd .bare "/".toList) target) ∧
    level ((ofRestricted [readableAB]).resolveAccessWithCwd .bare "/a/b".toList "/".toList) ≤
      level ((effectiveFileSystemSandboxPolicy (ofRestricted [readableAB])
        (some ⟨none, some ⟨[writableA], none⟩⟩)).resolveAccessWithCwd .bare "/a/b".toList
          "/".toList) := by
  have hread : ∀ entry ∈ (ofRestricted [readableAB]).resolvedEntriesWithCwd .bare "/".toList,
      entry.access ≠ .write := by
    decide +kernel
  have hwide : ∀ target, ¬ Narrows
      ((ofRestricted [readableAB]).resolvedEntriesWithCwd .bare "/".toList)
      ((ofRestricted [writableA]).resolvedEntriesWithCwd .bare "/".toList) target :=
    fun _ ⟨outer, _, houter, _, hwrite, _⟩ => hread outer houter.mem hwrite
  exact ⟨hwide, (effective_adds_iff (ofRestricted [readableAB])
    (some ⟨none, some ⟨[writableA], none⟩⟩) .bare "/a/b".toList "/".toList (by decide)).mpr
      fun ⟨_, target, _, hnarrows⟩ => hwide target hnarrows⟩

end CodexRs.Sandboxing
