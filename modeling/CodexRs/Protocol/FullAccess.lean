import CodexRs.Protocol.PermissionDecisions

/-!
# Full access

The shortcuts look at the entries as they are written, the decisions on a path at what the entries
resolve to.
-/
namespace CodexRs.Protocol
open Text Files AbsolutePathBuf FileSystemAccessMode List

namespace FileSystemSandboxPolicy
variable (policy : FileSystemSandboxPolicy) (host : Host) (cwd : Str)

/-- An entry for `/tmp` that may only read counts as overridden, though `/tmp` is not there for one
that may write. -/
def MissesSlashTmp : Prop :=
  policy.kind = .restricted ∧ policy.hasFullDiskWriteAccess = true ∧
    host.isDir slashTmpPath = false ∧ ⟨.path slashTmpPath, .read⟩ ∈ policy.entries ∧
    ⟨slashTmpPath, .write⟩ ∉ policy.resolvedEntriesWithCwd host cwd

variable {policy host cwd} {path : AbsolutePathBuf} {access : FileSystemAccessMode}

theorem mem_resolvedEntries :
    ⟨path, access⟩ ∈ policy.resolvedEntriesWithCwd host cwd ↔ ∃ entry ∈ policy.entries,
      resolveEntryPath host entry.path (fromAbsolutePath host cwd) = some path ∧
        entry.access = access := by
  simp only [resolvedEntriesWithCwd, mem_filterMap, Option.map_eq_some_iff]
  apply exists_congr
  intro entry
  apply and_congr_right
  intro _
  constructor
  · rintro ⟨_, hpath, ⟨⟩⟩
    exact ⟨hpath, rfl⟩
  · rintro ⟨hpath, rfl⟩
    exact ⟨path, hpath, rfl⟩

/-- An entry that may write beats one for the same path that may only read. -/
theorem access_ne_read {target : AbsolutePathBuf} {entry : ResolvedFileSystemEntry}
    (h : Governs (policy.resolvedEntriesWithCwd host cwd) target entry)
    (hwrite : ⟨entry.path, .write⟩ ∈ policy.resolvedEntriesWithCwd host cwd) :
    entry.access ≠ .read := by
  intro hread
  rcases Specificity.rank_le_iff.mp (h.top _ hwrite h.on_way) with hlt | ⟨-, hle⟩
  · exact lt_irrefl _ hlt
  · rw [hread] at hle
    exact absurd hle (show ¬ write ≤ .read by decide)

theorem eq_root_of_parent (h : path.parent.isNone = true) : path = .root := by
  obtain ⟨components, normal⟩ := path
  simp only [parent] at h
  split_ifs at h with hnil
  · subst hnil
    rfl
  · cases h

theorem eq_of_specialPathsShareTarget {left right : FileSystemSpecialPath}
    (h : specialPathsShareTarget left right = true) : left = right := by
  cases left <;> cases right <;> simp_all [specialPathsShareTarget]

/-- A target that is shared is what both paths resolve to, unless it is a directory `/tmp` that
is not there. -/
theorem resolveEntryPath_of_shareTarget {candidate path : FileSystemPath} {cwd : AbsolutePathBuf}
    {resolved : AbsolutePathBuf} (h : fileSystemPathsShareTarget candidate path = true)
    (hpath : resolveEntryPath host path (some cwd) = some resolved) :
    resolveEntryPath host candidate (some cwd) = some resolved ∨
      path = .path slashTmpPath ∧ host.isDir slashTmpPath = false := by
  cases candidate with
  | path left =>
    cases path with
    | path right =>
      obtain rfl : left = right := by simpa [fileSystemPathsShareTarget] using h
      exact .inl hpath
    | globPattern pattern => cases h
    | special value =>
      left
      cases value with
      | root => rw [eq_root_of_parent h]; exact hpath
      | slashTmp =>
        obtain rfl : left = slashTmpPath := by
          simpa [fileSystemPathsShareTarget, specialPathMatchesAbsolutePath] using h
        simp only [resolveEntryPath, resolveFileSystemPath, resolveFileSystemSpecialPath] at hpath
        split_ifs at hpath
        exact hpath
      | _ => cases h
  | globPattern left =>
    cases path with
    | globPattern right => cases hpath
    | _ => cases h
  | special left =>
    cases path with
    | path right =>
      cases left with
      | root => rw [eq_root_of_parent h] at hpath; exact .inl hpath
      | slashTmp =>
        obtain rfl : right = slashTmpPath := by
          simpa [fileSystemPathsShareTarget, specialPathMatchesAbsolutePath] using h
        cases hdir : host.isDir slashTmpPath with
        | true => exact .inl ((if_pos hdir).trans hpath)
        | false => exact .inr ⟨rfl, rfl⟩
      | _ => cases h
    | globPattern pattern => cases h
    | special right =>
      rw [eq_of_specialPathsShareTarget h]
      exact .inl hpath

variable (hkind : policy.kind = .restricted)
include hkind

theorem mem_root (host : Host) {predicate : FileSystemAccessMode → Bool}
    (hcwd : startsWith cwd ['/'] = true) (h : policy.hasRootAccess predicate = true) :
    ∃ access, predicate access = true ∧
      ⟨.root, access⟩ ∈ policy.resolvedEntriesWithCwd host cwd := by
  simp only [hasRootAccess, hkind, true_and, any_eq_true, decide_eq_true_eq] at h
  obtain ⟨⟨path, access⟩, hmem, hpath, haccess⟩ := h
  refine ⟨access, haccess, mem_resolvedEntries.mpr ⟨⟨path, access⟩, hmem, ?_, rfl⟩⟩
  subst hpath
  rw [fromAbsolutePath_of_slash host hcwd]
  rfl

/-- With an entry for the root, some entry governs every path. -/
theorem exists_governs_of_root
    (hroot : ⟨.root, access⟩ ∈ policy.resolvedEntriesWithCwd host cwd) {path : Str}
    (hpath : startsWith path ['/'] = true) :
    ∃ target entry, Governs (policy.resolvedEntriesWithCwd host cwd) target entry ∧
      policy.resolveAccessWithCwd host path cwd = entry.access := by
  have hresolve : resolveCandidatePath host path cwd = some (absolutizeFrom path .root) := by
    rw [resolveCandidatePath, if_pos hpath, fromAbsolutePath_of_slash host hpath]
  obtain ⟨entry, hgoverns⟩ : ∃ entry, Governs (policy.resolvedEntriesWithCwd host cwd)
      (absolutizeFrom path .root) entry := Specificity.exists_governs hroot nil_prefix
  exact ⟨_, entry, hgoverns, resolveAccess_of_governs hkind hresolve hgoverns⟩

theorem write_of_read (hcwd : startsWith cwd ['/'] = true)
    (hfull : policy.hasFullDiskWriteAccess = true) (hnot : ¬ policy.MissesSlashTmp host cwd)
    {entry : FileSystemSandboxEntry} (hmem : entry ∈ policy.entries)
    (hpath : resolveEntryPath host entry.path (fromAbsolutePath host cwd) = some path)
    (haccess : entry.access.canWrite = false) :
    entry.access = .read ∧ ⟨path, .write⟩ ∈ policy.resolvedEntriesWithCwd host cwd := by
  have hparts : policy.hasRootAccess canWrite = true ∧
      policy.hasWriteNarrowingEntries = false := by
    simpa [hasFullDiskWriteAccess, hkind] using hfull
  have hnarrow : policy.isWriteNarrowing entry = false := by
    simpa using any_eq_false.mp (by simpa [hasWriteNarrowingEntries, hkind] using hparts.2) entry hmem
  rw [fromAbsolutePath_of_slash host hcwd] at hpath
  -- An entry that narrows nothing is one for the root, next to the one that may write, or is
  -- overridden.
  have hcases : entry.path = .special .root ∧ entry.access ≠ .none ∨
      policy.hasSameTargetWriteOverride entry = true := by
    simp only [isWriteNarrowing, haccess, Bool.false_eq_true, if_false] at hnarrow
    split at hnarrow
    · exact .inr (by simpa using hnarrow)
    · cases hnarrow
    · exact .inl ⟨‹_›, by simpa using hnarrow⟩
    · rw [‹entry.path = _›] at hpath
      cases hpath
    · rw [‹entry.path = _›] at hpath
      cases hpath
    · exact .inr (by simpa using hnarrow)
  rcases hcases with ⟨hroot, hnone⟩ | hover
  · obtain ⟨access, hwrite, hrootMem⟩ := mem_root hkind host hcwd hparts.1
    rw [canWrite_iff_eq_write.mp hwrite] at hrootMem
    rw [hroot] at hpath
    cases hpath
    refine ⟨?_, hrootMem⟩
    cases h : entry.access <;> simp_all [canWrite]
  · simp only [hasSameTargetWriteOverride, any_eq_true, decide_eq_true_eq] at hover
    obtain ⟨candidate, hcandidate, hwrite, hlt, hshare⟩ := hover
    rw [canWrite_iff_eq_write] at hwrite
    have hread : entry.access = .read := by
      rw [hwrite] at hlt
      cases h : entry.access <;> rw [h] at hlt <;> first | rfl | exact absurd hlt (by decide)
    refine ⟨hread, ?_⟩
    rcases resolveEntryPath_of_shareTarget hshare hpath with hresolved | ⟨htmp, hdir⟩
    · refine mem_resolvedEntries.mpr ⟨candidate, hcandidate, ?_, hwrite⟩
      rwa [fromAbsolutePath_of_slash host hcwd]
    · rw [htmp] at hpath
      cases hpath
      by_contra hmissing
      obtain ⟨entryPath, access⟩ := entry
      subst htmp hread
      exact hnot ⟨hkind, hfull, hdir, hmem, hmissing⟩

omit hkind

/-- Full access to the disk means that every path can be written or read, unless an entry to read
`/tmp` counts as overridden where there is no such directory. -/
theorem fullAccess_sound_iff (policy : FileSystemSandboxPolicy) (host : Host) {cwd : Str}
    (hcwd : startsWith cwd ['/'] = true) :
    ((policy.hasFullDiskWriteAccess = true → ∀ path, startsWith path ['/'] = true →
        policy.canWritePathWithCwd host path cwd = true) ∧
      (policy.hasFullDiskReadAccess = true → ∀ path, startsWith path ['/'] = true →
        policy.canReadPathWithCwd host path cwd = true)) ↔
    ¬ policy.MissesSlashTmp host cwd := by
  constructor
  · rintro ⟨hsound, -⟩ ⟨hkind, hfull, -, hmem, hmissing⟩
    have hwrite := hsound hfull slashTmpPath.display slashTmpPath.startsWith_display
    have hread : ⟨slashTmpPath, .read⟩ ∈ policy.resolvedEntriesWithCwd host cwd :=
      mem_resolvedEntries.mpr ⟨_, hmem, rfl, rfl⟩
    have hcan : (policy.resolveAccessWithCwd host slashTmpPath.display cwd).canWrite = true := by
      by_contra hnot
      simp [canWritePathWithCwd, hnot] at hwrite
    obtain ⟨target, entry, htarget, hgoverns, haccess⟩ := governs_of_canWrite hkind hcan
    rw [resolveCandidatePath_display] at htarget
    cases htarget
    have hplace := hgoverns.on_way.eq_of_length_le (hgoverns.length_le hread (prefix_refl _))
    obtain ⟨path, access⟩ := entry
    rw [canWrite_iff_eq_write] at haccess
    subst haccess
    obtain rfl : path = slashTmpPath := ext hplace
    exact hmissing hgoverns.mem
  · intro hnot
    have hopen (path : Str) (hkind : policy.kind ≠ .restricted) :
        policy.resolveAccessWithCwd host path cwd = .write := by
      cases h : policy.kind <;> simp_all [resolveAccessWithCwd]
    constructor
    · intro hfull path hpath
      suffices (policy.resolveAccessWithCwd host path cwd).canWrite = true by
        simp [canWritePathWithCwd, this, hfull]
      by_cases hkind : policy.kind = .restricted
      · have hroot : policy.hasRootAccess canWrite = true := by
          have h := hfull
          simp only [hasFullDiskWriteAccess, hkind, Bool.and_eq_true] at h
          exact h.1
        obtain ⟨access, -, hmem⟩ := mem_root hkind host hcwd hroot
        obtain ⟨target, entry, hgoverns, haccess⟩ := exists_governs_of_root hkind hmem hpath
        rw [haccess]
        by_contra hcannot
        obtain ⟨source, hsource, hresolved, hsame⟩ := mem_resolvedEntries.mp hgoverns.mem
        obtain ⟨hread, hwrite⟩ := write_of_read hkind hcwd hfull hnot hsource hresolved
          (by rw [hsame]; simpa using hcannot)
        exact access_ne_read hgoverns hwrite (hsame.symm.trans hread)
      · rw [hopen path hkind]
        rfl
    · intro hfull path hpath
      rw [canReadPathWithCwd]
      by_cases hkind : policy.kind = .restricted
      · simp only [hasFullDiskReadAccess, hkind, Bool.and_eq_true] at hfull
        obtain ⟨access, -, hmem⟩ := mem_root hkind host hcwd hfull.1
        obtain ⟨target, entry, hgoverns, haccess⟩ := exists_governs_of_root hkind hmem hpath
        obtain ⟨source, hsource, -, hsame⟩ := mem_resolvedEntries.mp hgoverns.mem
        have hallowed : source.access ≠ .none := by
          have h := hfull.2
          simp only [hasDeniedReadRestrictions, hkind, true_and, Bool.not_eq_true',
            decide_eq_false_iff_not, Bool.not_eq_true, any_eq_false] at h
          exact h source hsource
        cases h : source.access <;> simp_all [canRead]
      · rw [hopen path hkind]
        rfl

theorem fullAccess_sound_rootWrite :
    let policy := ofRestricted [⟨.special .root, .write⟩]
    policy.hasFullDiskWriteAccess = true ∧
      policy.canWritePathWithCwd .bare "/a".toList "/".toList = true :=
  ⟨by decide, ((fullAccess_sound_iff _ _ (by decide)).mpr fun h => by
    obtain ⟨-, -, -, hmem, -⟩ := h
    simp [ofRestricted] at hmem).1 (by decide) _ (by decide)⟩

/-- Where `/tmp` is no directory, the special entry for it overrides nothing. -/
theorem fullAccess_without_slashTmp :
    let policy := ofRestricted
      [⟨.special .root, .write⟩, ⟨.special .slashTmp, .write⟩, ⟨.path slashTmpPath, .read⟩]
    policy.hasFullDiskWriteAccess = true ∧
      policy.canWritePathWithCwd .bare "/tmp".toList "/".toList = false := by
  decide +kernel

end FileSystemSandboxPolicy

end CodexRs.Protocol
