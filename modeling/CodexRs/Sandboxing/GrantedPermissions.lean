import CodexRs.Sandboxing.PolicyTransforms

/-!
# Granted permissions

The granted entries that are within the request stay, and with them every entry of both sides that
denies something around them.
-/
namespace CodexRs.Sandboxing
open Text Files Protocol FileSystemSandboxPolicy AbsolutePathBuf Specificity CodexRs.Lists

section

/-- The entries of an intersection, once all paths are resolved. -/
structure Intersects (requested granted accepted result : List ResolvedFileSystemEntry) : Prop where
  of_granted : ∀ entry ∈ accepted, entry ∈ granted
  covered : ∀ entry ∈ accepted, accessCovers (accessAt requested entry.path) entry.access = true
  mem_iff : ∀ entry, entry ∈ result ↔ entry ∈ accepted ∨
    (entry ∈ requested ∨ entry ∈ granted) ∧ entry.access = .none ∧
      ∃ grant ∈ accepted, pathsOverlap entry.path grant.path = true

/-- Nothing on the way to the target denies what the grant allows. -/
def Undenied (requested granted : List ResolvedFileSystemEntry) (target : AbsolutePathBuf)
    (grant : ResolvedFileSystemEntry) : Prop :=
  ∀ entry, entry ∈ requested ∨ entry ∈ granted → entry.access = .none →
    entry.path.components <+: target.components →
      entry.path.components.length < grant.path.components.length

/-- An accepted grant allows to write and neither side denies it, though the requested or the
granted entries only allow to read. -/
def Exceeds (requested granted accepted : List ResolvedFileSystemEntry)
    (target : AbsolutePathBuf) : Prop :=
  ∃ grant, Governs accepted target grant ∧ grant.access = .write ∧
    Undenied requested granted target grant ∧
    ((∃ entry, Governs requested target entry ∧ entry.access = .read) ∨
      ∃ entry, Governs granted target entry ∧ entry.access = .read)

variable {requested granted accepted result : List ResolvedFileSystemEntry}
  {target : AbsolutePathBuf} {grant : ResolvedFileSystemEntry}

theorem pathsOverlap_of_on_way {left right : AbsolutePathBuf}
    (hleft : left.components <+: target.components)
    (hright : right.components <+: target.components) : pathsOverlap left right = true := by
  rw [pathsOverlap, Bool.or_eq_true, AbsolutePathBuf.startsWith_iff, AbsolutePathBuf.startsWith_iff]
  exact (List.prefix_or_prefix_of_prefix hleft hright).symm

variable (mode : FileSystemAccessMode)

@[simp] theorem accessCovers_none : accessCovers .none mode = false := by
  cases mode <;> rfl

variable {entries : List ResolvedFileSystemEntry}

theorem read_or_write (hne : accessAt entries target ≠ .none) :
    (∃ entry, Governs entries target entry ∧ entry.access = .read) ∨
      accessAt entries target = .write := by
  rcases accessAt_cases entries target with ⟨entry, hgoverns⟩ | ⟨-, hnone⟩
  · rw [accessAt_of_governs hgoverns] at hne ⊢
    cases hmode : entry.access with
    | none => exact absurd hmode hne
    | read => exact .inl ⟨entry, hgoverns, hmode⟩
    | write => exact .inr rfl
  · exact absurd hnone hne

/-- Entries that deny nothing at the target fall short of a mode only if they allow to read
where the mode is to write. -/
theorem level_le_accessAt {mode : FileSystemAccessMode} (hne : accessAt entries target ≠ .none)
    (hread : mode = .write → ¬ ∃ entry, Governs entries target entry ∧ entry.access = .read) :
    level mode ≤ level (accessAt entries target) := by
  rcases read_or_write hne with ⟨entry, hgoverns, haccess⟩ | hwrite
  · rw [accessAt_of_governs hgoverns, haccess]
    cases mode with
    | none => exact Nat.zero_le _
    | read => exact le_rfl
    | write => exact absurd ⟨entry, hgoverns, haccess⟩ (hread rfl)
  · rw [hwrite]
    cases mode <;> decide

theorem le_none : mode ≤ .none := by
  cases mode <;> decide

variable (h : Intersects requested granted accepted result)
include h

theorem governs_result_iff (hreadable : grant.access ≠ .none) : Governs result target grant ↔
      Governs accepted target grant ∧ Undenied requested granted target grant := by
  constructor
  · intro hgoverns
    have haccepted : grant ∈ accepted := by
      rcases (h.mem_iff grant).mp hgoverns.mem with hmem | ⟨-, hnone, -⟩
      · exact hmem
      · exact absurd hnone hreadable
    refine ⟨hgoverns.restrict (fun e he => (h.mem_iff e).mpr (.inl he)) haccepted, ?_⟩
    intro entry hentry hnone hway
    have hmem : entry ∈ result := (h.mem_iff entry).mpr
      (.inr ⟨hentry, hnone, grant, haccepted, pathsOverlap_of_on_way hway hgoverns.on_way⟩)
    rcases rank_le_iff.mp (hgoverns.top entry hmem hway) with hlt | ⟨-, hle⟩
    · exact hlt
    · rw [hnone] at hle
      exact absurd (le_antisymm (le_none _) hle) hreadable
  · rintro ⟨hgoverns, hundenied⟩
    refine ⟨(h.mem_iff grant).mpr (.inl hgoverns.mem), hgoverns.on_way, ?_⟩
    intro entry hentry hway
    rcases (h.mem_iff entry).mp hentry with hmem | ⟨hside, hnone, -⟩
    · exact hgoverns.top entry hmem hway
    · exact rank_le_iff.mpr (.inl (hundenied entry hside hnone hway))

/-- The granted entries allow something where the result does. -/
theorem granted_ne_none (hgoverns : Governs accepted target grant)
    (hundenied : Undenied requested granted target grant) : accessAt granted target ≠ .none := by
  have hmem := h.of_granted grant hgoverns.mem
  obtain ⟨top, htop⟩ : ∃ top, Governs granted target top := exists_governs hmem hgoverns.on_way
  rw [accessAt_of_governs htop]
  intro hnone
  have hlt := hundenied top (.inr htop.mem) hnone htop.on_way
  have hle : grant.path.components.length ≤ top.path.components.length :=
    htop.length_le hmem hgoverns.on_way
  omega

/-- So do the requested entries: what they allow at the granted path reaches to the target. -/
theorem requested_ne_none (hgoverns : Governs accepted target grant)
    (hundenied : Undenied requested granted target grant) : accessAt requested target ≠ .none := by
  have hcovered := h.covered grant hgoverns.mem
  rcases accessAt_cases requested grant.path with ⟨outer, houter⟩ | ⟨-, hnone⟩
  · obtain ⟨top, htop⟩ : ∃ top, Governs requested target top :=
      exists_governs houter.mem (houter.on_way.trans hgoverns.on_way)
    rw [accessAt_of_governs htop]
    intro hnone
    have hlt := hundenied top (.inl htop.mem) hnone htop.on_way
    have hgrant : Governs requested grant.path top :=
      htop.between (List.prefix_of_prefix_length_le htop.on_way hgoverns.on_way hlt.le)
        hgoverns.on_way
    rw [accessAt_of_governs hgrant, hnone, accessCovers_none] at hcovered
    cases hcovered
  · rw [hnone, accessCovers_none] at hcovered
    cases hcovered

theorem level_result_le_iff : (level (accessAt result target) ≤ level (accessAt requested target) ∧
        level (accessAt result target) ≤ level (accessAt granted target)) ↔
      ¬ Exceeds requested granted accepted target := by
  constructor
  · rintro ⟨hrequested, hgranted⟩ ⟨grant, hgoverns, hwrite, hundenied, hread⟩
    have hresult : Governs result target grant :=
      (governs_result_iff h (by rw [hwrite]; decide)).mpr ⟨hgoverns, hundenied⟩
    rw [accessAt_of_governs hresult, hwrite] at hrequested hgranted
    rcases hread with ⟨entry, hentry, hread⟩ | ⟨entry, hentry, hread⟩
    · rw [accessAt_of_governs hentry, hread] at hrequested
      exact absurd hrequested (by decide)
    · rw [accessAt_of_governs hentry, hread] at hgranted
      exact absurd hgranted (by decide)
  · intro hnot
    rcases accessAt_cases result target with ⟨grant, hresult⟩ | ⟨-, hnone⟩
    · by_cases hreadable : grant.access = .none
      · rw [accessAt_of_governs hresult, hreadable]
        exact ⟨Nat.zero_le _, Nat.zero_le _⟩
      · obtain ⟨hgoverns, hundenied⟩ := (governs_result_iff h hreadable).mp hresult
        have hrequested := requested_ne_none h hgoverns hundenied
        have hgranted := granted_ne_none h hgoverns hundenied
        rw [accessAt_of_governs hresult]
        -- Where either side only allows to read, the entry that does so is an excess.
        constructor
        · apply level_le_accessAt hrequested
          intro hwrite hread
          exact hnot ⟨grant, hgoverns, hwrite, hundenied, .inl hread⟩
        · apply level_le_accessAt hgranted
          intro hwrite hread
          exact hnot ⟨grant, hgoverns, hwrite, hundenied, .inr hread⟩
    · rw [hnone]
      exact ⟨Nat.zero_le _, Nat.zero_le _⟩

end

section
variable (host : Host) (buildGlobMatcher : BuildGlobMatcher)
  (requested granted : AdditionalPermissionProfile) (cwd : Str)

/-- The entry is within what a profile requests. -/
def withinRequest (entry : FileSystemSandboxEntry) : Bool :=
  requested.fileSystem.any fun fileSystem =>
    grantedFileSystemEntryWithinRequest host fileSystem (ofRestricted fileSystem.entries)
      (ReadDenyMatcher.new host buildGlobMatcher (ofRestricted fileSystem.entries) cwd) entry cwd

def acceptedGrants : List FileSystemSandboxEntry :=
  (profileEntries granted).filter (withinRequest host buildGlobMatcher requested cwd)

variable (entries : List FileSystemSandboxEntry)

abbrev resolveEntries : List ResolvedFileSystemEntry :=
  (ofRestricted entries).resolvedEntriesWithCwd host cwd

theorem mem_resolveEntries
    (entry : ResolvedFileSystemEntry) : entry ∈ resolveEntries host cwd entries ↔
      ∃ raw ∈ entries, resolveEntryPath host raw.path (fromAbsolutePath host cwd) =
        some entry.path ∧ raw.access = entry.access := by
  simp only [resolvedEntriesWithCwd, List.mem_filterMap, Option.map_eq_some_iff]
  apply exists_congr
  intro raw
  apply and_congr_right
  intro _
  constructor
  · rintro ⟨path, hpath, rfl⟩
    exact ⟨hpath, rfl⟩
  · rintro ⟨hpath, haccess⟩
    exact ⟨entry.path, hpath, by rw [haccess]⟩

/-- Permissions without entries are left out, which says the same. -/
theorem entries_filter_nonempty (permissions : FileSystemPermissions) :
    (((some permissions).filter fun permissions => !permissions.isEmpty).map
      FileSystemPermissions.entries).getD [] = permissions.entries := by
  cases hempty : permissions.entries <;>
    simp [Option.filter, FileSystemPermissions.isEmpty, hempty]

theorem mem_intersect_entries (entry : FileSystemSandboxEntry) :
    let accepted := pushAll [] ((acceptedGrants host buildGlobMatcher requested granted
      cwd).map (materializeCwdDependentEntry host · cwd))
    entry ∈ profileEntries
        (intersectPermissionProfiles host buildGlobMatcher requested granted cwd) ↔
      entry ∈ accepted ∨
        entry ∈ retainConstrainingDenyEntries host (profileEntries requested) accepted cwd ∨
          entry ∈ retainConstrainingDenyEntries host (profileEntries granted) accepted cwd := by
  intro accepted
  cases hrequested : requested.fileSystem with
  | none =>
    have hwithin : withinRequest host buildGlobMatcher requested cwd = fun _ => false := by
      funext entry
      rw [withinRequest, hrequested, Option.any_none]
    have hempty : accepted = [] := by
      simp [accepted, acceptedGrants, hwithin, pushAll]
    have hresult : profileEntries (intersectPermissionProfiles host buildGlobMatcher requested
        granted cwd) = [] := by
      simp [profileEntries, intersectPermissionProfiles, hrequested]
    simp [hresult, hempty, retainConstrainingDenyEntries, denyEntryConstrainsAcceptedGrant]
  | some fileSystem =>
    have hgranted : (granted.fileSystem.getD ⟨[], none⟩).entries = profileEntries granted := by
      cases h : granted.fileSystem <;> simp [profileEntries, h]
    have hentries : profileEntries (intersectPermissionProfiles host buildGlobMatcher requested
        granted cwd) = pushAll (pushAll accepted
          (retainConstrainingDenyEntries host (profileEntries requested) accepted cwd))
          (retainConstrainingDenyEntries host (profileEntries granted) accepted cwd) := by
      have hwithin : withinRequest host buildGlobMatcher requested cwd = fun entry =>
          grantedFileSystemEntryWithinRequest host fileSystem (ofRestricted fileSystem.entries)
            (ReadDenyMatcher.new host buildGlobMatcher (ofRestricted fileSystem.entries) cwd) entry
            cwd := by
        funext entry
        rw [withinRequest, hrequested, Option.any_some]
      simp only [accepted, acceptedGrants, hwithin, ← hgranted]
      simp only [profileEntries, intersectPermissionProfiles, hrequested]
      exact entries_filter_nonempty _
    rw [hentries, mem_pushAll, mem_pushAll, or_assoc]

variable {host cwd} in
theorem resolvePermissionPath_eq (hcwd : startsWith cwd ['/'] = true) (path : FileSystemPath) :
    resolvePermissionPath host path cwd =
      resolveEntryPath host path (fromAbsolutePath host cwd) := by
  cases path with
  | path path => rfl
  | globPattern pattern => rfl
  | special value =>
    cases value with
    | root =>
      rw [resolvePermissionPath, if_pos hcwd, fromAbsolutePath_of_slash host hcwd,
        fromAbsolutePath_of_slash host (by rfl)]
      rfl
    | _ => rfl

variable {host cwd} in
/-- An entry resolves to the same path once it is materialized. -/
theorem resolveEntryPath_materialize (hcwd : startsWith cwd ['/'] = true)
    (entry : FileSystemSandboxEntry) :
    resolveEntryPath host (materializeCwdDependentEntry host entry cwd).path
        (fromAbsolutePath host cwd) =
      resolveEntryPath host entry.path (fromAbsolutePath host cwd) ∧
    (materializeCwdDependentEntry host entry cwd).access = entry.access := by
  unfold materializeCwdDependentEntry
  split
  · rename_i hpath
    split
    · rename_i path hresolved
      rw [resolvePermissionPath_eq hcwd] at hresolved
      exact ⟨hresolved.symm, rfl⟩
    · exact ⟨rfl, rfl⟩
  · rename_i hpath
    rw [hpath]
    exact ⟨rfl, rfl⟩
  · exact ⟨rfl, rfl⟩

variable {host buildGlobMatcher requested granted cwd}

/-- A grant within the request is covered by what the requested entries allow at its path. -/
theorem accessCovers_of_withinRequest (hcwd : startsWith cwd ['/'] = true)
    {entry : FileSystemSandboxEntry} {path : AbsolutePathBuf}
    (h : withinRequest host buildGlobMatcher requested cwd entry = true)
    (hpath : resolveEntryPath host entry.path (fromAbsolutePath host cwd) = some path) :
    accessCovers (accessAt (resolveEntries host cwd (profileEntries requested)) path)
      entry.access = true := by
  obtain ⟨fileSystem, hrequested, hwithin⟩ := (Option.any_eq_true _ _).mp h
  have hprofile : profileEntries requested = fileSystem.entries := by
    rw [profileEntries, hrequested]
    rfl
  have haccess : (ofRestricted fileSystem.entries).resolveAccessWithCwd host path.display cwd =
      accessAt (resolveEntries host cwd (profileEntries requested)) path := by
    rw [hprofile]
    exact resolveAccess_eq_accessAt rfl (resolveCandidatePath_display host path cwd)
  rw [grantedFileSystemEntryWithinRequest, resolvePermissionPath_eq hcwd, hpath] at hwithin
  simp only [haccess] at hwithin
  split_ifs at hwithin
  exact hwithin

theorem denyEntryConstrains_iff (hcwd : startsWith cwd ['/'] = true)
    {deny : FileSystemSandboxEntry} (hdeny : ∀ pattern, deny.path ≠ .globPattern pattern) :
    denyEntryConstrainsAcceptedGrant host deny (pushAll [] ((acceptedGrants host
        buildGlobMatcher requested granted cwd).map (materializeCwdDependentEntry host · cwd)))
        cwd = true ↔
      ∃ denyPath, resolveEntryPath host deny.path (fromAbsolutePath host cwd) =
        some denyPath ∧ ∃ grant ∈ resolveEntries host cwd (acceptedGrants host buildGlobMatcher
          requested granted cwd), pathsOverlap denyPath grant.path = true := by
  simp only [denyEntryConstrainsAcceptedGrant, List.any_eq_true, List.mem_filter,
    mem_pushAll, List.not_mem_nil, false_or, List.mem_map,
    resolvePermissionPath_eq hcwd]
  constructor
  · rintro ⟨_, ⟨⟨grant, hgrant, rfl⟩, hreadable⟩, hoverlap⟩
    rw [(resolveEntryPath_materialize hcwd grant).1] at hoverlap
    split at hoverlap
    · cases hoverlap
    · rename_i grantPath hgrantPath
      rw [Option.any_eq_true] at hoverlap
      obtain ⟨denyPath, hdenyPath, hoverlap⟩ := hoverlap
      exact ⟨denyPath, hdenyPath, ⟨grantPath, grant.access⟩,
        (mem_resolveEntries _ _ _ _).mpr ⟨grant, hgrant, hgrantPath, rfl⟩, hoverlap⟩
  · rintro ⟨denyPath, hdenyPath, grant, hgrant, hoverlap⟩
    obtain ⟨raw, hraw, hpath, haccess⟩ := (mem_resolveEntries _ _ _ _).mp hgrant
    refine ⟨materializeCwdDependentEntry host raw cwd, ⟨⟨raw, hraw, rfl⟩, ?_⟩, ?_⟩
    · rw [(resolveEntryPath_materialize hcwd raw).2]
      obtain ⟨fileSystem, -, hwithin⟩ := (Option.any_eq_true _ _).mp (List.mem_filter.mp hraw).2
      unfold grantedFileSystemEntryWithinRequest at hwithin
      by_contra hnot
      simp [hnot] at hwithin
    · rw [(resolveEntryPath_materialize hcwd raw).1, hpath, hdenyPath]
      exact hoverlap

/-- The entries without the globs, of which the access to a path does not depend. -/
def GlobFree (profile : AdditionalPermissionProfile) : Prop :=
  ∀ entry ∈ profileEntries profile, ∀ pattern, entry.path ≠ .globPattern pattern

variable (hcwd : startsWith cwd ['/'] = true)
include hcwd

theorem mem_resolveEntries_retained {entries}
    (hglob : ∀ entry ∈ entries, ∀ pattern, entry.path ≠ .globPattern pattern)
    (entry : ResolvedFileSystemEntry) :
    entry ∈ resolveEntries host cwd (retainConstrainingDenyEntries host entries
        (pushAll [] ((acceptedGrants host buildGlobMatcher requested granted cwd).map
          (materializeCwdDependentEntry host · cwd))) cwd) ↔
      entry ∈ resolveEntries host cwd entries ∧ entry.access = .none ∧
        ∃ grant ∈ resolveEntries host cwd (acceptedGrants host buildGlobMatcher requested granted
          cwd), pathsOverlap entry.path grant.path = true := by
  simp only [mem_resolveEntries, retainConstrainingDenyEntries, List.mem_map, List.mem_filter,
    decide_eq_true_eq]
  constructor
  · rintro ⟨_, ⟨deny, ⟨⟨hdeny, hnone⟩, hconstrains⟩, rfl⟩, hpath, haccess⟩
    rw [(resolveEntryPath_materialize hcwd deny).1] at hpath
    rw [(resolveEntryPath_materialize hcwd deny).2] at haccess
    obtain ⟨denyPath, hdenyPath, grant, hgrant, hoverlap⟩ :=
      (denyEntryConstrains_iff hcwd (hglob deny hdeny)).mp hconstrains
    obtain rfl : denyPath = entry.path := Option.some.inj (hdenyPath.symm.trans hpath)
    exact ⟨⟨deny, hdeny, hpath, haccess⟩, haccess.symm.trans hnone, grant,
      (mem_resolveEntries _ _ _ _).mp hgrant, hoverlap⟩
  · rintro ⟨⟨deny, hdeny, hpath, haccess⟩, hnone, grant, hgrant, hoverlap⟩
    refine ⟨_, ⟨deny, ⟨⟨hdeny, haccess.trans hnone⟩, ?_⟩, rfl⟩, ?_, ?_⟩
    · exact (denyEntryConstrains_iff hcwd (hglob deny hdeny)).mpr
        ⟨entry.path, hpath, grant, (mem_resolveEntries _ _ _ _).mpr hgrant, hoverlap⟩
    · rw [(resolveEntryPath_materialize hcwd deny).1, hpath]
    · rw [(resolveEntryPath_materialize hcwd deny).2, haccess]

theorem mem_resolveEntries_materialized
    (entries : List FileSystemSandboxEntry) (entry : ResolvedFileSystemEntry) :
    entry ∈ resolveEntries host cwd
        (pushAll [] (entries.map (materializeCwdDependentEntry host · cwd))) ↔
      entry ∈ resolveEntries host cwd entries := by
  simp only [mem_resolveEntries, mem_pushAll, List.not_mem_nil, false_or, List.mem_map]
  constructor
  · rintro ⟨_, ⟨raw, hraw, rfl⟩, hpath, haccess⟩
    rw [(resolveEntryPath_materialize hcwd raw).1] at hpath
    rw [(resolveEntryPath_materialize hcwd raw).2] at haccess
    exact ⟨raw, hraw, hpath, haccess⟩
  · rintro ⟨raw, hraw, hpath, haccess⟩
    refine ⟨_, ⟨raw, hraw, rfl⟩, ?_, ?_⟩
    · rw [(resolveEntryPath_materialize hcwd raw).1, hpath]
    · rw [(resolveEntryPath_materialize hcwd raw).2, haccess]

/-- What the code computes is an intersection of the resolved entries. -/
theorem intersects_intersectPermissionProfiles
    (hrequested : GlobFree requested) (hgranted : GlobFree granted) :
    Intersects (resolveEntries host cwd (profileEntries requested))
      (resolveEntries host cwd (profileEntries granted))
      (resolveEntries host cwd (acceptedGrants host buildGlobMatcher requested granted cwd))
      (resolveEntries host cwd (profileEntries
        (intersectPermissionProfiles host buildGlobMatcher requested granted cwd))) where
  of_granted entry hentry := by
    obtain ⟨raw, hraw, hresolved⟩ := (mem_resolveEntries _ _ _ _).mp hentry
    exact (mem_resolveEntries _ _ _ _).mpr ⟨raw, (List.mem_filter.mp hraw).1, hresolved⟩
  covered entry hentry := by
    obtain ⟨raw, hraw, hpath, haccess⟩ := (mem_resolveEntries _ _ _ _).mp hentry
    rw [← haccess]
    exact accessCovers_of_withinRequest hcwd (List.mem_filter.mp hraw).2 hpath
  mem_iff entry := by
    rw [mem_resolveEntries]
    simp only [mem_intersect_entries, or_and_right, exists_or]
    rw [← mem_resolveEntries, ← mem_resolveEntries, ← mem_resolveEntries,
      mem_resolveEntries_materialized hcwd, mem_resolveEntries_retained hcwd hrequested,
      mem_resolveEntries_retained hcwd hgranted]

end

/-- The result allows no more than what was requested and granted, unless a grant to write exceeds
an entry that only allows to read. -/
theorem intersect_within_iff (host : Host) (buildGlobMatcher : BuildGlobMatcher)
    (requested granted : AdditionalPermissionProfile) (path cwd : Str)
    (hcwd : startsWith cwd ['/'] = true) (hrequested : GlobFree requested)
    (hgranted : GlobFree granted) :
    let result := intersectPermissionProfiles host buildGlobMatcher requested granted cwd
    let access := fun profile : AdditionalPermissionProfile =>
      (ofRestricted (profileEntries profile)).resolveAccessWithCwd host path cwd
    (level (access result) ≤ level (access requested) ∧
        level (access result) ≤ level (access granted) ∧
        (result.network ≠ none →
          requested.network = some ⟨some true⟩ ∧ granted.network = some ⟨some true⟩)) ↔
      ¬ ∃ target, resolveCandidatePath host path cwd = some target ∧
        Exceeds (resolveEntries host cwd (profileEntries requested))
          (resolveEntries host cwd (profileEntries granted))
          (resolveEntries host cwd (acceptedGrants host buildGlobMatcher requested granted cwd))
          target := by
  intro result access
  have hnetwork : result.network ≠ none →
      requested.network = some ⟨some true⟩ ∧ granted.network = some ⟨some true⟩ := by
    intro hne
    simp only [result, intersectPermissionProfiles] at hne
    split at hne
    · rename_i hrequested hgranted
      exact ⟨hrequested, hgranted⟩
    · exact absurd rfl hne
  have hspec : Intersects _ _
      (resolveEntries host cwd (acceptedGrants host buildGlobMatcher requested granted cwd)) _ :=
    intersects_intersectPermissionProfiles hcwd hrequested hgranted
  cases hpath : resolveCandidatePath host path cwd with
  | none =>
    have hnone : ∀ profile, access profile = .none := by
      intro profile
      simp only [access, resolveAccessWithCwd, ofRestricted, hpath]
    simp only [hnone]
    simpa using hnetwork
  | some target =>
    have haccess : ∀ profile,
        access profile = accessAt (resolveEntries host cwd (profileEntries profile)) target :=
      fun profile => resolveAccess_eq_accessAt rfl hpath
    rw [haccess, haccess, haccess, ← and_assoc, level_result_le_iff hspec, and_iff_left hnetwork]
    apply not_congr
    constructor
    · exact fun hexceeds => ⟨target, rfl, hexceeds⟩
    · rintro ⟨_, htarget, hexceeds⟩
      cases htarget
      exact hexceeds

/-- The entry to write `/a` is granted, without the entry that only reads `/a/b`. -/
theorem intersect_exceeds_request :
    let requested : AdditionalPermissionProfile := ⟨none, some ⟨[writableA, readableAB], none⟩⟩
    let granted : AdditionalPermissionProfile := ⟨none, some ⟨[writableA], none⟩⟩
    let access := fun profile : AdditionalPermissionProfile =>
      (ofRestricted (profileEntries profile)).resolveAccessWithCwd .bare "/a/b".toList "/".toList
    access requested = .read ∧
      access (intersectPermissionProfiles .bare (fun _ => none) requested granted "/".toList) =
        .write := by
  decide +kernel

theorem intersect_within_iff_read_grant :
    let requested : AdditionalPermissionProfile := ⟨none, some ⟨[writableA], none⟩⟩
    let granted : AdditionalPermissionProfile := ⟨none, some ⟨[readableAB], none⟩⟩
    let access := fun profile : AdditionalPermissionProfile =>
      (ofRestricted (profileEntries profile)).resolveAccessWithCwd .bare "/a/b".toList "/".toList
    let result := intersectPermissionProfiles .bare (fun _ => none) requested granted "/".toList
    (∀ grant ∈ resolveEntries .bare "/".toList (acceptedGrants .bare (fun _ => none) requested
      granted "/".toList), grant.access ≠ .write) ∧
    level (access result) ≤ level (access requested) ∧
      level (access result) ≤ level (access granted) := by
  intro requested granted access result
  have hread : ∀ grant ∈ resolveEntries .bare "/".toList (acceptedGrants .bare (fun _ => none)
      requested granted "/".toList), grant.access ≠ .write := by
    decide +kernel
  have hwithin := (intersect_within_iff .bare (fun _ => none) requested granted "/a/b".toList
    "/".toList (by decide +kernel) (by simp [GlobFree, requested, profileEntries, writableA])
    (by simp [GlobFree, granted, profileEntries, readableAB])).mpr
      fun ⟨_, _, grant, hgoverns, hwrite, _⟩ => hread grant hgoverns.mem hwrite
  exact ⟨hread, hwithin.1, hwithin.2.1⟩

end CodexRs.Sandboxing
