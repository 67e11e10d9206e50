import CodexRs.Protocol.Permissions

/-!
# How a policy decides

Where the most specific entry allows to write, a writable entry with a protected name can still
deny it.
-/
namespace CodexRs.Protocol
open Text Files AbsolutePathBuf List Option Specificity

variable {name : Str}

theorem normalizePath_metadataName (h : name ∈ protectedMetadataPathNames)
    (stack : List Str) : normalizePath stack name = stack ++ [name] := by
  simp only [protectedMetadataPathNames, mem_cons, not_mem_nil, or_false] at h
  rcases h with rfl | rfl | rfl | rfl <;> rfl

theorem join_metadataName (h : name ∈ protectedMetadataPathNames)
    (home : Option Str) (path : AbsolutePathBuf) :
    (path.join home name).components = path.components ++ [name] := by
  have hexpand : maybeExpandHomeDirectory home name = name := by
    simp only [protectedMetadataPathNames, mem_cons, not_mem_nil, or_false] at h
    rcases h with rfl | rfl | rfl | rfl <;> cases home <;> rfl
  have hrelative : startsWith name ['/'] = false := by
    simp only [protectedMetadataPathNames, mem_cons, not_mem_nil, or_false] at h
    rcases h with rfl | rfl | rfl | rfl <;> rfl
  rw [AbsolutePathBuf.join, resolvePathAgainstBase, hexpand]
  change normalizePath (if startsWith name ['/'] then [] else path.components) name = _
  rw [hrelative]
  exact normalizePath_metadataName h _

theorem resolveCandidatePath_display (host : Host) (path : AbsolutePathBuf) (cwd : Str) :
    resolveCandidatePath host path.display cwd = some path := by
  rw [resolveCandidatePath, if_pos path.startsWith_display, fromAbsolutePath_display]

theorem metadataPathName_eq_some {name found : Str} :
    metadataPathName name = some found ↔ found = name ∧ name ∈ protectedMetadataPathNames := by
  unfold metadataPathName
  constructor
  · intro h
    have heq : found = name := by simpa using find?_some h
    exact ⟨heq, heq ▸ mem_of_find?_eq_some h⟩
  · rintro ⟨rfl, hmem⟩
    cases hf : protectedMetadataPathNames.find? (· = found) with
    | none => exact absurd (decide_eq_true rfl) (find?_eq_none.mp hf found hmem)
    | some other =>
      have heq : other = found := by simpa using find?_some hf
      rw [heq]

variable {entry : ResolvedFileSystemEntry} {target : AbsolutePathBuf}

/-- A protected name comes first below the entry on the way to the target. -/
theorem exposedMetadataName_eq_some : exposedMetadataName entry target = some name ↔
      name ∈ protectedMetadataPathNames ∧ entry.path.components ++ [name] <+: target.components := by
  unfold exposedMetadataName
  constructor
  · intro h
    split_ifs at h with hprefix
    obtain ⟨rest, hrest⟩ := startsWith_iff.mp hprefix
    rw [← hrest, drop_left] at h
    cases rest with
    | nil => cases h
    | cons first rest =>
      obtain ⟨rfl, hmem⟩ := metadataPathName_eq_some.mp h
      exact ⟨hmem, rest, by rw [append_assoc, ← hrest]; rfl⟩
  · rintro ⟨hmem, rest, hrest⟩
    rw [append_assoc] at hrest
    rw [if_pos (startsWith_iff.mpr ⟨_, hrest⟩), ← hrest, drop_left]
    exact metadataPathName_eq_some.mpr ⟨rfl, hmem⟩

theorem on_way_of_exposed (h : (exposedMetadataName entry target).isSome = true) :
    entry.path.components <+: target.components := by
  obtain ⟨name, hname⟩ := isSome_iff_exists.mp h
  exact (prefix_append _ _).trans (exposedMetadataName_eq_some.mp hname).2

/-- The entry is the most specific one for the target. -/
abbrev Governs (entries : List ResolvedFileSystemEntry) (target : AbsolutePathBuf)
    (entry : ResolvedFileSystemEntry) : Prop :=
  Specificity.Governs (fun entry => entry.path.components) ResolvedFileSystemEntry.access entries
    target.components entry

namespace FileSystemSandboxPolicy
variable {policy : FileSystemSandboxPolicy} {host : Host} {cwd : Str} {target : AbsolutePathBuf}
  {entry : ResolvedFileSystemEntry} {name : Str}

/-- The name is writable again if some writable entry lies deeper on the way to the target. -/
theorem hasExplicitWriteEntry_iff (h : exposedMetadataName entry target = some name) :
    policy.hasExplicitWriteEntryForMetadataPath host (entry.path.join host.home name) target cwd =
      true ↔
    ∃ w ∈ policy.resolvedEntriesWithCwd host cwd, w.access.canWrite = true ∧
      w.path.components <+: target.components ∧
        entry.path.components.length < w.path.components.length := by
  obtain ⟨hmem, hway⟩ := exposedMetadataName_eq_some.mp h
  simp only [hasExplicitWriteEntryForMetadataPath, List.any_eq_true, decide_eq_true_eq,
    AbsolutePathBuf.startsWith_iff, join_metadataName hmem]
  apply exists_congr
  intro w
  apply and_congr_right
  intro _
  apply and_congr_right
  intro _
  apply and_congr_right
  intro hw
  constructor
  · intro hbelow
    have hlength := hbelow.length_le
    rw [length_append, length_singleton] at hlength
    omega
  · intro hlt
    apply prefix_of_prefix_length_le hway hw
    rw [length_append, length_singleton]
    omega

variable (entries : List ResolvedFileSystemEntry)

/-- The first writable entry below which a protected name comes next on the way to a target. -/
def firstExposing (target : AbsolutePathBuf) : Option ResolvedFileSystemEntry :=
  entries.find? fun entry => entry.access.canWrite && (exposedMetadataName entry target).isSome

/-- What the entries say of a target: nothing is allowed where there is no entry. -/
def accessAt (target : AbsolutePathBuf) : FileSystemAccessMode :=
  ((governing (fun entry => entry.path.components) ResolvedFileSystemEntry.access
    entries target.components).map ResolvedFileSystemEntry.access).getD .none

theorem accessAt_of_governs {entries : List ResolvedFileSystemEntry}
    (h : Governs entries target entry) : accessAt entries target = entry.access := by
  rw [accessAt, Governs.mode_governing h]
  rfl

theorem accessAt_cases (target : AbsolutePathBuf) : (∃ entry, Governs entries target entry) ∨
      (∀ entry ∈ entries, ¬ entry.path.components <+: target.components) ∧
        accessAt entries target = .none := by
  unfold accessAt
  cases hg : governing (fun entry => entry.path.components)
      ResolvedFileSystemEntry.access entries target.components with
  | none => exact .inr ⟨governing_eq_none_iff.mp hg, rfl⟩
  | some entry => exact .inl ⟨entry, governs_of_governing hg⟩

variable {path : Str} (hkind : policy.kind = .restricted)
include hkind

theorem resolveAccess_eq_accessAt (hpath : resolveCandidatePath host path cwd = some target) :
    policy.resolveAccessWithCwd host path cwd =
      accessAt (policy.resolvedEntriesWithCwd host cwd) target := by
  simp only [resolveAccessWithCwd, hkind, hpath]
  rfl

theorem resolveAccess_of_governs (hpath : resolveCandidatePath host path cwd = some target)
    (hgoverns : Governs (policy.resolvedEntriesWithCwd host cwd) target entry) :
    policy.resolveAccessWithCwd host path cwd = entry.access := by
  rw [resolveAccess_eq_accessAt hkind hpath, accessAt_of_governs hgoverns]

theorem governs_of_canWrite (h : (policy.resolveAccessWithCwd host path cwd).canWrite = true) :
    ∃ target entry, resolveCandidatePath host path cwd = some target ∧
      Governs (policy.resolvedEntriesWithCwd host cwd) target entry ∧
        entry.access.canWrite = true := by
  cases hpath : resolveCandidatePath host path cwd with
  | none =>
    simp only [resolveAccessWithCwd, hkind, hpath] at h
    cases h
  | some target =>
    rw [resolveAccess_eq_accessAt hkind hpath] at h
    rcases accessAt_cases (policy.resolvedEntriesWithCwd host cwd) target with
      ⟨entry, hgoverns⟩ | ⟨-, hnone⟩
    · rw [accessAt_of_governs hgoverns] at h
      exact ⟨target, entry, rfl, hgoverns, h⟩
    · rw [hnone] at h
      cases h

variable (hpath : resolveCandidatePath host path cwd = some target)
include hpath

theorem isMetadataWriteDenied_iff : policy.isMetadataWriteDenied host path cwd = true ↔
    ∃ child, policy.metadataChildOfWritableRoot host target cwd = some child ∧
      policy.hasExplicitWriteEntryForMetadataPath host child.1 target cwd = false := by
  simp only [isMetadataWriteDenied, hkind, hpath]
  cases policy.metadataChildOfWritableRoot host target cwd <;> simp

theorem canWrite_of_not_fullDisk (hfull : policy.hasFullDiskWriteAccess = false)
    (hgoverns : Governs (policy.resolvedEntriesWithCwd host cwd) target entry)
    (hwrite : entry.access.canWrite = true) :
    policy.canWritePathWithCwd host path cwd = !policy.isMetadataWriteDenied host path cwd := by
  rw [canWritePathWithCwd, resolveAccess_of_governs hkind hpath hgoverns, hwrite, hfull]
  rfl

omit hkind hpath in
theorem metadataChild_eq : policy.metadataChildOfWritableRoot host target cwd =
    (firstExposing (policy.resolvedEntriesWithCwd host cwd) target).bind fun entry =>
      (exposedMetadataName entry target).map fun name =>
        (entry.path.join host.home name, name) := by
  unfold metadataChildOfWritableRoot firstExposing
  induction policy.resolvedEntriesWithCwd host cwd with
  | nil => rfl
  | cons entry entries ih =>
    rw [filter_cons, find?_cons]
    cases hwrite : entry.access.canWrite with
    | false => simpa using ih
    | true =>
      cases hname : exposedMetadataName entry target with
      | none => simpa [hname] using ih
      | some name => simp [hname]

/-- Below an entry that allows to write, only a protected name that comes next below it is denied,
where no writable entry above comes first. -/
theorem canWrite_iff_of_governs (hfull : policy.hasFullDiskWriteAccess = false)
    (hgoverns : Governs (policy.resolvedEntriesWithCwd host cwd) target entry)
    (hwrite : entry.access.canWrite = true) :
    policy.canWritePathWithCwd host path cwd = true ↔
      (firstExposing (policy.resolvedEntriesWithCwd host cwd) target).map
        ResolvedFileSystemEntry.path ≠ some entry.path := by
  rw [canWrite_of_not_fullDisk hkind hpath hfull hgoverns hwrite, Bool.not_eq_true',
    Bool.eq_false_iff, ne_eq, isMetadataWriteDenied_iff hkind hpath, metadataChild_eq]
  apply not_congr
  cases hfirst : firstExposing (policy.resolvedEntriesWithCwd host cwd) target with
  | none => simp
  | some first =>
    have hmem := mem_of_find?_eq_some hfirst
    have hfound := find?_some hfirst
    rw [Bool.and_eq_true] at hfound
    have hway := on_way_of_exposed hfound.2
    obtain ⟨name, hname⟩ := isSome_iff_exists.mp hfound.2
    have hle : first.path.components.length ≤ entry.path.components.length :=
      hgoverns.length_le hmem hway
    simp only [bind_some, hname, map_some, some.injEq, exists_eq_left',
      Bool.eq_false_iff, ne_eq, hasExplicitWriteEntry_iff hname]
    constructor
    · intro hnone
      have hge : entry.path.components.length ≤ first.path.components.length := by
        by_contra hlt
        exact hnone ⟨entry, hgoverns.mem, hwrite, hgoverns.on_way, not_le.mp hlt⟩
      exact ext ((hgoverns.prefix_of_mem hmem hway).eq_of_length (le_antisymm hle hge))
    · rintro hsame ⟨w, hw, -, hwWay, hlt⟩
      rw [hsame] at hlt
      exact absurd (hgoverns.length_le hw hwWay) (not_le.mpr hlt)

theorem canWrite_iff (hfull : policy.hasFullDiskWriteAccess = false) :
    policy.canWritePathWithCwd host path cwd = true ↔
      ∃ entry, Governs (policy.resolvedEntriesWithCwd host cwd) target entry ∧
        entry.access.canWrite = true ∧
          (firstExposing (policy.resolvedEntriesWithCwd host cwd) target).map
            ResolvedFileSystemEntry.path ≠ some entry.path := by
  constructor
  · intro h
    have haccess : (policy.resolveAccessWithCwd host path cwd).canWrite = true := by
      by_contra hnot
      simp [canWritePathWithCwd, hnot] at h
    obtain ⟨target', entry, hpath', hgoverns, hwrite⟩ := governs_of_canWrite hkind haccess
    obtain rfl : target = target' := some.inj (hpath.symm.trans hpath')
    exact ⟨entry, hgoverns, hwrite, (canWrite_iff_of_governs hkind hpath hfull hgoverns hwrite).mp h⟩
  · rintro ⟨entry, hgoverns, hwrite, hfirst⟩
    exact (canWrite_iff_of_governs hkind hpath hfull hgoverns hwrite).mpr hfirst

end FileSystemSandboxPolicy

end CodexRs.Protocol
