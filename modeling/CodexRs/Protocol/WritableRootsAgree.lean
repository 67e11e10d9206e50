import CodexRs.Protocol.PermissionDecisions
import CodexRs.Protocol.Permissions

/-!
# Two ways to decide on a write

A root does not know of a name that a root below it protects, and the policy does not know of the
paths that are read-only by default.
-/
namespace CodexRs.Protocol
open Text Files FileSystemSandboxPolicy List Option AbsolutePathBuf

section
variable {host : Host} (hlink : host.LinkFree) {path : AbsolutePathBuf}

theorem rebase_self {n : ℕ} (h : n ≤ path.components.length) :
    path.rebase (path.take n) (path.take n) = path := by
  apply AbsolutePathBuf.ext
  change path.components.take n ++ path.components.drop (path.components.take n).length = _
  rw [length_take, min_eq_left h, take_append_drop]
include hlink

/-- Without links a path is its own effective form. -/
theorem normalizeEffectiveAbsolutePath_eq (path : AbsolutePathBuf) :
    normalizeEffectiveAbsolutePath host path = path := by
  unfold normalizeEffectiveAbsolutePath
  cases hfound : path.ancestors.findSome? fun ancestor =>
      if (host.symlinkMetadata ancestor).isNone then none
      else some (path.rebase ancestor (canonicalizePreservingSymlinks host ancestor)) with
  | none => rfl
  | some normalized =>
    obtain ⟨ancestor, hmem, hancestor⟩ := exists_of_findSome?_eq_some hfound
    split_ifs at hancestor
    obtain ⟨n, hn, rfl⟩ := mem_map.mp hmem
    rw [mem_reverse, mem_range, Nat.lt_succ_iff] at hn
    rw [canonicalizePreservingSymlinks_of_linkFree hlink, rebase_self hn,
      some.injEq] at hancestor
    rw [getD_some, hancestor]

theorem mem_dedupAbsolutePaths {paths : List AbsolutePathBuf} (normalizeEffectivePaths : Bool) :
    path ∈ dedupAbsolutePaths host paths normalizeEffectivePaths ↔ path ∈ paths := by
  simp [dedupAbsolutePaths, Lists.mem_pushAll, normalizeEffectiveAbsolutePath_eq hlink]

theorem carveoutPath_eq (root entryPath : AbsolutePathBuf) {rawWritableRoots : List AbsolutePathBuf}
    (hraw : ∀ rawRoot ∈ rawWritableRoots, rawRoot = root) :
    carveoutPath host root rawWritableRoots entryPath =
      if entryPath ≠ root ∧ entryPath.startsWith root = true then some entryPath else none := by
  have hnone : entryPath.startsWith root = false → rawWritableRoots.findSome? (fun rawRoot =>
      if entryPath.startsWith rawRoot then
        let suffix := entryPath.components.drop rawRoot.components.length
        if suffix = [] then none else some (root.join host.home (['/'].intercalate suffix))
      else none) = none := by
    intro hfalse
    rw [findSome?_eq_none_iff]
    intro rawRoot hmem
    rw [hraw rawRoot hmem, hfalse]
    rfl
  unfold carveoutPath
  rw [normalizeEffectiveAbsolutePath_eq hlink]
  cases hstarts : entryPath.startsWith root with
  | false =>
    simp only [hnone hstarts]
    simp [hstarts]
  | true =>
    by_cases heq : entryPath = root
    · simp [heq]
    · cases hparent : root.parent <;> simp [heq, hstarts]

end

section
variable (entries : List ResolvedFileSystemEntry) (spelling : List Str) (root : AbsolutePathBuf)

def Listed (path : AbsolutePathBuf) : Prop := ∃ entry ∈ entries, entry.path = path

/-- A root above the path, with no entry in between that takes the permission to write away. -/
structure Opens : Prop where
  listed : Listed entries root
  writable : accessAt entries root = .write
  above : root.components <+: spelling
  between : ∀ entry ∈ entries, root.components <+: entry.path.components → entry.path ≠ root →
    entry.path.components <+: spelling → accessAt entries entry.path = .write

/-- A protected name without an entry comes next below the root, the first writable entry with one
below. -/
def Guards (host : Host) : Prop :=
  ∃ name ∈ protectedMetadataPathNames, root.components ++ [name] <+: spelling ∧
    ¬ Listed entries (root.join host.home name) ∧
      (firstExposing entries (root.join host.home name)).map ResolvedFileSystemEntry.path =
        some root

/-- The path lies below one that is read-only by default and has no entry. -/
def Blocks (host : Host) (cwd : Str) : Prop :=
  ∃ subpath ∈ defaultReadOnlySubpathsForWritableRoot host root
      (decide (fromAbsolutePath host cwd = some root)),
    ¬ Listed entries subpath ∧ subpath.components <+: spelling

/-- The root lets the path through. -/
structure Passes (host : Host) (cwd : Str) : Prop where
  opens : Opens entries spelling root
  not_guards : ¬ Guards entries spelling root host
  not_blocks : ¬ Blocks entries spelling root host cwd

end

namespace FileSystemSandboxPolicy
variable {policy : FileSystemSandboxPolicy} {host : Host} {cwd path : Str}
  {target : AbsolutePathBuf} {entry : ResolvedFileSystemEntry}

section
variable {entries : List ResolvedFileSystemEntry}

/-- What governs a path with an entry stands at the path. -/
theorem path_eq_of_listed (hlisted : Listed entries target) (h : Governs entries target entry) :
    entry.path = target := by
  obtain ⟨other, hmem, rfl⟩ := hlisted
  apply AbsolutePathBuf.ext
  apply h.on_way.eq_of_length
  exact le_antisymm h.on_way.length_le (h.length_le hmem prefix_rfl)

theorem exists_governs_of_listed (hlisted : Listed entries target) :
    ∃ entry, Governs entries target entry := by
  obtain ⟨other, hmem, rfl⟩ := hlisted
  exact Specificity.exists_governs hmem prefix_rfl

/-- What governs a path without an entry is what governs its parent. -/
theorem governs_child {child : AbsolutePathBuf} {name : Str}
    (hchild : child.components = target.components ++ [name]) (hlisted : ¬ Listed entries child) :
    Governs entries child entry ↔ Governs entries target entry := by
  have hway : ∀ other ∈ entries, other.path.components <+: child.components ↔
      other.path.components <+: target.components := by
    intro other hmem
    rw [hchild, prefix_concat_iff]
    constructor
    · rintro (heq | hprefix)
      · exact absurd ⟨other, hmem, ext (heq.trans hchild.symm)⟩ hlisted
      · exact hprefix
    · exact .inr
  constructor
  · rintro ⟨hmem, hon, htop⟩
    exact ⟨hmem, (hway entry hmem).mp hon, fun other hother hother' =>
      htop other hother ((hway other hother).mpr hother')⟩
  · rintro ⟨hmem, hon, htop⟩
    exact ⟨hmem, (hway entry hmem).mpr hon, fun other hother hother' =>
      htop other hother ((hway other hother).mp hother')⟩

/-- An entry right below an opening root, on the way to the path, allows to write. -/
theorem accessAt_child_of_opens {root child : AbsolutePathBuf} {spelling : List Str} {name : Str}
    (hopens : Opens entries spelling root)
    (hcomponents : child.components = root.components ++ [name])
    (hway : root.components ++ [name] <+: spelling) (hchild : Listed entries child) :
    accessAt entries child = .write := by
  obtain ⟨entry, hentry, rfl⟩ := hchild
  apply hopens.between entry hentry
  · rw [hcomponents]
    exact prefix_append _ _
  · rintro rfl
    simp at hcomponents
  · rw [hcomponents]
    exact hway

theorem firstExposing_ne_self (target : AbsolutePathBuf) :
    (firstExposing entries target).map ResolvedFileSystemEntry.path ≠ some target := by
  intro h
  obtain ⟨first, hfirst, rfl⟩ := map_eq_some_iff.mp h
  have hexposing := find?_some hfirst
  rw [Bool.and_eq_true] at hexposing
  obtain ⟨name, hname⟩ := isSome_iff_exists.mp hexposing.2
  have hlength := (exposedMetadataName_eq_some.mp hname).2.length_le
  rw [length_append, length_singleton] at hlength
  omega

end

theorem pathStartsWith_iff (hpath : startsWith path ['/'] = true) (base : AbsolutePathBuf) :
    pathStartsWith path base = true ↔ base.components <+: pathComponents path := by
  simp [pathStartsWith, hpath]

variable {writableRoot : WritableRoot}

theorem pathContainsProtectedMetadataName_iff (hpath : startsWith path ['/'] = true)
    (hroot : writableRoot.root.components <+: pathComponents path) :
    writableRoot.pathContainsProtectedMetadataName path = true ↔
      ∃ name ∈ writableRoot.protectedMetadataNames,
        writableRoot.root.components ++ [name] <+: pathComponents path := by
  have hstarts := (pathStartsWith_iff hpath writableRoot.root).mpr hroot
  obtain ⟨rest, hrest⟩ := hroot
  rw [WritableRoot.pathContainsProtectedMetadataName, if_pos hstarts, ← hrest]
  simp only [prefix_append_right_inj]
  cases rest <;> simp

theorem isPathWritable_iff (hpath : startsWith path ['/'] = true) :
    writableRoot.isPathWritable path = true ↔ writableRoot.root.components <+: pathComponents path ∧
        (∀ subpath ∈ writableRoot.readOnlySubpaths, ¬ subpath.components <+: pathComponents path) ∧
        ∀ name ∈ writableRoot.protectedMetadataNames,
          ¬ writableRoot.root.components ++ [name] <+: pathComponents path := by
  have hstarts := pathStartsWith_iff hpath
  by_cases hroot : writableRoot.root.components <+: pathComponents path
  · have hname := pathContainsProtectedMetadataName_iff hpath hroot
    rw [WritableRoot.isPathWritable, (hstarts _).mpr hroot]
    simp only [Bool.not_true, Bool.false_eq_true, if_false, hroot, true_and]
    split_ifs with hsub hprotected
    · simp only [false_iff, not_and]
      rw [List.any_eq_true] at hsub
      obtain ⟨subpath, hmem, hprefix⟩ := hsub
      exact fun hall => absurd ((hstarts subpath).mp hprefix) (hall subpath hmem)
    · simp only [false_iff, not_and, not_forall]
      obtain ⟨name, hmem, hprefix⟩ := hname.mp hprotected
      exact fun _ => ⟨name, hmem, not_not.mpr hprefix⟩
    · simp only [true_iff]
      constructor
      · intro subpath hmem hprefix
        exact hsub (any_eq_true.mpr ⟨subpath, hmem, (hstarts subpath).mpr hprefix⟩)
      · intro name hmem hprefix
        exact hprotected (hname.mpr ⟨name, hmem, hprefix⟩)
  · rw [WritableRoot.isPathWritable, Bool.eq_false_iff.mpr (mt (hstarts _).mp hroot)]
    simp [hroot]

section
variable (hkind : policy.kind = .restricted) (hfull : policy.hasFullDiskWriteAccess = false)
include hkind hfull

theorem canWrite_display_of_listed
    (hlisted : Listed (policy.resolvedEntriesWithCwd host cwd) target) :
    policy.canWritePathWithCwd host target.display cwd = true ↔
      accessAt (policy.resolvedEntriesWithCwd host cwd) target = .write := by
  rw [canWrite_iff hkind (resolveCandidatePath_display host target cwd) hfull]
  constructor
  · rintro ⟨entry, hgoverns, hwrite, -⟩
    rw [accessAt_of_governs hgoverns]
    exact FileSystemAccessMode.canWrite_iff_eq_write.mp hwrite
  · intro haccess
    obtain ⟨entry, hgoverns⟩ := exists_governs_of_listed hlisted
    rw [accessAt_of_governs hgoverns] at haccess
    refine ⟨entry, hgoverns, FileSystemAccessMode.canWrite_iff_eq_write.mpr haccess, ?_⟩
    rw [path_eq_of_listed hlisted hgoverns]
    exact firstExposing_ne_self target

variable {root : AbsolutePathBuf}

theorem canWrite_display_child {name : Str} (hname : name ∈ protectedMetadataPathNames)
    (hlisted : Listed (policy.resolvedEntriesWithCwd host cwd) root)
    (hwritable : accessAt (policy.resolvedEntriesWithCwd host cwd) root = .write)
    (hchild : ¬ Listed (policy.resolvedEntriesWithCwd host cwd) (root.join host.home name)) :
    policy.canWritePathWithCwd host (root.join host.home name).display cwd = true ↔
      (firstExposing (policy.resolvedEntriesWithCwd host cwd) (root.join host.home name)).map
        ResolvedFileSystemEntry.path ≠ some root := by
  obtain ⟨entry, hgoverns⟩ := exists_governs_of_listed hlisted
  rw [accessAt_of_governs hgoverns] at hwritable
  have hgoverns' := (governs_child (join_metadataName hname host.home root) hchild).mpr hgoverns
  rw [canWrite_iff_of_governs hkind (resolveCandidatePath_display host _ cwd) hfull hgoverns'
    (FileSystemAccessMode.canWrite_iff_eq_write.mpr hwritable),
    path_eq_of_listed hlisted hgoverns]

theorem mem_writableEntries : root ∈ policy.writableEntriesWithCwd host cwd ↔
      Listed (policy.resolvedEntriesWithCwd host cwd) root ∧
        accessAt (policy.resolvedEntriesWithCwd host cwd) root = .write := by
  simp only [writableEntriesWithCwd, List.mem_map, mem_filter]
  constructor
  · rintro ⟨entry, ⟨⟨hmem, -⟩, hcan⟩, rfl⟩
    have hlisted : Listed (policy.resolvedEntriesWithCwd host cwd) entry.path := ⟨entry, hmem, rfl⟩
    exact ⟨hlisted, (canWrite_display_of_listed hkind hfull hlisted).mp hcan⟩
  · rintro ⟨hlisted, hwritable⟩
    obtain ⟨entry, hgoverns⟩ := exists_governs_of_listed hlisted
    have hentry := path_eq_of_listed hlisted hgoverns
    refine ⟨entry, ⟨⟨hgoverns.mem, ?_⟩, ?_⟩, hentry⟩
    · rw [accessAt_of_governs hgoverns] at hwritable
      exact FileSystemAccessMode.canWrite_iff_eq_write.mpr hwritable
    · rw [hentry]
      exact (canWrite_display_of_listed hkind hfull hlisted).mpr hwritable

variable (hlink : host.LinkFree)
include hlink

omit hkind hfull in
theorem eq_of_mem_rawWritableRoots : ∀ rawRoot ∈ (policy.writableEntriesWithCwd host cwd).filter
      (fun path => decide (normalizeEffectiveAbsolutePath host path = root)), rawRoot = root := by
  intro rawRoot hmem
  have heq := of_decide_eq_true (mem_filter.mp hmem).2
  rwa [normalizeEffectiveAbsolutePath_eq hlink] at heq

/-- The paths below a root that stay read-only: the defaults without an entry, and the entries
at which the policy does not allow to write. -/
theorem mem_readOnlySubpaths {root subpath : AbsolutePathBuf} :
    subpath ∈ (policy.writableRootWithCwd host cwd root).readOnlySubpaths ↔
      (subpath ∈ defaultReadOnlySubpathsForWritableRoot host root
          (decide (fromAbsolutePath host cwd = some root)) ∧
        ¬ Listed (policy.resolvedEntriesWithCwd host cwd) subpath) ∨
      Listed (policy.resolvedEntriesWithCwd host cwd) subpath ∧
        accessAt (policy.resolvedEntriesWithCwd host cwd) subpath ≠ .write ∧ subpath ≠ root ∧
          root.components <+: subpath.components := by
  have hmissing : ((fromAbsolutePath host cwd).any
      fun cwd => decide (normalizeEffectiveAbsolutePath host cwd = root)) =
        decide (fromAbsolutePath host cwd = some root) := by
    cases fromAbsolutePath host cwd <;>
      simp [normalizeEffectiveAbsolutePath_eq hlink]
  have hexplicit : hasExplicitResolvedPathEntry (policy.resolvedEntriesWithCwd host cwd) subpath =
      true ↔ Listed (policy.resolvedEntriesWithCwd host cwd) subpath := by
    simp [hasExplicitResolvedPathEntry, Listed]
  simp only [writableRootWithCwd, mem_dedupAbsolutePaths hlink, mem_append, mem_filter,
    mem_filterMap, hmissing, Bool.not_eq_true', ← Bool.not_eq_true, hexplicit,
    carveoutPath_eq hlink root _ (eq_of_mem_rawWritableRoots hlink)]
  apply or_congr_right
  constructor
  · rintro ⟨entry, ⟨⟨hmem, -⟩, hcan⟩, hcarveout⟩
    split_ifs at hcarveout with hbelow
    obtain rfl : entry.path = subpath := some.inj hcarveout
    have hlisted : Listed (policy.resolvedEntriesWithCwd host cwd) entry.path := ⟨entry, hmem, rfl⟩
    exact ⟨hlisted, mt (canWrite_display_of_listed hkind hfull hlisted).mpr hcan, hbelow.1,
      startsWith_iff.mp hbelow.2⟩
  · rintro ⟨hlisted, haccess, hne, hbelow⟩
    obtain ⟨entry, hgoverns⟩ := exists_governs_of_listed hlisted
    obtain rfl := path_eq_of_listed hlisted hgoverns
    refine ⟨entry, ⟨⟨hgoverns.mem, ?_⟩, ?_⟩, ?_⟩
    · rw [accessAt_of_governs hgoverns] at haccess
      exact mt FileSystemAccessMode.canWrite_iff_eq_write.mp haccess
    · exact mt (canWrite_display_of_listed hkind hfull hlisted).mp haccess
    · rw [if_pos ⟨hne, startsWith_iff.mpr hbelow⟩]

omit hkind hfull in
theorem mem_protectedMetadataNames {name : Str} :
    name ∈ (policy.writableRootWithCwd host cwd root).protectedMetadataNames ↔
      name ∈ protectedMetadataPathNames ∧
        policy.canWritePathWithCwd host (root.join host.home name).display cwd = false := by
  simp only [writableRootWithCwd, protectedMetadataNamesForWritableRoot, mem_filter,
    map_cons, all_cons, List.all_map, Bool.and_eq_true, List.all_eq_true,
    Function.comp_apply, Bool.not_eq_true']
  apply and_congr_right
  intro _
  constructor
  · exact fun h => h.1
  · intro h
    refine ⟨h, ?_⟩
    intro rawRoot hmem
    rw [eq_of_mem_rawWritableRoots hlink rawRoot (mem_filter.mpr hmem)]
    exact h

theorem isPathWritable_writableRoot_iff (hpath : startsWith path ['/'] = true)
    (hlisted : Listed (policy.resolvedEntriesWithCwd host cwd) root)
    (hwritable : accessAt (policy.resolvedEntriesWithCwd host cwd) root = .write) :
    (policy.writableRootWithCwd host cwd root).isPathWritable path = true ↔
      Passes (policy.resolvedEntriesWithCwd host cwd) (pathComponents path) root host cwd := by
  rw [isPathWritable_iff hpath]
  constructor
  · rintro ⟨habove, hsubpaths, hnames⟩
    refine ⟨⟨hlisted, hwritable, habove, ?_⟩, ?_, ?_⟩
    · intro entry hmem hbelow hne hway
      by_contra hnot
      exact hsubpaths entry.path ((mem_readOnlySubpaths hkind hfull hlink).mpr
        (.inr ⟨⟨entry, hmem, rfl⟩, hnot, hne, hbelow⟩)) hway
    · rintro ⟨name, hname, hway, hchild, hfirst⟩
      apply hnames name ((mem_protectedMetadataNames hlink).mpr ⟨hname, ?_⟩) hway
      rw [Bool.eq_false_iff, ne_eq, canWrite_display_child hkind hfull hname hlisted hwritable hchild]
      exact not_not.mpr hfirst
    · rintro ⟨subpath, hdefault, hunlisted, hway⟩
      exact hsubpaths subpath ((mem_readOnlySubpaths hkind hfull hlink).mpr
        (.inl ⟨hdefault, hunlisted⟩)) hway
  · rintro ⟨hopens, hguards, hblocks⟩
    refine ⟨hopens.above, ?_, ?_⟩
    · intro subpath hmem hway
      rcases (mem_readOnlySubpaths hkind hfull hlink).mp hmem with
        ⟨hdefault, hunlisted⟩ | ⟨⟨entry, hentry, rfl⟩, hnot, hne, hbelow⟩
      · exact hblocks ⟨subpath, hdefault, hunlisted, hway⟩
      · exact hnot (hopens.between entry hentry hbelow hne hway)
    · intro name hmem hway
      obtain ⟨hname, hcan⟩ := (mem_protectedMetadataNames hlink).mp hmem
      have hcomponents := join_metadataName hname host.home root
      by_cases hchild : Listed (policy.resolvedEntriesWithCwd host cwd) (root.join host.home name)
      · have hwrite := accessAt_child_of_opens hopens hcomponents hway hchild
        rw [(canWrite_display_of_listed hkind hfull hchild).mpr hwrite] at hcan
        cases hcan
      · apply hguards
        refine ⟨name, hname, hway, hchild, ?_⟩
        by_contra hfirst
        rw [(canWrite_display_child hkind hfull hname hlisted hwritable hchild).mpr hfirst] at hcan
        cases hcan

theorem exists_writableRoot_iff (hpath : startsWith path ['/'] = true) :
    (∃ root ∈ policy.getWritableRootsWithCwd host cwd, root.isPathWritable path = true) ↔
      ∃ root, Passes (policy.resolvedEntriesWithCwd host cwd) (pathComponents path) root host
        cwd := by
  rw [getWritableRootsWithCwd, hfull]
  simp only [Bool.false_eq_true, if_false, List.mem_map, mem_dedupAbsolutePaths hlink,
    mem_writableEntries hkind hfull]
  constructor
  · rintro ⟨_, ⟨root, ⟨hlisted, hwritable⟩, rfl⟩, hcan⟩
    exact ⟨root, (isPathWritable_writableRoot_iff hkind hfull hlink hpath hlisted hwritable).mp hcan⟩
  · rintro ⟨root, hpasses⟩
    refine ⟨_, ⟨root, ⟨hpasses.opens.listed, hpasses.opens.writable⟩, rfl⟩, ?_⟩
    exact (isPathWritable_writableRoot_iff hkind hfull hlink hpath hpasses.opens.listed
      hpasses.opens.writable).mpr hpasses

end

variable {entries : List ResolvedFileSystemEntry}

/-- A protected name next on the way to a target is next on the way to a child of the entry that
governs it. -/
theorem firstExposing_child {child : AbsolutePathBuf}
    {name : Str} (hgoverns : Governs entries target entry)
    (hchild : child.components = entry.path.components ++ [name])
    (hway : child.components <+: target.components) :
    firstExposing entries child = firstExposing entries target := by
  rw [firstExposing, firstExposing, ← head?_filter, ← head?_filter]
  congr 1
  apply filter_congr
  intro other hmem
  congr 1
  rw [Bool.eq_iff_iff, isSome_iff_exists, isSome_iff_exists]
  simp only [exposedMetadataName_eq_some]
  apply exists_congr
  intro otherName
  apply and_congr_right
  intro _
  constructor
  · exact fun h => h.trans hway
  · intro h
    apply prefix_of_prefix_length_le h hway
    have hle : other.path.components.length ≤ entry.path.components.length :=
      hgoverns.length_le hmem ((prefix_append _ _).trans h)
    rw [hchild, length_append, length_append]
    exact Nat.add_le_add_right hle 1

theorem firstExposing_iff_guards (hgoverns : Governs entries target entry) :
    (firstExposing entries target).map ResolvedFileSystemEntry.path = some entry.path ↔
      Guards entries target.components entry.path host := by
  constructor
  · intro hfirst
    obtain ⟨first, hfirst, hpath⟩ := map_eq_some_iff.mp hfirst
    have hexposing := find?_some hfirst
    rw [Bool.and_eq_true] at hexposing
    obtain ⟨name, hname⟩ := isSome_iff_exists.mp hexposing.2
    obtain ⟨hprotected, hway⟩ := exposedMetadataName_eq_some.mp hname
    rw [hpath] at hway
    have hchild := join_metadataName hprotected host.home entry.path
    refine ⟨name, hprotected, hway, ?_, ?_⟩
    · rintro ⟨other, hmem, hother⟩
      have hle : other.path.components.length ≤ entry.path.components.length :=
        hgoverns.length_le hmem (by rw [hother, hchild]; exact hway)
      rw [hother, hchild, length_append, length_singleton] at hle
      omega
    · rw [firstExposing_child hgoverns hchild (hchild ▸ hway), hfirst, map_some, hpath]
  · rintro ⟨name, hprotected, hway, -, hfirst⟩
    have hchild := join_metadataName hprotected host.home entry.path
    rw [firstExposing_child hgoverns hchild (hchild ▸ hway)] at hfirst
    exact hfirst

variable {root : AbsolutePathBuf}

/-- What governs a path that a root opens lies at the root or below, and allows to write. -/
theorem exists_governs_of_opens (h : Opens entries target.components root) :
    ∃ entry, Governs entries target entry ∧ entry.access = .write := by
  obtain ⟨⟨other, hother, rfl⟩, hwritable, habove, hbetween⟩ := h
  obtain ⟨entry, hgoverns⟩ : ∃ entry, Governs entries target entry :=
    Specificity.exists_governs hother habove
  have hself : Governs entries entry.path entry := hgoverns.between prefix_rfl hgoverns.on_way
  refine ⟨entry, hgoverns, ?_⟩
  rw [← accessAt_of_governs hself]
  by_cases heq : entry.path = other.path
  · rw [heq, hwritable]
  · exact hbetween entry hgoverns.mem (hgoverns.prefix_of_mem hother habove) heq hgoverns.on_way

theorem opens_of_governs (hgoverns : Governs entries target entry)
    (hwrite : entry.access = .write) : Opens entries target.components entry.path where
  listed := ⟨entry, hgoverns.mem, rfl⟩
  writable := (accessAt_of_governs (hgoverns.between prefix_rfl hgoverns.on_way)).trans hwrite
  above := hgoverns.on_way
  between _ hother hbelow hne hway :=
    have habove := hgoverns.prefix_of_mem hother hway
    absurd (ext (habove.eq_of_length (le_antisymm habove.length_le hbelow.length_le))) hne

/-- The most specific entry allows to write, and the path does not go on with a name that it
protects. -/
def Allows (entries : List ResolvedFileSystemEntry) (host : Host) (target : AbsolutePathBuf) :
    Prop :=
  ∃ entry, Governs entries target entry ∧ entry.access = .write ∧
    ¬ Guards entries target.components entry.path host

/-- Below the most specific entry, if it allows to write: a name that it protects is not let
through by a root further out, and a path that is read-only by default is. -/
def RootsFollow (entries : List ResolvedFileSystemEntry) (host : Host) (cwd : Str)
    (target : AbsolutePathBuf) : Prop :=
  ∀ entry, Governs entries target entry → entry.access = .write →
    (Guards entries target.components entry.path host →
      ∀ root ≠ entry.path, ¬ Passes entries target.components root host cwd) ∧
    (¬ Guards entries target.components entry.path host →
      Blocks entries target.components entry.path host cwd →
      ∃ root ≠ entry.path, Passes entries target.components root host cwd)

theorem rootsFollow_iff : RootsFollow entries host cwd target ↔
    (Allows entries host target ↔ ∃ root, Passes entries target.components root host cwd) := by
  by_cases hwritten : ∃ entry, Governs entries target entry ∧ entry.access = .write
  · obtain ⟨entry, hgoverns, hwrite⟩ := hwritten
    have hunique : ∀ other, Governs entries target other → other.path = entry.path :=
      fun other hother => ext (hother.unique hgoverns).1
    have hallows : Allows entries host target ↔
        ¬ Guards entries target.components entry.path host := by
      constructor
      · rintro ⟨other, hother, -, hguards⟩
        rwa [hunique other hother] at hguards
      · exact fun hguards => ⟨entry, hgoverns, hwrite, hguards⟩
    rw [hallows]
    constructor
    · intro hfollow
      obtain ⟨hguarded, hblocked⟩ := hfollow entry hgoverns hwrite
      constructor
      · intro hguards
        by_cases hblocks : Blocks entries target.components entry.path host cwd
        · obtain ⟨root, -, hpasses⟩ := hblocked hguards hblocks
          exact ⟨root, hpasses⟩
        · exact ⟨entry.path, opens_of_governs hgoverns hwrite, hguards, hblocks⟩
      · rintro ⟨root, hpasses⟩ hguards
        by_cases heq : root = entry.path
        · exact hpasses.not_guards (heq ▸ hguards)
        · exact hguarded hguards root heq hpasses
    · intro hagree other hother _
      rw [hunique other hother]
      constructor
      · exact fun hguards root _ hpasses => hagree.mpr ⟨root, hpasses⟩ hguards
      · intro hguards hblocks
        obtain ⟨root, hpasses⟩ := hagree.mp hguards
        exact ⟨root, fun heq => hpasses.not_blocks (heq ▸ hblocks), hpasses⟩
  · -- Without such an entry nothing is allowed and no root opens the path.
    refine iff_of_true (fun entry hgoverns hwrite => absurd ⟨entry, hgoverns, hwrite⟩ hwritten) ?_
    refine iff_of_false (fun ⟨entry, hgoverns, hwrite, _⟩ => hwritten ⟨entry, hgoverns, hwrite⟩) ?_
    exact fun ⟨_, hpasses⟩ => hwritten (exists_governs_of_opens hpasses.opens)

/-- The path has no parent components. -/
def SpelledOut (path : Str) : Prop := pathComponents path = (absolutizeFrom path .root).components

/-- On a path without parent components they decide alike exactly where the roots follow the most
specific entry. -/
theorem write_deciders_agree (policy : FileSystemSandboxPolicy) (host : Host) (path cwd : Str)
    (hkind : policy.kind = .restricted) (hfull : policy.hasFullDiskWriteAccess = false)
    (hpath : startsWith path ['/'] = true) (hlink : host.LinkFree) :
    (SpelledOut path ∧ RootsFollow (policy.resolvedEntriesWithCwd host cwd) host cwd
        (absolutizeFrom path .root) →
      (policy.canWritePathWithCwd host path cwd = true ↔
        ∃ root ∈ policy.getWritableRootsWithCwd host cwd, root.isPathWritable path = true)) ∧
    (SpelledOut path ∧ (policy.canWritePathWithCwd host path cwd = true ↔
        ∃ root ∈ policy.getWritableRootsWithCwd host cwd, root.isPathWritable path = true) →
      RootsFollow (policy.resolvedEntriesWithCwd host cwd) host cwd
        (absolutizeFrom path .root)) := by
  have htarget : resolveCandidatePath host path cwd = some (absolutizeFrom path .root) := by
    rw [resolveCandidatePath, if_pos hpath, fromAbsolutePath_of_slash host hpath]
  have hcan : policy.canWritePathWithCwd host path cwd = true ↔
      Allows (policy.resolvedEntriesWithCwd host cwd) host (absolutizeFrom path .root) := by
    rw [canWrite_iff hkind htarget hfull]
    apply exists_congr
    intro entry
    apply and_congr_right
    intro hgoverns
    rw [FileSystemAccessMode.canWrite_iff_eq_write, ne_eq, firstExposing_iff_guards hgoverns]
  rw [hcan, exists_writableRoot_iff hkind hfull hlink hpath, rootsFollow_iff, SpelledOut]
  constructor
  · rintro ⟨hspelled, hfollow⟩
    rwa [hspelled]
  · rintro ⟨hspelled, hagree⟩
    rwa [hspelled] at hagree

def writable (components : List String) (h : ∀ c ∈ components.map String.toList, NormalComponent c) :
    FileSystemSandboxEntry := ⟨.path ⟨components.map String.toList, h⟩, .write⟩

def nestedRoots : FileSystemSandboxPolicy :=
  ofRestricted [writable ["a"] (by decide), writable ["a", "b"] (by decide)]

/-- The policy protects `/a/b/.git`, but the root `/a` lets it through. -/
theorem write_deciders_differ :
    nestedRoots.hasFullDiskWriteAccess = false ∧ Host.bare.LinkFree ∧
      nestedRoots.canWritePathWithCwd .bare "/a/b/.git/x".toList "/".toList = false ∧
      ∃ root ∈ nestedRoots.getWritableRootsWithCwd .bare "/".toList,
        root.isPathWritable "/a/b/.git/x".toList = true := by
  refine ⟨?_, Host.linkFree_bare, ?_, ?_⟩
  · decide +kernel
  · decide +kernel
  · decide +kernel

def nestedEntries : List ResolvedFileSystemEntry :=
  nestedRoots.resolvedEntriesWithCwd .bare "/".toList

theorem write_deciders_agree_nested :
    SpelledOut "/a/b/x".toList ∧
      RootsFollow nestedEntries .bare "/".toList (absolutizeFrom "/a/b/x".toList .root) ∧
      (nestedRoots.canWritePathWithCwd .bare "/a/b/x".toList "/".toList = true ↔
        ∃ root ∈ nestedRoots.getWritableRootsWithCwd .bare "/".toList,
          root.isPathWritable "/a/b/x".toList = true) := by
  have hgoverns : Governs nestedEntries (absolutizeFrom "/a/b/x".toList .root)
      ⟨⟨["a".toList, "b".toList], by decide⟩, .write⟩ :=
    Specificity.governs_of_governing (by decide +kernel)
  have hguards : ∀ name ∈ protectedMetadataPathNames, ¬ ["a".toList, "b".toList] ++ [name] <+:
      (absolutizeFrom "/a/b/x".toList .root).components := by
    decide +kernel
  have hdefaults : defaultReadOnlySubpathsForWritableRoot .bare
      ⟨["a".toList, "b".toList], by decide⟩ (decide (fromAbsolutePath .bare "/".toList =
        some ⟨["a".toList, "b".toList], by decide⟩)) = [] := by
    decide +kernel
  have hspelled : SpelledOut "/a/b/x".toList := by
    unfold SpelledOut
    decide +kernel
  have hfollow : RootsFollow nestedEntries .bare "/".toList
      (absolutizeFrom "/a/b/x".toList .root) := by
    intro entry hentry _
    rw [show entry.path = _ from ext (hentry.unique hgoverns).1]
    constructor
    · exact fun ⟨name, hname, hway, _⟩ => absurd hway (hguards name hname)
    · rintro - ⟨subpath, hdefault, -⟩
      cases hdefault
  exact ⟨hspelled, hfollow, (write_deciders_agree nestedRoots .bare "/a/b/x".toList "/".toList rfl
    (by decide +kernel) (by decide +kernel) Host.linkFree_bare).1 ⟨hspelled, hfollow⟩⟩

end FileSystemSandboxPolicy

end CodexRs.Protocol
