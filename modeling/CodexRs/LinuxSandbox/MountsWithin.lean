import CodexRs.LinuxSandbox.MountPasses

/-!
# Mounts against the policy

The pass of the deepest writable root above a path decides, unless a later pass puts a git
directory back that lies outside its own root.
-/
namespace CodexRs.LinuxSandbox
open Text Files Protocol FileSystemSandboxPolicy AbsolutePathBuf Layers List Option

variable {host : MountHost} {policy : FileSystemSandboxPolicy} {cwd : Str} {path : AbsolutePathBuf}

section
variable {unreadableRoots : List AbsolutePathBuf} {root : AbsolutePathBuf}
  {shown : Option MountAccess} {entry : ResolvedFileSystemEntry}

/-- The pass of a root puts back the git directory that its `.git` points to. -/
structure BindsGitdir (host : MountHost) (policy : FileSystemSandboxPolicy) (cwd : Str)
    (root gitdir : AbsolutePathBuf) : Prop where
  pointsTo : PointsTo host.toHost root gitdir
  unlisted : ¬ Listed (policy.resolvedEntriesWithCwd host.toHost cwd) gitdir
  within : isWithinAllowedWritePaths gitdir (allowedWritePaths host policy cwd) = true

/-- What governs a path has the access that the policy gives at its own path. -/
theorem accessAt_governing (h : Governs (policy.resolvedEntriesWithCwd host.toHost cwd) path entry) :
    accessAt (policy.resolvedEntriesWithCwd host.toHost cwd) entry.path = entry.access :=
  accessAt_of_governs (h.between prefix_rfl h.on_way)

theorem exists_governs_below (hlisted : Listed (policy.resolvedEntriesWithCwd host.toHost cwd) root)
    (habove : root.components <+: path.components) :
    ∃ entry, Governs (policy.resolvedEntriesWithCwd host.toHost cwd) path entry ∧
      root.components <+: entry.path.components := by
  obtain ⟨other, hmem, rfl⟩ := hlisted
  obtain ⟨entry, hgoverns⟩ : ∃ entry, Governs (policy.resolvedEntriesWithCwd host.toHost cwd) path
      entry := Specificity.exists_governs hmem habove
  exact ⟨entry, hgoverns, hgoverns.prefix_of_mem hmem habove⟩

/-- An entry that denies a path, below a path that is not denied, is masked. -/
theorem denied_of_governs (habove : root.components <+: entry.path.components)
    (hroot : accessAt (policy.resolvedEntriesWithCwd host.toHost cwd) root ≠ .none)
    (hgoverns : Governs (policy.resolvedEntriesWithCwd host.toHost cwd) path entry)
    (haccess : entry.access = .none) : Denied host.toHost policy cwd entry.path := by
  refine ⟨⟨entry, hgoverns.mem, rfl⟩, (accessAt_governing hgoverns).trans haccess, ?_⟩
  intro h
  obtain ⟨-, -, hentry⟩ := map_eq_some_iff.mp h
  rw [← hentry] at habove
  have hsame : root = entry.path := by
    rw [← hentry]
    exact ext (prefix_nil.mp habove)
  rw [hsame, accessAt_governing hgoverns] at hroot
  exact hroot haccess

variable (hkind : policy.kind = .restricted) (hpaths : OnlyPaths policy) (hlink : host.LinkFree)
  (htree : IsTree host.toHost) (hexists : host.pathExists path = true)
  (hunreadable : ∀ path, path ∈ unreadableRoots ↔ Denied host.toHost policy cwd path)
  (hgranted : Granted host.toHost policy cwd root)
  (hshows : Shows host policy cwd unreadableRoots (policy.writableRootWithCwd host.toHost cwd root)
    path shown)
include hkind hunreadable hgranted hshows

/-- A pass below whose root the path lies exposes it only if the policy allows to read it. -/
theorem canRead_of_shows (habove : root.components <+: path.components)
    (hshown : shown ≠ some .hidden) :
    policy.canReadPathWithCwd host.toHost path.display cwd = true := by
  obtain ⟨entry, hgoverns, hbelow⟩ := exists_governs_below hgranted.1 habove
  rw [canRead_display hkind, accessAt_of_governs hgoverns]
  cases haccess : entry.access with
  | read => rfl
  | write => rfl
  | none =>
    have hroot : accessAt (policy.resolvedEntriesWithCwd host.toHost cwd) root ≠ .none := by
      rw [hgranted.2]
      exact FileSystemAccessMode.noConfusion
    have hdenied := denied_of_governs hbelow hroot hgoverns haccess
    exact absurd hgoverns.on_way
      (hshows.unmasked hshown entry.path ((hunreadable entry.path).mpr hdenied) hbelow)
include hpaths hlink htree hexists

omit hunreadable in
/-- The pass of the deepest root above a path leaves it writable only if the policy does. -/
theorem canWrite_of_shows (habove : root.components <+: path.components)
    (hdeepest : ∀ other, Granted host.toHost policy cwd other → host.pathExists other = true →
      other.components <+: path.components → other.components.length ≤ root.components.length)
    (hshown : shown = some .writable) :
    policy.canWritePathWithCwd host.toHost path.display cwd = true := by
  have hfull := hasFullDiskWriteAccess_eq_false hpaths hkind
  obtain ⟨entry, hgoverns, hbelow⟩ := exists_governs_below hgranted.1 habove
  have hrootExists := htree.above path root hexists habove
  have hwithin : ∀ subpath : AbsolutePathBuf, root.components <+: subpath.components →
      isWithinAllowedWritePaths subpath (allowedWritePaths host policy cwd) = true :=
    fun subpath h => (isWithinAllowed_iff hkind hlink hpaths).mpr ⟨root, hgranted, hrootExists, h⟩
  have hnone := hshows.writable hshown
  by_cases hsame : entry.path = root
  · have hwrite : entry.access.canWrite = true := by
      rw [← accessAt_governing hgoverns, hsame, hgranted.2]
      rfl
    rw [canWrite_iff_of_governs hkind (resolveCandidatePath_display _ _ _) hfull hgoverns hwrite,
      ne_eq, firstExposing_iff_guards hgoverns, hsame]
    rintro ⟨name, hname, hway, hchild, hfirst⟩
    have hcomponents := join_metadataName hname host.home root
    rw [← hcomponents] at hway
    -- the name is protected, so that the pass puts it back read-only
    apply hnone (root.join host.home name)
    refine ⟨(mem_readOnlySubpathsToBind hpaths).mpr (.inr ⟨name, ?_, ?_, rfl⟩),
      hwithin _ (below_join hname _ _), hway⟩
    · rw [mem_protectedMetadataNames hlink]
      refine ⟨hname, ?_⟩
      rw [Bool.eq_false_iff, ne_eq,
        canWrite_display_child hkind hfull hname hgranted.1 hgranted.2 hchild]
      exact not_not.mpr hfirst
    · have hthere := htree.entry _ (htree.above path _ hexists hway)
      rw [shouldLeaveMissingGitForParentRepoDiscovery, decide_eq_false_iff_not]
      rintro ⟨-, hmissing, -⟩
      exact hthere (isNone_iff_eq_none.mp hmissing)
  · by_cases hwrite : entry.access = .write
    · have hlength := hdeepest entry.path
        ⟨⟨entry, hgoverns.mem, rfl⟩, (accessAt_governing hgoverns).trans hwrite⟩
        (htree.above path entry.path hexists hgoverns.on_way) hgoverns.on_way
      exact absurd (ext (hbelow.eq_of_length_le hlength)).symm hsame
    · have hmem : entry.path ∈ (policy.writableRootWithCwd host.toHost cwd root).readOnlySubpaths := by
        rw [mem_readOnlySubpaths hkind hfull hlink, accessAt_governing hgoverns]
        exact .inr ⟨⟨entry, hgoverns.mem, rfl⟩, hwrite, hsame, hbelow⟩
      refine absurd ⟨(mem_readOnlySubpathsToBind hpaths).mpr (.inl ⟨hmem, ?_⟩),
        hwithin entry.path hbelow, hgoverns.on_way⟩ (hnone entry.path)
      intro hdenied
      apply hshows.unmasked _ entry.path hdenied hbelow hgoverns.on_way
      rw [hshown]
      exact fun h => MountAccess.noConfusion (some.inj h)

omit hgranted hexists htree in
/-- Away from its root, a pass shows nothing but a git directory. -/
theorem shows_apart_iff (hapart : ¬ root.components <+: path.components) {access : MountAccess} :
    shown = some access ↔ ∃ gitdir, BindsGitdir host policy cwd root gitdir ∧
      gitdir.components <+: path.components ∧ readOnlyAccess host gitdir = access := by
  have hfull := hasFullDiskWriteAccess_eq_false hpaths hkind
  have hgitdir : ∀ access, shown = some access → ∃ gitdir, BindsGitdir host policy cwd root gitdir ∧
      gitdir.components <+: path.components ∧ readOnlyAccess host gitdir = access := by
    intro access haccess
    obtain ⟨subpath, ⟨hmem, hwithin, hway⟩, rfl⟩ := hshows.apart hapart access haccess
    rcases (mem_readOnlySubpathsToBind hpaths).mp hmem with ⟨hread, -⟩ | ⟨name, hname, -, rfl⟩
    · rcases (mem_readOnlySubpaths hkind hfull hlink).mp hread with
        ⟨hdefault, hunlisted⟩ | ⟨-, -, -, hbelow⟩
      · rcases below_or_pointsTo hlink hdefault with hbelow | hpoints
        · exact absurd (hbelow.trans hway) hapart
        · exact ⟨subpath, ⟨hpoints, hunlisted, hwithin⟩, hway, rfl⟩
      · exact absurd (hbelow.trans hway) hapart
    · have hname' := ((mem_protectedMetadataNames hlink).mp hname).1
      exact absurd ((below_join hname' _ _).trans hway) hapart
  refine ⟨hgitdir access, ?_⟩
  rintro ⟨gitdir, hbinds, hway, rfl⟩
  have hmem : gitdir ∈ (policy.writableRootWithCwd host.toHost cwd root).readOnlySubpaths :=
    (mem_readOnlySubpaths hkind hfull hlink).mpr
      (.inl ⟨mem_default_of_pointsTo hlink _ hbinds.pointsTo, hbinds.unlisted⟩)
  have hdenied : gitdir ∉ unreadableRoots := fun h => hbinds.unlisted ((hunreadable gitdir).mp h).1
  have hputs : PutsBack host policy cwd unreadableRoots
      (policy.writableRootWithCwd host.toHost cwd root) path gitdir :=
    ⟨(mem_readOnlySubpathsToBind hpaths).mpr (.inl ⟨hmem, hdenied⟩), hbinds.within, hway⟩
  cases hshown : shown with
  | none => exact absurd hshown (hshows.putBack gitdir hputs)
  | some access =>
    obtain ⟨other, hother, -, rfl⟩ := hgitdir access hshown
    have hsame : other = gitdir := some.inj (hother.pointsTo.2.symm.trans hbinds.pointsTo.2)
    rw [hsame]

end

section
variable (hkind : policy.kind = .restricted) (hpaths : OnlyPaths policy) (hlink : host.LinkFree)
include hkind hpaths hlink

theorem mem_readableRoots {root : AbsolutePathBuf} :
    root ∈ policy.getReadableRootsWithCwd host.toHost cwd →
      Listed (policy.resolvedEntriesWithCwd host.toHost cwd) root ∧
        accessAt (policy.resolvedEntriesWithCwd host.toHost cwd) root ≠ .none := by
  rw [getReadableRootsWithCwd, hasFullDiskReadAccess_eq_false hpaths hkind]
  simp only [Bool.false_eq_true, if_false, mem_dedupAbsolutePaths hlink, List.mem_map,
    mem_filter, canRead_display hkind]
  rintro ⟨entry, ⟨⟨hmem, -⟩, hread⟩, rfl⟩
  refine ⟨⟨entry, hmem, rfl⟩, ?_⟩
  intro hnone
  rw [hnone] at hread
  cases hread

/-- The base never lets write, and it shows only what lies below a readable root. -/
theorem view_baseArgs (cwd : Str) (hdev : ¬ devPath.components <+: path.components) :
    view (baseArgs host policy cwd) path ≠ some .writable ∧
      (view (baseArgs host policy cwd) path = some .readable →
        ∃ root ∈ policy.getReadableRootsWithCwd host.toHost cwd,
          root.components <+: path.components) := by
  have hdevView : view [.dev devPath] path = none :=
    visible_eq_none_iff.mpr (by simpa [mounts, BwrapArg.mount] using hdev)
  have hsingle : ∀ arg, view [arg, .dev devPath] path = view [arg] path := by
    intro arg
    rw [← singleton_append, view_append, hdevView, none_or]
  rw [baseArgs, hasFullDiskReadAccess_eq_false hpaths hkind,
    includePlatformDefaults_eq_false hpaths]
  simp only [Bool.false_eq_true, if_false, append_nil, canonicalTarget_eq_none hlink,
    getD_none, ite_self]
  by_cases hroot : root ∈
      sortedUnique (policy.getReadableRootsWithCwd host.toHost cwd)
  · rw [if_pos hroot, readableBaseArgs, hsingle]
    have hview : view [.roBind .root] path = some .readable :=
      (visible_singleton _).trans (if_pos nil_prefix)
    rw [hview]
    exact ⟨by simp, fun _ => ⟨.root, mem_sortedUnique.mp hroot, nil_prefix⟩⟩
  · rw [if_neg hroot, view_append, hsingle]
    have hhidden : view [.tmpfs .root] path = some .hidden :=
      (visible_singleton _).trans (if_pos nil_prefix)
    rw [hhidden]
    cases hview : view (((sortedUnique (policy.getReadableRootsWithCwd host.toHost cwd)).filter
        fun root => host.pathExists root).map BwrapArg.roBind) path with
    | none => simp
    | some access =>
      obtain ⟨layer, hlayer, hway, rfl⟩ := exists_of_visible hview
      obtain ⟨_, harg, hmount⟩ := mem_filterMap.mp hlayer
      obtain ⟨root, hmem, rfl⟩ := mem_map.mp harg
      obtain rfl := some.inj hmount
      exact ⟨by simp, fun _ => ⟨root, mem_sortedUnique.mp (mem_of_mem_filter hmem), hway⟩⟩

end

/-- The mounts allow no more at a path than the policy does. -/
def WithinPolicy (host : Host) (policy : FileSystemSandboxPolicy) (cwd : Str)
    (args : List BwrapArg) (path : AbsolutePathBuf) : Prop :=
  (mountedAccess args path = .writable →
    policy.canWritePathWithCwd host path.display cwd = true) ∧
  (mountedAccess args path ≠ .hidden → policy.canReadPathWithCwd host path.display cwd = true)

/-- The policy denies to read the path, but a git directory at or above it is put back after the
last pass of a root above it. -/
def Reexposed (host : MountHost) (policy : FileSystemSandboxPolicy) (cwd : Str)
    (path : AbsolutePathBuf) : Prop :=
  policy.canReadPathWithCwd host.toHost path.display cwd = false ∧
  ∃ before writableRoot after gitdir,
    sortedWritableRoots host policy cwd = before ++ writableRoot :: after ∧
    BindsGitdir host policy cwd writableRoot.root gitdir ∧
    gitdir.components <+: path.components ∧
    transientEmptyMetadataPath host gitdir = none ∧
    (∀ later ∈ writableRoot :: after, ¬ later.root.components <+: path.components) ∧
    ∀ later ∈ after, ∀ other, BindsGitdir host policy cwd later.root other →
      ¬ other.components <+: path.components

theorem mem_sortedWritableRoots {writableRoot : WritableRoot} :
    writableRoot ∈ sortedWritableRoots host policy cwd ↔
      writableRoot ∈ boundWritableRoots host policy cwd := mem_insertionSort _

theorem pairwise_sortedWritableRoots (host : MountHost) (policy : FileSystemSandboxPolicy)
    (cwd : Str) : (sortedWritableRoots host policy cwd).Pairwise fun a b =>
      a.root.components.length ≤ b.root.components.length := by
  let r := fun a b : WritableRoot => pathDepth a.root ≤ pathDepth b.root
  have hsorted : (sortedWritableRoots host policy cwd).Pairwise r := pairwise_insertionSort r _
  exact hsorted.imp fun h => Nat.le_of_succ_le_succ h

/-- The arguments are the base, masks, a pass for each root, and masks. -/
theorem createFilesystemArgs_spec (hkind : policy.kind = .restricted) (hpaths : OnlyPaths policy)
    (hlink : host.LinkFree) (htree : IsTree host.toHost) (expandGlobs : ExpandGlobs)
    (globScanMaxDepth : Option ℕ) :
    ∃ unreadableRoots mask pass, createFilesystemArgs host policy cwd expandGlobs globScanMaxDepth =
        .ok (baseArgs host policy cwd ++
          (sortByDepth (unreadableAncestorsOfWritableRoots host policy cwd
            unreadableRoots)).flatMap mask ++
          (sortedWritableRoots host policy cwd).flatMap pass ++
          (sortByDepth (rootlessUnreadableRoots host policy cwd unreadableRoots)).flatMap mask) ∧
      (∀ path, path ∈ unreadableRoots ↔ Denied host.toHost policy cwd path) ∧
      ∀ path, host.pathExists path = true → (∀ denied : AbsolutePathBuf, view (mask denied) path =
          if denied.components <+: path.components then some .hidden else none) ∧
        ∀ writableRoot, Shows host policy cwd unreadableRoots writableRoot path
          (view (pass writableRoot) path) := by
  choose mask hmask hmaskView using
    appendUnreadableRootArgs_spec hlink htree (allowedWritePaths host policy cwd)
  let unreadableRoots := sortedUnique (policy.getUnreadableRootsWithCwd host.toHost cwd ++ [])
  choose pass hpass hshows using
    appendWritableRootArgs_spec hlink htree policy cwd unreadableRoots
  refine ⟨unreadableRoots, mask, pass, ?_, ?_, ?_⟩
  · rw [createFilesystemArgs, getUnreadableGlobs_eq_nil hpaths, expandUnreadableGlobsWithRipgrep]
    change Except.bind ((sortByDepth (unreadableAncestorsOfWritableRoots host policy cwd
      unreadableRoots)).foldlM _ (baseArgs host policy cwd)) _ = _
    rw [foldlM_append fun denied _ args => hmask denied args]
    change Except.bind ((sortedWritableRoots host policy cwd).foldlM _ _) _ = _
    rw [foldlM_append fun writableRoot _ args => hpass writableRoot args]
    change (sortByDepth (rootlessUnreadableRoots host policy cwd unreadableRoots)).foldlM _ _ = _
    rw [foldlM_append fun denied _ args => hmask denied args]
  · intro path
    rw [mem_sortedUnique, append_nil, mem_getUnreadableRoots hkind hlink]
  · intro path hexists
    exact ⟨fun denied => hmaskView denied path hexists,
      fun writableRoot => hshows writableRoot path hexists⟩

section
variable {unreadableRoots : List AbsolutePathBuf} {pass : WritableRoot → List BwrapArg}
  (hkind : policy.kind = .restricted) (hpaths : OnlyPaths policy) (hlink : host.LinkFree)
  (hunreadable : ∀ path, path ∈ unreadableRoots ↔ Denied host.toHost policy cwd path)
  (hshows : ∀ writableRoot, Shows host policy cwd unreadableRoots writableRoot path
    (view (pass writableRoot) path))
include hkind hpaths hlink

variable {writableRoot : WritableRoot}

theorem exists_granted (hmem : writableRoot ∈ sortedWritableRoots host policy cwd) :
    Granted host.toHost policy cwd writableRoot.root ∧
      writableRoot = policy.writableRootWithCwd host.toHost cwd writableRoot.root := by
  obtain ⟨root, hgranted, -, rfl⟩ :=
    (mem_boundWritableRoots hkind hlink hpaths).mp (mem_sortedWritableRoots.mp hmem)
  exact ⟨hgranted, rfl⟩
include hunreadable hshows

variable {access : MountAccess}

theorem view_pass_apart_iff (hmem : writableRoot ∈ sortedWritableRoots host policy cwd)
    (hapart : ¬ writableRoot.root.components <+: path.components) :
    view (pass writableRoot) path = some access ↔
      ∃ gitdir, BindsGitdir host policy cwd writableRoot.root gitdir ∧
        gitdir.components <+: path.components ∧ readOnlyAccess host gitdir = access := by
  have hshown := hshows writableRoot
  nth_rewrite 1 [(exists_granted hkind hpaths hlink hmem).2] at hshown
  exact shows_apart_iff hkind hpaths hlink hunreadable hshown hapart

variable {roots : List WritableRoot}

section
variable (hsub : ∀ writableRoot ∈ roots, writableRoot ∈ sortedWritableRoots host policy cwd)
  (hapart : ∀ writableRoot ∈ roots, ¬ writableRoot.root.components <+: path.components)
include hsub hapart

/-- Passes away from the path show nothing there if they put back nothing above it. -/
theorem view_passes_eq_none (hnone : ∀ writableRoot ∈ roots, ∀ gitdir,
      BindsGitdir host policy cwd writableRoot.root gitdir →
        ¬ gitdir.components <+: path.components) :
    view (roots.flatMap pass) path = none := by
  rw [view_flatMap_eq_none_iff]
  intro writableRoot hmem
  cases hview : view (pass writableRoot) path with
  | none => rfl
  | some access =>
    obtain ⟨gitdir, hbinds, hway, -⟩ := (view_pass_apart_iff hkind hpaths hlink hunreadable hshows
      (hsub _ hmem) (hapart _ hmem)).mp hview
    exact absurd hway (hnone _ hmem gitdir hbinds)

/-- What passes away from the path show there is the git directory put back last. -/
theorem exists_gitdir_of_view (hview : view (roots.flatMap pass) path = some access) :
    ∃ before writableRoot after gitdir, roots = before ++ writableRoot :: after ∧
      BindsGitdir host policy cwd writableRoot.root gitdir ∧
      gitdir.components <+: path.components ∧ readOnlyAccess host gitdir = access ∧
      ∀ later ∈ after, ∀ other, BindsGitdir host policy cwd later.root other →
        ¬ other.components <+: path.components := by
  have hiff : ∀ writableRoot ∈ roots, ∀ access, view (pass writableRoot) path = some access ↔ _ :=
    fun writableRoot hmem access => view_pass_apart_iff hkind hpaths hlink hunreadable hshows
      (hsub _ hmem) (hapart _ hmem)
  have hshown : ∃ writableRoot ∈ roots, ∃ gitdir, BindsGitdir host policy cwd writableRoot.root gitdir ∧
      gitdir.components <+: path.components := by
    obtain ⟨writableRoot, hmem, hsome⟩ := exists_of_view_flatMap hview
    obtain ⟨gitdir, hbinds, hway, -⟩ := (hiff _ hmem _).mp hsome
    exact ⟨writableRoot, hmem, gitdir, hbinds, hway⟩
  obtain ⟨before, writableRoot, after, rfl, ⟨gitdir, hbinds, hway⟩, hlast⟩ :=
    Lists.exists_last hshown
  have hafter : ∀ later ∈ after, ∀ other, BindsGitdir host policy cwd later.root other →
      ¬ other.components <+: path.components :=
    fun later hmem other hother hotherWay => hlast later hmem ⟨other, hother, hotherWay⟩
  refine ⟨before, writableRoot, after, gitdir, rfl, hbinds, hway, ?_, hafter⟩
  have hpass : view (pass writableRoot) path = some (readOnlyAccess host gitdir) :=
    (hiff writableRoot (by simp) _).mpr ⟨gitdir, hbinds, hway, rfl⟩
  have hnone : view (after.flatMap pass) path = none :=
    view_passes_eq_none hkind hpaths hlink hunreadable hshows
      (fun later hmem => hsub later (by simp [hmem]))
      (fun later hmem => hapart later (by simp [hmem])) hafter
  rw [flatMap_append, flatMap_cons, view_append, view_append, hnone, hpass, none_or] at hview
  exact some.inj hview

end

/-- A git directory put back last is what the passes show. -/
theorem view_passes_reexposed (h : Reexposed host policy cwd path) :
    view ((sortedWritableRoots host policy cwd).flatMap pass) path = some .readable := by
  obtain ⟨-, before, writableRoot, after, gitdir, hsplit, hbinds, hway, hfull, hapart, hlast⟩ := h
  have hsub : ∀ later ∈ writableRoot :: after, later ∈ sortedWritableRoots host policy cwd := by
    intro later hmem
    rw [hsplit]
    exact mem_append_right _ hmem
  have hafter : view (after.flatMap pass) path = none :=
    view_passes_eq_none hkind hpaths hlink hunreadable hshows
      (fun later hmem => hsub later (mem_cons_of_mem _ hmem))
      (fun later hmem => hapart later (mem_cons_of_mem _ hmem)) hlast
  have hpass : view (pass writableRoot) path = some .readable :=
    (view_pass_apart_iff hkind hpaths hlink hunreadable hshows (hsub _ mem_cons_self)
      (hapart _ mem_cons_self)).mpr
        ⟨gitdir, hbinds, hway, by rw [readOnlyAccess, hfull]; rfl⟩
  rw [hsplit, flatMap_append, flatMap_cons, view_append, view_append, hafter, hpass]
  rfl

variable (htree : IsTree host.toHost) (hexists : host.pathExists path = true)
include htree hexists

/-- Below a writable root the passes allow no more than the policy, unless a git directory is put
back. -/
theorem passes_within (hreexposed : ¬ Reexposed host policy cwd path)
    (hroot : ∃ writableRoot ∈ sortedWritableRoots host policy cwd,
      writableRoot.root.components <+: path.components) :
    ∃ access, view ((sortedWritableRoots host policy cwd).flatMap pass) path = some access ∧
      (access = .writable → policy.canWritePathWithCwd host.toHost path.display cwd = true) ∧
      (access ≠ .hidden → policy.canReadPathWithCwd host.toHost path.display cwd = true) := by
  obtain ⟨before, writableRoot, after, hsplit, habove, hafter⟩ := Lists.exists_last hroot
  have hsub : ∀ later ∈ writableRoot :: after, later ∈ sortedWritableRoots host policy cwd := by
    intro later hmem
    rw [hsplit]
    exact mem_append_right _ hmem
  have hview : view ((sortedWritableRoots host policy cwd).flatMap pass) path =
      (view (after.flatMap pass) path).or (view ((before ++ [writableRoot]).flatMap pass) path) := by
    rw [hsplit, ← view_append, ← flatMap_append, append_assoc, singleton_append]
  cases hlater : view (after.flatMap pass) path with
  | none =>
    -- the root decides, as it is the deepest one above the path
    have hdeepest : ∀ other, Granted host.toHost policy cwd other → host.pathExists other = true →
        other.components <+: path.components →
          other.components.length ≤ writableRoot.root.components.length := by
      intro other hgranted hother hway
      have hmem : policy.writableRootWithCwd host.toHost cwd other ∈
          sortedWritableRoots host policy cwd :=
        mem_sortedWritableRoots.mpr ((mem_boundWritableRoots hkind hlink hpaths).mpr
          ⟨other, hgranted, hother, rfl⟩)
      have hsorted := pairwise_sortedWritableRoots host policy cwd
      rw [hsplit, pairwise_append] at hsorted
      rw [hsplit, mem_append, mem_cons] at hmem
      rcases hmem with hmem | hmem | hmem
      · exact hsorted.2.2 _ hmem writableRoot mem_cons_self
      · rw [← hmem]
        exact le_rfl
      · exact absurd hway (hafter _ hmem)
    have hshown := hshows writableRoot
    obtain ⟨access, haccess⟩ := ne_none_iff_exists'.mp (hshown.bound habove)
    obtain ⟨hgranted, heq⟩ := exists_granted hkind hpaths hlink (hsub _ mem_cons_self)
    nth_rewrite 1 [heq] at hshown
    refine ⟨access, ?_, ?_, ?_⟩
    · rw [hview, hlater, none_or, flatMap_append, flatMap_singleton, view_append, haccess, some_or]
    · intro hwritable
      exact canWrite_of_shows hkind hpaths hlink htree hexists hgranted hshown habove hdeepest
        (haccess.trans (congrArg some hwritable))
    · intro hhidden
      apply canRead_of_shows hkind hunreadable hgranted hshown habove
      rw [haccess]
      exact fun h => hhidden (some.inj h)
  | some access =>
    -- a later pass shows something, which must be a git directory that it puts back
    have hsubAfter : ∀ later ∈ after, later ∈ sortedWritableRoots host policy cwd :=
      fun later hmem => hsub later (mem_cons_of_mem _ hmem)
    obtain ⟨between, later, rest, gitdir, rfl, hbinds, hway, rfl, hlast⟩ :=
      exists_gitdir_of_view hkind hpaths hlink hunreadable hshows hsubAfter hafter hlater
    refine ⟨_, by rw [hview, hlater, some_or], ?_, ?_⟩
    · intro hwritable
      exact absurd hwritable (readOnlyAccess_ne_writable host gitdir)
    · intro hhidden
      by_contra hread
      apply hreexposed
      refine ⟨Bool.not_eq_true _ |>.mp hread, before ++ writableRoot :: between, later, rest, gitdir,
        by rw [hsplit, append_assoc, cons_append], hbinds, hway, ?_, ?_, hlast⟩
      · by_contra hsome
        apply hhidden
        rw [readOnlyAccess, isSome_iff_ne_none.mpr hsome]
        rfl
      · intro other hmem
        exact hafter other (mem_append_right _ hmem)

end

section
variable {mask : AbsolutePathBuf → List BwrapArg}
  (hmask : ∀ denied : AbsolutePathBuf, view (mask denied) path =
    if denied.components <+: path.components then some .hidden else none)
include hmask

variable {denied : List AbsolutePathBuf}

theorem view_masks_eq_none_iff : view (denied.flatMap mask) path = none ↔
      ∀ other ∈ denied, ¬ other.components <+: path.components := by
  rw [view_flatMap_eq_none_iff]
  simp only [hmask, ite_eq_right_iff, reduceCtorEq]

theorem view_masks_of_some {access : MountAccess}
    (h : view (denied.flatMap mask) path = some access) : access = .hidden := by
  obtain ⟨other, -, hview⟩ := exists_of_view_flatMap h
  rw [hmask] at hview
  split_ifs at hview
  exact (some.inj hview).symm

end

/-- Away from the writable roots, a path that no mask covers is exposed only by a readable root. -/
theorem canRead_of_readable (hkind : policy.kind = .restricted) (hpaths : OnlyPaths policy)
    (hlink : host.LinkFree)
    (hdenied : ∀ denied, Denied host.toHost policy cwd denied →
      ¬ denied.components <+: path.components)
    (hreadable : ∃ root ∈ policy.getReadableRootsWithCwd host.toHost cwd,
      root.components <+: path.components) :
    policy.canReadPathWithCwd host.toHost path.display cwd = true := by
  obtain ⟨root, hmem, habove⟩ := hreadable
  obtain ⟨hlisted, hroot⟩ := mem_readableRoots hkind hpaths hlink hmem
  obtain ⟨entry, hgoverns, hbelow⟩ := exists_governs_below hlisted habove
  rw [canRead_display hkind, accessAt_of_governs hgoverns]
  cases haccess : entry.access with
  | read => rfl
  | write => rfl
  | none =>
    exact absurd hgoverns.on_way
      (hdenied entry.path (denied_of_governs hbelow hroot hgoverns haccess))

/-- Away from the writable roots every denied path is masked, before or after their passes. -/
theorem not_above_of_unmasked {unreadableRoots : List AbsolutePathBuf}
    (hunreadable : ∀ path, path ∈ unreadableRoots ↔ Denied host.toHost policy cwd path)
    (hapart : ∀ subpath : AbsolutePathBuf,
      isWithinAllowedWritePaths subpath (allowedWritePaths host policy cwd) = true →
        ¬ subpath.components <+: path.components)
    (hancestors : ∀ denied ∈ unreadableAncestorsOfWritableRoots host policy cwd unreadableRoots,
      ¬ denied.components <+: path.components)
    (hrootless : ∀ denied ∈ rootlessUnreadableRoots host policy cwd unreadableRoots,
      ¬ denied.components <+: path.components)
    (denied : AbsolutePathBuf) (hdenied : Denied host.toHost policy cwd denied) :
    ¬ denied.components <+: path.components := by
  intro hway
  have hmem := (hunreadable denied).mpr hdenied
  have hwithin : isWithinAllowedWritePaths denied (allowedWritePaths host policy cwd) = false :=
    Bool.eq_false_iff.mpr fun h => hapart denied h hway
  by_cases hbelow : ((allowedWritePaths host policy cwd).any fun root => root.startsWith denied) = true
  · exact hancestors denied (mem_filter.mpr ⟨hmem, by simp [hwithin, hbelow]⟩) hway
  · refine hrootless denied (mem_filter.mpr ⟨hmem, ?_⟩) hway
    rw [Bool.not_eq_true', List.any_eq_false]
    rw [Bool.not_eq_true, List.any_eq_false] at hbelow
    rw [isWithinAllowedWritePaths, List.any_eq_false] at hwithin
    intro root hroot
    simp [hwithin root hroot, hbelow root hroot]

/-- What the mounts allow at a path is what the policy allows, unless a git directory that is put
back for another root exposes it again. -/
theorem mounts_within_policy_iff (host : MountHost) (policy : FileSystemSandboxPolicy) (cwd : Str)
    (expandGlobs : ExpandGlobs) (globScanMaxDepth : Option ℕ) (path : AbsolutePathBuf)
    (hkind : policy.kind = .restricted) (hpaths : OnlyPaths policy) (hlink : host.LinkFree)
    (htree : IsTree host.toHost) (hexists : host.pathExists path = true)
    (hdev : ¬ devPath.components <+: path.components) :
    ∃ args, createFilesystemArgs host policy cwd expandGlobs globScanMaxDepth = .ok args ∧
      (WithinPolicy host.toHost policy cwd args path ↔ ¬ Reexposed host policy cwd path) := by
  obtain ⟨unreadableRoots, mask, pass, hargs, hunreadable, hviews⟩ :=
    createFilesystemArgs_spec hkind hpaths hlink htree expandGlobs globScanMaxDepth
  obtain ⟨hmask, hshows⟩ := hviews path hexists
  refine ⟨_, hargs, ?_⟩
  by_cases hroot : ∃ writableRoot ∈ sortedWritableRoots host policy cwd,
      writableRoot.root.components <+: path.components
  · have hrootless : view ((sortByDepth (rootlessUnreadableRoots host policy cwd
        unreadableRoots)).flatMap mask) path = none := by
      rw [view_masks_eq_none_iff hmask]
      intro denied hmem hway
      obtain ⟨writableRoot, hwritable, habove⟩ := hroot
      have hallowed : writableRoot.root ∈ allowedWritePaths host policy cwd :=
        (mem_allowedWritePaths hlink).mpr ⟨_, mem_sortedWritableRoots.mp hwritable, rfl⟩
      have hnone := (mem_filter.mp (mem_sortByDepth.mp hmem)).2
      rw [Bool.not_eq_true', List.any_eq_false] at hnone
      apply hnone _ hallowed
      simp only [AbsolutePathBuf.startsWith_iff, decide_eq_true_eq]
      exact prefix_or_prefix_of_prefix habove hway
    rw [WithinPolicy, mountedAccess, ← view, view_append, view_append, hrootless]
    constructor
    · rintro ⟨-, hread⟩ hreexposed
      rw [view_passes_reexposed hkind hpaths hlink hunreadable hshows hreexposed] at hread
      have hcan := hread (by simp)
      rw [hreexposed.1] at hcan
      cases hcan
    · intro hreexposed
      obtain ⟨access, haccess, hwithin⟩ :=
        passes_within hkind hpaths hlink hunreadable hshows htree hexists hreexposed hroot
      rw [haccess]
      exact hwithin
  · have hapart : ∀ gitdir : AbsolutePathBuf,
        isWithinAllowedWritePaths gitdir (allowedWritePaths host policy cwd) = true →
          ¬ gitdir.components <+: path.components := by
      intro gitdir hwithin hway
      obtain ⟨root, hmem, hbelow⟩ := isWithin_iff.mp hwithin
      obtain ⟨writableRoot, hbound, rfl⟩ := (mem_allowedWritePaths hlink).mp hmem
      exact hroot ⟨writableRoot, mem_sortedWritableRoots.mpr hbound, hbelow.trans hway⟩
    have hnot : ¬ Reexposed host policy cwd path := by
      rintro ⟨-, before, writableRoot, after, gitdir, -, hbinds, hway, -⟩
      exact hapart gitdir hbinds.within hway
    have hpasses : view ((sortedWritableRoots host policy cwd).flatMap pass) path = none :=
      view_passes_eq_none hkind hpaths hlink hunreadable hshows (fun _ hmem => hmem)
        (fun writableRoot hmem habove => hroot ⟨writableRoot, hmem, habove⟩)
        (fun _ _ gitdir hbinds => hapart gitdir hbinds.within)
    refine iff_of_true ?_ hnot
    rw [WithinPolicy, mountedAccess, ← view, view_append, view_append, view_append, hpasses]
    cases hrootless : view ((sortByDepth (rootlessUnreadableRoots host policy cwd
        unreadableRoots)).flatMap mask) path with
    | some access => simp [view_masks_of_some hmask hrootless]
    | none =>
      cases hancestors : view ((sortByDepth (unreadableAncestorsOfWritableRoots host policy cwd
          unreadableRoots)).flatMap mask) path with
      | some access => simp [view_masks_of_some hmask hancestors]
      | none =>
        rw [view_masks_eq_none_iff hmask] at hrootless hancestors
        have hdenied := not_above_of_unmasked hunreadable hapart
          (fun denied hmem => hancestors denied (mem_sortByDepth.mpr hmem))
          (fun denied hmem => hrootless denied (mem_sortByDepth.mpr hmem))
        obtain ⟨hbase, hreadable⟩ := view_baseArgs hkind hpaths hlink cwd hdev
        cases hview : view (baseArgs host policy cwd) path with
        | none => simp
        | some access =>
          cases access with
          | writable => exact absurd hview hbase
          | hidden => simp
          | readable =>
            constructor
            · intro h
              cases h
            · intro _
              exact canRead_of_readable hkind hpaths hlink hdenied (hreadable hview)

/-- A disk on which every path exists and `/z/y/.git` points to `/w/secret/g`. -/
def worktreePaths : List (List Str) :=
  ([[], ["w"], ["w", "secret"], ["w", "secret", "f"], ["w", "secret", "g"],
    ["w", "secret", "g", "h"], ["w", "secret", "g", "x"], ["z"], ["z", "y"],
    ["z", "y", ".git"]] : List (List String)).map (·.map String.toList)

def worktreeFiles : List (List Str) :=
  ([["w", "secret", "f"], ["w", "secret", "g", "x"], ["z", "y", ".git"]] :
    List (List String)).map (·.map String.toList)

/-- A worktree at `/z/y`, with its git directory in `/w/secret`. -/
def worktreeHost : MountHost where
  home := none
  currentDir := none
  tmpdir := none
  isDir path := path.components ∈ worktreePaths ∧ path.components ∉ worktreeFiles
  isFile path := path.components ∈ worktreeFiles
  pathExists path := path.components ∈ worktreePaths
  readToString path :=
    if path.display = "/z/y/.git".toList then some "gitdir: /w/secret/g".toList else none
  symlinkMetadata path := if path.components ∈ worktreePaths then some false else none
  canonicalize path := if path.components ∈ worktreePaths then some path else none
  fileLen _ := 19
  directoryIsEmpty path := path.components = ["w", "secret", "g", "h"].map String.toList

theorem linkFree_worktreeHost : worktreeHost.LinkFree where
  symlinkMetadata path := by
    simp only [worktreeHost]
    split_ifs <;> simp
  canonicalize path canonical h := by
    simp only [worktreeHost] at h
    split_ifs at h
    exact (some.inj h).symm

theorem isTree_worktreeHost : IsTree worktreeHost.toHost where
  above path above hpath habove := by
    have hinits : ∀ path ∈ worktreePaths, ∀ above ∈ path.inits, above ∈ worktreePaths := by
      decide +kernel
    exact decide_eq_true (hinits _ (of_decide_eq_true hpath) _ ((mem_inits _ _).mpr habove))
  entry path hpath := by
    change (if path.components ∈ worktreePaths then some false else none) ≠ none
    rw [if_pos (of_decide_eq_true hpath)]
    exact some_ne_none false

def worktreePolicy : FileSystemSandboxPolicy :=
  .ofRestricted
    [writable ["w"] (by decide),
      ⟨.path ⟨["w", "secret"].map String.toList, by decide⟩, .none⟩,
      writable ["z", "y"] (by decide),
      writable ["w", "secret", "g", "h"] (by decide)]

theorem onlyPaths_worktreePolicy : OnlyPaths worktreePolicy := by
  intro entry hmem
  simp only [worktreePolicy, ofRestricted, mem_cons, not_mem_nil, or_false] at hmem
  rcases hmem with rfl | rfl | rfl | rfl <;> exact ⟨_, rfl⟩

def secretFile : AbsolutePathBuf := ⟨["w", "secret", "g", "x"].map String.toList, by decide⟩

/-- `/w/secret` is masked in the pass of `/w`, but the pass of `/z/y` puts `/w/secret/g` back. -/
theorem gitdir_exposes_denied :
    worktreePolicy.kind = .restricted ∧ OnlyPaths worktreePolicy ∧
      worktreePolicy.hasFullDiskWriteAccess = false ∧ worktreeHost.LinkFree ∧
      IsTree worktreeHost.toHost ∧
      (∀ entry ∈ worktreePolicy.resolvedEntriesWithCwd worktreeHost.toHost "/".toList,
        worktreeHost.pathExists entry.path = true) ∧ worktreeHost.pathExists secretFile = true ∧
      (createFilesystemArgs worktreeHost worktreePolicy "/".toList (fun _ _ _ => .ok [])
        none).toOption.map (mountedAccess · secretFile) = some .readable ∧
      worktreePolicy.canReadPathWithCwd worktreeHost.toHost secretFile.display "/".toList = false := by
  refine ⟨rfl, onlyPaths_worktreePolicy, ?_, linkFree_worktreeHost, isTree_worktreeHost, ?_, ?_, ?_,
    ?_⟩
  · decide +kernel
  · decide +kernel
  · decide +kernel
  · decide +kernel
  · decide +kernel

/-- Beside the git directory the mask stays. -/
def maskedFile : AbsolutePathBuf := ⟨["w", "secret", "f"].map String.toList, by decide⟩

theorem mounts_within_policy_iff_worktree :
    ¬ Reexposed worktreeHost worktreePolicy "/".toList maskedFile ∧
    ∃ args, createFilesystemArgs worktreeHost worktreePolicy "/".toList (fun _ _ _ => .ok [])
        none = .ok args ∧
      WithinPolicy worktreeHost.toHost worktreePolicy "/".toList args maskedFile := by
  have hgitdirs : ∀ root ∈ sortedWritableRoots worktreeHost worktreePolicy "/".toList,
      ∀ gitdir ∈ resolveGitdirFromFile worktreeHost.toHost
        (root.root.join worktreeHost.home ".git".toList),
      ¬ gitdir.components <+: maskedFile.components := by
    decide +kernel
  have hkept : ¬ Reexposed worktreeHost worktreePolicy "/".toList maskedFile := by
    rintro ⟨-, before, writableRoot, after, gitdir, hsorted, hbinds, hway, -⟩
    have hmem : writableRoot ∈ sortedWritableRoots worktreeHost worktreePolicy "/".toList :=
      hsorted ▸ mem_append_right before (mem_cons_self ..)
    exact hgitdirs writableRoot hmem gitdir hbinds.pointsTo.2 hway
  obtain ⟨args, hargs, hiff⟩ := mounts_within_policy_iff worktreeHost worktreePolicy "/".toList
    (fun _ _ _ => .ok []) none maskedFile rfl onlyPaths_worktreePolicy linkFree_worktreeHost
    isTree_worktreeHost (by decide +kernel) (by decide +kernel)
  exact ⟨hkept, args, hargs, hiff.mpr hkept⟩

end CodexRs.LinuxSandbox
