import CodexRs.LinuxSandbox.Bwrap
import CodexRs.Protocol.WritableRootsAgree

/-!
# What the mounts show

The pass of a root shows its masks over its read-only paths over the root.
-/
namespace CodexRs.LinuxSandbox
open Text Files Protocol FileSystemSandboxPolicy List

/-- What lies on the way to a path that exists is there. -/
structure IsTree (host : Host) : Prop where
  above : ∀ path above : AbsolutePathBuf, host.pathExists path = true →
    above.components <+: path.components → host.pathExists above = true
  entry : ∀ path, host.pathExists path = true → host.symlinkMetadata path ≠ none

section

/-- The access at a path, if a mount is at or above it. -/
def view (args : List BwrapArg) (path : AbsolutePathBuf) : Option MountAccess :=
  Layers.visible (mounts args) path.components

variable {lower upper args : List BwrapArg} {path : AbsolutePathBuf} {α : Type*}
  {out : α → List BwrapArg} {xs : List α}

theorem view_append : view (lower ++ upper) path = (view upper path).or (view lower path) := by
  rw [view, mounts, filterMap_append]
  exact Layers.visible_append

theorem view_of_mounts_eq_nil (h : mounts args = []) : view args path = none := by
  rw [view, h]
  rfl

theorem view_flatMap_eq_none_iff :
    view (xs.flatMap out) path = none ↔ ∀ x ∈ xs, view (out x) path = none := by
  induction xs with
  | nil => simp [view, mounts]
  | cons x xs ih =>
    rw [flatMap_cons, view_append, Option.or_eq_none_iff, ih, forall_mem_cons]
    exact and_comm

theorem exists_of_view_flatMap {access : MountAccess}
    (h : view (xs.flatMap out) path = some access) : ∃ x ∈ xs, view (out x) path = some access := by
  induction xs with
  | nil => simp [view, mounts] at h
  | cons x xs ih =>
    rw [flatMap_cons, view_append, Option.or_eq_some_iff] at h
    rcases h with h | ⟨-, h⟩
    · obtain ⟨y, hy, hview⟩ := ih h
      exact ⟨y, mem_cons_of_mem x hy, hview⟩
    · exact ⟨x, mem_cons_self, h⟩

/-- A loop that appends what each item gives appends it all. -/
theorem foldlM_append {f : List BwrapArg → α → Except Str (List BwrapArg)}
    (h : ∀ x ∈ xs, ∀ args, f args x = .ok (args ++ out x)) (args : List BwrapArg) :
    xs.foldlM f args = .ok (args ++ xs.flatMap out) := by
  induction xs generalizing args with
  | nil => simp [pure, Except.pure]
  | cons x xs ih =>
    rw [foldlM_cons, h x mem_cons_self]
    change xs.foldlM f (args ++ out x) = _
    rw [ih (fun y hy => h y (mem_cons_of_mem x hy)), flatMap_cons, append_assoc]

end

variable {path : AbsolutePathBuf} {paths : List AbsolutePathBuf}

theorem mem_sortByDepth : path ∈ sortByDepth paths ↔ path ∈ paths := mem_insertionSort _

theorem mem_sortedUnique : path ∈ sortedUnique paths ↔ path ∈ paths := by
  rw [sortedUnique, mem_dedup]
  exact mem_insertionSort _

theorem isWithin_iff {roots : List AbsolutePathBuf} : isWithinAllowedWritePaths path roots = true ↔
      ∃ root ∈ roots, root.components <+: path.components := by
  simp [isWithinAllowedWritePaths, AbsolutePathBuf.startsWith_iff]

section
variable {host : MountHost} (hlink : host.LinkFree)
include hlink

theorem canonicalTarget_eq_none (path : AbsolutePathBuf) :
    canonicalTargetIfSymlinkedPath host path = none := by
  have hnone : ∀ paths, firstSymlink host paths = false := by
    intro paths
    induction paths with
    | nil => rfl
    | cons current rest ih =>
      rw [firstSymlink]
      cases hmetadata : host.symlinkMetadata current with
      | none => rfl
      | some isSymlink =>
        cases isSymlink with
        | true => exact absurd hmetadata (hlink.symlinkMetadata current)
        | false => exact ih
  rw [canonicalTargetIfSymlinkedPath, hnone]
  rfl

theorem firstWritableSymlinkComponent_eq_none (path : AbsolutePathBuf)
    (allowed : List AbsolutePathBuf) :
    firstWritableSymlinkComponentInPath host path allowed = none := by
  unfold firstWritableSymlinkComponentInPath
  induction descent path with
  | nil => rfl
  | cons current rest ih =>
    rw [firstWritableSymlink]
    cases hmetadata : host.symlinkMetadata current with
    | none => rfl
    | some isSymlink =>
      cases isSymlink with
      | true => exact absurd hmetadata (hlink.symlinkMetadata current)
      | false => simpa using ih

end

section
variable (host : MountHost)

theorem appendMountTargetParentDirArgs_spec (mountTarget anchor : AbsolutePathBuf) :
    ∃ out, (∀ args, appendMountTargetParentDirArgs host args mountTarget anchor = args ++ out) ∧
      mounts out = [] := by
  unfold appendMountTargetParentDirArgs
  cases (if host.isDir mountTarget then some mountTarget else mountTarget.parent) with
  | none => exact ⟨[], fun args => (append_nil args).symm, rfl⟩
  | some dir =>
    refine ⟨_, fun args => rfl, ?_⟩
    simp [mounts, BwrapArg.mount]

theorem foldl_appendMountTargetParentDirArgs (anchor : AbsolutePathBuf)
    (targets : List AbsolutePathBuf) :
    ∃ out, (∀ args, targets.foldl
        (fun args target => appendMountTargetParentDirArgs host args target anchor) args =
          args ++ out) ∧ mounts out = [] := by
  induction targets with
  | nil => exact ⟨[], fun args => (append_nil args).symm, rfl⟩
  | cons target targets ih =>
    obtain ⟨out, hout, hmounts⟩ := ih
    obtain ⟨first, hfirst, hfirstMounts⟩ := appendMountTargetParentDirArgs_spec host target anchor
    refine ⟨first ++ out, ?_, ?_⟩
    · intro args
      rw [foldl_cons, hfirst, hout, append_assoc]
    · rw [mounts, filterMap_append]
      exact append_eq_nil_iff.mpr ⟨hfirstMounts, hmounts⟩

theorem appendMaskedParentDirArgs_spec (unreadableRoots : List AbsolutePathBuf)
    (root : AbsolutePathBuf) :
    ∃ out, (∀ args, appendMaskedParentDirArgs host unreadableRoots args root = args ++ out) ∧
      mounts out = [] := by
  unfold appendMaskedParentDirArgs
  cases (unreadableRoots.filter fun unreadableRoot =>
      root.startsWith unreadableRoot).argmax pathDepth with
  | none => exact ⟨[], fun args => (append_nil args).symm, rfl⟩
  | some maskingRoot => exact appendMountTargetParentDirArgs_spec host root maskingRoot

variable {host} (hlink : host.LinkFree) (htree : IsTree host.toHost) {path : AbsolutePathBuf}
  (allowed : List AbsolutePathBuf)

/-- What a read-only path shows: nothing if it may be left over from another sandbox. -/
def readOnlyAccess (host : MountHost) (subpath : AbsolutePathBuf) : MountAccess :=
  if (transientEmptyMetadataPath host subpath).isSome then .hidden else .readable

theorem readOnlyAccess_ne_writable (host : MountHost) (subpath : AbsolutePathBuf) :
    readOnlyAccess host subpath ≠ .writable := by
  unfold readOnlyAccess
  split_ifs <;> simp

variable {out : List BwrapArg}

theorem view_hidden {place : AbsolutePathBuf}
    (hmounts : mounts out = [⟨place.components, .hidden⟩]) :
    view out path = if place.components <+: path.components then some .hidden else none := by
  rw [view, hmounts, Layers.visible_singleton]

theorem appendMissingReadOnlySubpathArgs_spec (missing : AbsolutePathBuf) :
    ∃ out, (∀ args, appendMissingReadOnlySubpathArgs args missing = args ++ out) ∧
      mounts out = [⟨missing.components, .hidden⟩] := by
  unfold appendMissingReadOnlySubpathArgs
  cases isProtectedMetadataFile missing <;> exact ⟨_, fun args => rfl, rfl⟩

variable (unreadableRoot : AbsolutePathBuf)

variable (host) in
theorem appendExistingUnreadablePathArgs_spec :
    ∃ out, (∀ args, appendExistingUnreadablePathArgs host args allowed unreadableRoot =
        args ++ out) ∧ mounts out = [⟨unreadableRoot.components, .hidden⟩] := by
  unfold appendExistingUnreadablePathArgs
  cases host.isDir unreadableRoot with
  | false =>
    refine ⟨[.perms "000".toList, .roBindData unreadableRoot], ?_, rfl⟩
    intro args
    simp [appendEmptyFileBindDataArgs]
  | true =>
    obtain ⟨dirs, hdirs, hmounts⟩ := foldl_appendMountTargetParentDirArgs host unreadableRoot
      (sortByDepth (allowed.filter fun path =>
        path ≠ unreadableRoot ∧ path.startsWith unreadableRoot))
    simp only [if_true, hdirs, append_assoc]
    refine ⟨_, fun args => rfl, ?_⟩
    rw [mounts, filterMap_append, filterMap_append]
    change _ ++ (mounts dirs ++ _) = _
    rw [hmounts]
    rfl
include htree

/-- A mask at a missing component covers no path that exists. -/
theorem view_missing {targetPath missing : AbsolutePathBuf}
    (hmissing : findFirstNonExistentComponent host targetPath = some missing)
    (hmounts : mounts out = [⟨missing.components, .hidden⟩])
    (hexists : host.pathExists path = true) : view out path = none := by
  rw [view_hidden hmounts, if_neg]
  intro habove
  have hfound := find?_some hmissing
  rw [htree.above path missing hexists habove] at hfound
  cases hfound

/-- The first missing component is masked where it is within a writable root. -/
theorem maskMissing_spec {append : List BwrapArg → AbsolutePathBuf → List BwrapArg}
    (happend : ∀ missing, ∃ out, (∀ args, append args missing = args ++ out) ∧
      mounts out = [⟨missing.components, .hidden⟩]) (targetPath : AbsolutePathBuf) :
    ∃ out, (∀ args, (match findFirstNonExistentComponent host targetPath with
        | some missing =>
          if isWithinAllowedWritePaths missing allowed then .ok (append args missing)
          else .ok args
        | none => .ok args : Except Str (List BwrapArg)) = .ok (args ++ out)) ∧
      ∀ path, host.pathExists path = true → view out path = none := by
  cases hmissing : findFirstNonExistentComponent host targetPath with
  | none => exact ⟨[], fun args => by simp, fun _ _ => rfl⟩
  | some missing =>
    cases hwithin : isWithinAllowedWritePaths missing allowed with
    | false => exact ⟨[], fun args => by simp [hwithin], fun _ _ => rfl⟩
    | true =>
      obtain ⟨out, hout, hmounts⟩ := happend missing
      exact ⟨out, fun args => by simp [hwithin, hout], fun path hpath =>
        view_missing htree hmissing hmounts hpath⟩

variable (subpath : AbsolutePathBuf)

/-- A path is masked where it is missing and bound where it is within a writable root. -/
theorem maskOrBind_spec (within : Bool) : ∃ out, (∀ args, (if !host.pathExists subpath then
          match findFirstNonExistentComponent host subpath with
          | some firstMissingComponent =>
            if isWithinAllowedWritePaths firstMissingComponent allowed then
              .ok (appendMissingReadOnlySubpathArgs args firstMissingComponent)
            else .ok args
          | none => .ok args
        else if within then .ok (args ++ [.roBind subpath])
        else .ok args : Except Str (List BwrapArg)) = .ok (args ++ out)) ∧
      ∀ path, host.pathExists path = true → view out path =
        if subpath.components <+: path.components ∧ within = true then some .readable
        else none := by
  by_cases hexists : host.pathExists subpath = true
  · cases within with
    | false => exact ⟨[], fun args => by simp [hexists], fun path _ => by simp [view, mounts]⟩
    | true =>
      refine ⟨[.roBind subpath], fun args => by simp [hexists], ?_⟩
      intro path _
      simp only [and_true]
      exact Layers.visible_singleton _
  · obtain ⟨out, hout, hview⟩ :=
      maskMissing_spec htree allowed appendMissingReadOnlySubpathArgs_spec subpath
    refine ⟨out, fun args => by simpa [hexists] using hout args, fun path hpath => ?_⟩
    -- no path that exists is below one that does not
    rw [hview path hpath, if_neg]
    exact fun h => hexists (htree.above path subpath hpath h.1)
include hlink

theorem appendReadOnlySubpathArgs_spec :
    ∃ out, (∀ args, appendReadOnlySubpathArgs host args allowed subpath = .ok (args ++ out)) ∧
      ∀ path, host.pathExists path = true → view out path =
        if subpath.components <+: path.components ∧ isWithinAllowedWritePaths subpath allowed = true
        then some (readOnlyAccess host subpath) else none := by
  unfold appendReadOnlySubpathArgs readOnlyAccess
  rw [firstWritableSymlinkComponent_eq_none hlink]
  cases isWithinAllowedWritePaths subpath allowed with
  | false =>
    obtain ⟨out, hout, hview⟩ := maskOrBind_spec htree allowed subpath false
    refine ⟨out, ?_, ?_⟩
    · intro args
      rw [← hout args]
      cases transientEmptyMetadataPath host subpath with
      | none => rfl
      | some empty => cases empty <;> rfl
    · intro path hpath
      simpa using hview path hpath
  | true =>
    cases transientEmptyMetadataPath host subpath with
    | none => exact maskOrBind_spec htree allowed subpath true
    | some empty =>
      simp only [and_true]
      cases empty <;> exact ⟨_, fun args => rfl, fun path _ => view_hidden rfl⟩

theorem appendUnreadableRootArgs_spec :
    ∃ out, (∀ args, appendUnreadableRootArgs host args allowed unreadableRoot = .ok (args ++ out)) ∧
      ∀ path, host.pathExists path = true → view out path =
        if unreadableRoot.components <+: path.components then some .hidden else none := by
  unfold appendUnreadableRootArgs
  rw [firstWritableSymlinkComponent_eq_none hlink]
  by_cases hexists : host.pathExists unreadableRoot = true
  · obtain ⟨out, hout, hmounts⟩ := appendExistingUnreadablePathArgs_spec host allowed unreadableRoot
    exact ⟨out, fun args => by simp [hexists, hout], fun path _ => view_hidden hmounts⟩
  · obtain ⟨out, hout, hview⟩ := maskMissing_spec htree allowed
      (fun missing => ⟨[.roBindData missing], fun _ => rfl, rfl⟩) unreadableRoot
    refine ⟨out, fun args => ?_, fun path hpath => ?_⟩
    · simp only [hexists]
      exact hout args
    · rw [hview path hpath, if_neg]
      exact fun h => hexists (htree.above path unreadableRoot hpath h)

end

/-- Every entry names a path. -/
def OnlyPaths (policy : FileSystemSandboxPolicy) : Prop :=
  ∀ entry ∈ policy.entries, ∃ path, entry.path = .path path

section
variable {policy : FileSystemSandboxPolicy} (hpaths : OnlyPaths policy)
include hpaths

theorem any_special_eq_false (special : FileSystemSpecialPath)
    (predicate : FileSystemAccessMode → Bool) : (policy.entries.any fun entry =>
      decide (entry.path = .special special) && predicate entry.access) = false := by
  rw [any_eq_false]
  intro entry hmem
  obtain ⟨path, hpath⟩ := hpaths entry hmem
  simp [hpath]

theorem hasRootAccess_eq_false (predicate : FileSystemAccessMode → Bool) :
    policy.hasRootAccess predicate = false := by
  simp only [hasRootAccess, Bool.decide_and, Bool.decide_eq_true, any_special_eq_false hpaths,
    Bool.and_false]

theorem hasFullDiskWriteAccess_eq_false (hkind : policy.kind = .restricted) :
    policy.hasFullDiskWriteAccess = false := by
  simp only [hasFullDiskWriteAccess, hkind, hasRootAccess_eq_false hpaths, Bool.false_and]

theorem hasFullDiskReadAccess_eq_false (hkind : policy.kind = .restricted) :
    policy.hasFullDiskReadAccess = false := by
  simp only [hasFullDiskReadAccess, hkind, hasRootAccess_eq_false hpaths, Bool.false_and]

theorem includePlatformDefaults_eq_false : policy.includePlatformDefaults = false := by
  simp only [includePlatformDefaults, Bool.decide_and, Bool.decide_eq_true,
    any_special_eq_false hpaths, Bool.and_false]

theorem getUnreadableGlobs_eq_nil (host : Host) (cwd : Str) :
    policy.getUnreadableGlobsWithCwd host cwd = [] := by
  rw [getUnreadableGlobsWithCwd]
  split_ifs
  · rfl
  · rw [filterMap_eq_nil_iff.mpr]
    · rfl
    · intro entry hmem
      obtain ⟨path, hpath⟩ := hpaths entry (mem_of_mem_filter hmem)
      rw [hpath]

theorem missingAutoMetadata_eq_nil (host : MountHost) (cwd : Str) :
    missingAutoMetadataReadOnlyProjectRootSubpaths host policy cwd = [] := by
  rw [missingAutoMetadataReadOnlyProjectRootSubpaths, filterMap_eq_nil_iff]
  intro entry hmem
  obtain ⟨path, hpath⟩ := hpaths entry (mem_of_mem_filter hmem)
  rw [hpath]

end

section
variable {host : MountHost} {policy : FileSystemSandboxPolicy} {cwd : Str}

/-- A path with an entry that denies it; the file-system root is left out. -/
def Denied (host : Host) (policy : FileSystemSandboxPolicy) (cwd : Str) (path : AbsolutePathBuf) :
    Prop :=
  Listed (policy.resolvedEntriesWithCwd host cwd) path ∧
    accessAt (policy.resolvedEntriesWithCwd host cwd) path = .none ∧
      (AbsolutePathBuf.fromAbsolutePath host cwd).map (fun _ => AbsolutePathBuf.root) ≠ some path

/-- A path with an entry that allows to write there. -/
def Granted (host : Host) (policy : FileSystemSandboxPolicy) (cwd : Str) (path : AbsolutePathBuf) :
    Prop :=
  Listed (policy.resolvedEntriesWithCwd host cwd) path ∧
    accessAt (policy.resolvedEntriesWithCwd host cwd) path = .write

variable (hkind : policy.kind = .restricted)
include hkind

theorem canRead_display (host : Host) (path : AbsolutePathBuf) :
    policy.canReadPathWithCwd host path.display cwd =
      (accessAt (policy.resolvedEntriesWithCwd host cwd) path).canRead := by
  rw [canReadPathWithCwd, resolveAccess_eq_accessAt hkind (resolveCandidatePath_display host path cwd)]

variable (hlink : host.LinkFree)
include hlink

variable {path : AbsolutePathBuf}

theorem mem_getUnreadableRoots : path ∈ policy.getUnreadableRootsWithCwd host.toHost cwd ↔
      Denied host.toHost policy cwd path := by
  rw [getUnreadableRootsWithCwd, if_neg (not_not.mpr hkind), mem_dedupAbsolutePaths hlink]
  simp only [mem_map, mem_filter, decide_eq_true_eq, canRead_display hkind]
  constructor
  · rintro ⟨entry, ⟨⟨hmem, -⟩, hdenied, hroot⟩, rfl⟩
    refine ⟨⟨entry, hmem, rfl⟩, ?_, hroot⟩
    cases haccess : accessAt (policy.resolvedEntriesWithCwd host.toHost cwd) entry.path with
    | none => rfl
    | read => rw [haccess] at hdenied; cases hdenied
    | write => rw [haccess] at hdenied; cases hdenied
  · rintro ⟨hlisted, haccess, hroot⟩
    obtain ⟨entry, hgoverns⟩ := exists_governs_of_listed hlisted
    have hentry := path_eq_of_listed hlisted hgoverns
    subst hentry
    refine ⟨entry, ⟨⟨hgoverns.mem, ?_⟩, ?_, hroot⟩, rfl⟩
    · rw [← accessAt_of_governs hgoverns, haccess]
    · rw [haccess]
      rfl

variable (hpaths : OnlyPaths policy)
include hpaths

theorem mem_boundWritableRoots {writableRoot : WritableRoot} :
    writableRoot ∈ boundWritableRoots host policy cwd ↔
      ∃ root, Granted host.toHost policy cwd root ∧ host.pathExists root = true ∧
        policy.writableRootWithCwd host.toHost cwd root = writableRoot := by
  have hfull := hasFullDiskWriteAccess_eq_false hpaths hkind
  rw [boundWritableRoots, if_neg (by simp [hfull]), getWritableRootsWithCwd, hfull]
  simp only [Bool.false_eq_true, if_false, mem_filter, mem_map,
    mem_dedupAbsolutePaths hlink, mem_writableEntries hkind hfull]
  constructor
  · rintro ⟨⟨root, hgranted, rfl⟩, hexists⟩
    exact ⟨root, hgranted, hexists, rfl⟩
  · rintro ⟨root, hgranted, hexists, rfl⟩
    exact ⟨⟨root, hgranted, rfl⟩, hexists⟩

omit hkind hpaths in
theorem mem_allowedWritePaths : path ∈ allowedWritePaths host policy cwd ↔
      ∃ writableRoot ∈ boundWritableRoots host policy cwd, writableRoot.root = path := by
  simp only [allowedWritePaths, canonicalTarget_eq_none hlink, Option.toList_none,
    mem_flatMap, mem_singleton]
  exact exists_congr fun _ => and_congr_right fun _ => eq_comm

theorem isWithinAllowed_iff :
    isWithinAllowedWritePaths path (allowedWritePaths host policy cwd) = true ↔
      ∃ root, Granted host.toHost policy cwd root ∧ host.pathExists root = true ∧
        root.components <+: path.components := by
  rw [isWithin_iff]
  constructor
  · rintro ⟨_, hmem, hbelow⟩
    obtain ⟨writableRoot, hbound, rfl⟩ := (mem_allowedWritePaths hlink).mp hmem
    obtain ⟨root, hgranted, hexists, rfl⟩ := (mem_boundWritableRoots hkind hlink hpaths).mp hbound
    exact ⟨root, hgranted, hexists, hbelow⟩
  · rintro ⟨root, hgranted, hexists, hbelow⟩
    exact ⟨root, (mem_allowedWritePaths hlink).mpr
      ⟨_, (mem_boundWritableRoots hkind hlink hpaths).mpr ⟨root, hgranted, hexists, rfl⟩, rfl⟩,
      hbelow⟩

end

section
variable {host : MountHost} {policy : FileSystemSandboxPolicy} {cwd : Str}
  {root subpath : AbsolutePathBuf}

/-- The file `.git` of a root points to a git directory. -/
def PointsTo (host : Host) (root gitdir : AbsolutePathBuf) : Prop :=
  isGitPointerFile host (root.join host.home ".git".toList) = true ∧
    resolveGitdirFromFile host (root.join host.home ".git".toList) = some gitdir

theorem below_join {name : Str} (hname : name ∈ protectedMetadataPathNames) (home : Option Str)
    (root : AbsolutePathBuf) : root.components <+: (root.join home name).components := by
  rw [join_metadataName hname]
  exact prefix_append _ _

/-- What is read-only by default lies below the root or is where its `.git` points to. -/
theorem below_or_pointsTo {host : Host} (hlink : host.LinkFree) {protectMissing : Bool}
    (h : subpath ∈ defaultReadOnlySubpathsForWritableRoot host root protectMissing) :
    root.components <+: subpath.components ∨ PointsTo host root subpath := by
  rw [defaultReadOnlySubpathsForWritableRoot, mem_dedupAbsolutePaths hlink, mem_append,
    mem_append, mem_append] at h
  rcases h with ((h | h) | h) | h
  · split_ifs at h with hgit hpointer
    · rcases mem_append.mp h with h | h
      · exact .inr ⟨hpointer.2, Option.mem_toList.mp h⟩
      · rw [mem_singleton.mp h]
        exact .inl (below_join (by decide) _ _)
    · rw [mem_singleton.mp h]
      exact .inl (below_join (by decide) _ _)
    · cases h
  all_goals
    split_ifs at h
    · rw [mem_singleton.mp h]
      exact .inl (below_join (by decide) _ _)
    · cases h

theorem mem_default_of_pointsTo {host : Host} (hlink : host.LinkFree) (protectMissing : Bool)
    (h : PointsTo host root subpath) :
    subpath ∈ defaultReadOnlySubpathsForWritableRoot host root protectMissing := by
  obtain ⟨hpointer, hresolve⟩ := h
  have hfile : host.isFile (root.join host.home ".git".toList) = true := by
    rw [isGitPointerFile, decide_eq_true_iff] at hpointer
    exact hpointer.1
  rw [defaultReadOnlySubpathsForWritableRoot, mem_dedupAbsolutePaths hlink, mem_append,
    mem_append, mem_append]
  refine .inl (.inl (.inl ?_))
  rw [if_pos (.inr hfile), if_pos ⟨hfile, hpointer⟩, hresolve]
  exact mem_append_left _ mem_cons_self

variable {mountRoot : AbsolutePathBuf}

theorem mem_appendMetadataPathMasks {readOnlySubpaths : List AbsolutePathBuf} {names : List Str} :
    subpath ∈ appendMetadataPathMasksForWritableRoot host readOnlySubpaths root mountRoot names ↔
      subpath ∈ readOnlySubpaths ∨ ∃ name ∈ names,
        shouldLeaveMissingGitForParentRepoDiscovery host mountRoot name = false ∧
          root.join host.home name = subpath := by
  unfold appendMetadataPathMasksForWritableRoot
  induction names generalizing readOnlySubpaths with
  | nil => simp
  | cons name names ih =>
    rw [foldl_cons, ih]
    simp only [exists_mem_cons_iff, ← or_assoc]
    apply or_congr_left
    cases shouldLeaveMissingGitForParentRepoDiscovery host mountRoot name with
    | true => simp
    | false =>
      by_cases hmem : root.join host.home name ∈ readOnlySubpaths
      · simp only [if_pos hmem, true_and]
        constructor
        · exact .inl
        · rintro (h | rfl)
          · exact h
          · exact hmem
      · simp [hmem, eq_comm]

variable {unreadableRoots : List AbsolutePathBuf} (hpaths : OnlyPaths policy)
include hpaths in
theorem mem_readOnlySubpathsToBind {writableRoot : WritableRoot} :
    subpath ∈ readOnlySubpathsToBind host policy cwd unreadableRoots writableRoot mountRoot ↔
      (subpath ∈ writableRoot.readOnlySubpaths ∧ subpath ∉ unreadableRoots) ∨
        ∃ name ∈ writableRoot.protectedMetadataNames,
          shouldLeaveMissingGitForParentRepoDiscovery host mountRoot name = false ∧
            writableRoot.root.join host.home name = subpath := by
  rw [readOnlySubpathsToBind, mem_appendMetadataPathMasks, missingAutoMetadata_eq_nil hpaths]
  simp

end

variable {host : MountHost} {policy : FileSystemSandboxPolicy} {cwd : Str}
  {unreadableRoots : List AbsolutePathBuf} {writableRoot : WritableRoot} {path : AbsolutePathBuf}
  {shown : Option MountAccess}

/-- A path that the pass of a root puts back read-only, over the path that is looked at. -/
structure PutsBack (host : MountHost) (policy : FileSystemSandboxPolicy) (cwd : Str)
    (unreadableRoots : List AbsolutePathBuf) (writableRoot : WritableRoot)
    (path subpath : AbsolutePathBuf) : Prop where
  mem : subpath ∈ readOnlySubpathsToBind host policy cwd unreadableRoots writableRoot
    writableRoot.root
  within : isWithinAllowedWritePaths subpath (allowedWritePaths host policy cwd) = true
  above : subpath.components <+: path.components

/-- What the pass of a root shows at a path: masks are over read-only paths, and these are over
the root itself. -/
structure Shows (host : MountHost) (policy : FileSystemSandboxPolicy) (cwd : Str)
    (unreadableRoots : List AbsolutePathBuf) (writableRoot : WritableRoot) (path : AbsolutePathBuf)
    (shown : Option MountAccess) : Prop where
  unmasked : shown ≠ some .hidden → ∀ denied ∈ unreadableRoots,
    writableRoot.root.components <+: denied.components → ¬ denied.components <+: path.components
  writable : shown = some .writable → ∀ subpath,
    ¬ PutsBack host policy cwd unreadableRoots writableRoot path subpath
  bound : writableRoot.root.components <+: path.components → shown ≠ none
  putBack : ∀ subpath, PutsBack host policy cwd unreadableRoots writableRoot path subpath →
    shown ≠ none
  apart : ¬ writableRoot.root.components <+: path.components → ∀ access, shown = some access →
    ∃ subpath, PutsBack host policy cwd unreadableRoots writableRoot path subpath ∧
      readOnlyAccess host subpath = access

theorem view_bind (root : AbsolutePathBuf) : view [.bind root] path =
    if root.components <+: path.components then some .writable else none :=
  Layers.visible_singleton _

variable (hlink : host.LinkFree) (htree : IsTree host.toHost)
include hlink htree

theorem appendWritableRootArgs_spec (policy : FileSystemSandboxPolicy) (cwd : Str)
    (unreadableRoots : List AbsolutePathBuf) (writableRoot : WritableRoot) :
    ∃ out, (∀ args, appendWritableRootArgs host policy cwd unreadableRoots args writableRoot =
        .ok (args ++ out)) ∧
      ∀ path, host.pathExists path = true →
        Shows host policy cwd unreadableRoots writableRoot path (view out path) := by
  choose readOnly hreadOnly hreadOnlyView using
    appendReadOnlySubpathArgs_spec hlink htree (allowedWritePaths host policy cwd)
  choose mask hmask hmaskView using
    appendUnreadableRootArgs_spec hlink htree (allowedWritePaths host policy cwd)
  obtain ⟨dirs, hdirs, hdirsMounts⟩ :=
    appendMaskedParentDirArgs_spec host unreadableRoots writableRoot.root
  let subpaths := readOnlySubpathsToBind host policy cwd unreadableRoots writableRoot
    writableRoot.root
  let nested := unreadableRoots.filter fun unreadableRoot =>
    unreadableRoot.startsWith writableRoot.root
  refine ⟨dirs ++ [.bind writableRoot.root] ++ (sortByDepth subpaths).flatMap readOnly ++
    (sortByDepth nested).flatMap mask, ?_, ?_⟩
  · intro args
    unfold appendWritableRootArgs
    simp only [canonicalTarget_eq_none hlink, Option.getD_none, hdirs]
    rw [foldlM_append fun subpath _ args => hreadOnly subpath args]
    change foldlM _ _ _ = _
    rw [foldlM_append fun denied _ args => hmask denied args]
    simp only [append_assoc]
    rfl
  · intro path hpath
    have hbase : view (dirs ++ [.bind writableRoot.root]) path =
        if writableRoot.root.components <+: path.components then some .writable else none := by
      rw [view_append, view_of_mounts_eq_nil hdirsMounts, Option.or_none, view_bind]
    have hputs : ∀ subpath, PutsBack host policy cwd unreadableRoots writableRoot path subpath →
        view ((sortByDepth subpaths).flatMap readOnly) path ≠ none := by
      intro subpath hsubpath hnone
      have hview := view_flatMap_eq_none_iff.mp hnone subpath (mem_sortByDepth.mpr hsubpath.mem)
      rw [hreadOnlyView subpath path hpath, if_pos ⟨hsubpath.above, hsubpath.within⟩] at hview
      cases hview
    have hput : ∀ access, view ((sortByDepth subpaths).flatMap readOnly) path = some access →
        ∃ subpath, PutsBack host policy cwd unreadableRoots writableRoot path subpath ∧
          readOnlyAccess host subpath = access := by
      intro access haccess
      obtain ⟨subpath, hmem, hview⟩ := exists_of_view_flatMap haccess
      rw [hreadOnlyView subpath path hpath] at hview
      split_ifs at hview with habove
      exact ⟨subpath, ⟨mem_sortByDepth.mp hmem, habove.2, habove.1⟩, Option.some.inj hview⟩
    have hnested : ∀ denied ∈ nested, writableRoot.root.components <+: denied.components :=
      fun denied hmem => AbsolutePathBuf.startsWith_iff.mp (mem_filter.mp hmem).2
    rw [view_append, view_append, hbase]
    cases hmasked : view ((sortByDepth nested).flatMap mask) path with
    | some access =>
      obtain ⟨denied, hmem, hview⟩ := exists_of_view_flatMap hmasked
      rw [hmaskView denied path hpath] at hview
      split_ifs at hview with habove
      have hroot := (hnested denied (mem_sortByDepth.mp hmem)).trans habove
      obtain rfl : MountAccess.hidden = access := Option.some.inj hview
      refine ⟨fun h => absurd rfl h, ?_, ?_, ?_, fun h => absurd hroot h⟩
      · intro h
        cases h
      · intro _ h
        cases h
      · intro _ _ h
        cases h
    | none =>
      rw [Option.none_or]
      refine ⟨?_, ?_, ?_, ?_, ?_⟩
      · intro _ denied hdenied hbelow habove
        have hmem : denied ∈ nested :=
          mem_filter.mpr ⟨hdenied, AbsolutePathBuf.startsWith_iff.mpr hbelow⟩
        have hview := view_flatMap_eq_none_iff.mp hmasked denied (mem_sortByDepth.mpr hmem)
        rw [hmaskView denied path hpath, if_pos habove] at hview
        cases hview
      · intro hwritable subpath hsubpath
        cases hread : view ((sortByDepth subpaths).flatMap readOnly) path with
        | none => exact hputs subpath hsubpath hread
        | some access =>
          rw [hread, Option.some_or] at hwritable
          obtain ⟨other, -, hother⟩ := hput access hread
          exact readOnlyAccess_ne_writable host other (hother.trans (Option.some.inj hwritable))
      · intro hroot
        rw [if_pos hroot]
        cases view ((sortByDepth subpaths).flatMap readOnly) path <;> simp
      · intro subpath hsubpath hnone
        exact hputs subpath hsubpath (Option.or_eq_none_iff.mp hnone).1
      · intro hroot access haccess
        rw [if_neg hroot, Option.or_none] at haccess
        exact hput access haccess

end CodexRs.LinuxSandbox
