import CodexRs.Protocol.PermissionDecisions

/-!
# The order of the entries

Only which writable entry protects a metadata name depends on the order.
-/
namespace CodexRs.Protocol
open Text Files List

namespace FileSystemSandboxPolicy
variable {policy : FileSystemSandboxPolicy} {host : Host} {cwd : Str} {target : AbsolutePathBuf}
  {entry : ResolvedFileSystemEntry} {name : Str}

/-- Two policies with the same entries, in whatever order. -/
structure SameEntries (policy policy' : FileSystemSandboxPolicy) : Prop where
  kind : policy.kind = policy'.kind
  entries : ∀ entry, entry ∈ policy.entries ↔ entry ∈ policy'.entries

theorem SameEntries.symm {policy' : FileSystemSandboxPolicy} (h : SameEntries policy policy') :
    SameEntries policy' policy where
  kind := h.kind.symm
  entries entry := (h.entries entry).symm

variable {policy' : FileSystemSandboxPolicy} (h : SameEntries policy policy')
include h

theorem SameEntries.any_eq (p : FileSystemSandboxEntry → Bool) :
    policy.entries.any p = policy'.entries.any p := by
  rw [Bool.eq_iff_iff, any_eq_true, any_eq_true]
  apply exists_congr
  intro entry
  rw [h.entries]

theorem SameEntries.mem_resolvedEntries (entry : ResolvedFileSystemEntry) :
    entry ∈ policy.resolvedEntriesWithCwd host cwd ↔
      entry ∈ policy'.resolvedEntriesWithCwd host cwd := by
  simp only [resolvedEntriesWithCwd, mem_filterMap, h.entries]

theorem SameEntries.hasFullDiskWriteAccess_eq :
    policy.hasFullDiskWriteAccess = policy'.hasFullDiskWriteAccess := by
  have hnarrow : policy.isWriteNarrowing = policy'.isWriteNarrowing := by
    funext entry
    simp only [isWriteNarrowing, hasSameTargetWriteOverride, h.any_eq]
  simp only [hasFullDiskWriteAccess, hasRootAccess, hasWriteNarrowingEntries, h.kind, hnarrow,
    h.any_eq]

theorem SameEntries.resolveAccess_eq (path : Str) :
    policy.resolveAccessWithCwd host path cwd = policy'.resolveAccessWithCwd host path cwd := by
  have hmem : ∀ entry, entry ∈ policy.resolvedEntriesWithCwd host cwd ↔
      entry ∈ policy'.resolvedEntriesWithCwd host cwd := h.mem_resolvedEntries
  simp only [resolveAccessWithCwd, h.kind, Specificity.mode_governing_congr hmem]

end FileSystemSandboxPolicy

/-- A protected name comes next both below the entry that governs the target and below a
writable entry above that. -/
def Contested (entries : List ResolvedFileSystemEntry) (target : AbsolutePathBuf) : Prop :=
  ∃ outer ∈ entries, ∃ inner, Governs entries target inner ∧
    outer.access.canWrite = true ∧ inner.access.canWrite = true ∧
    (exposedMetadataName outer target).isSome = true ∧
    (exposedMetadataName inner target).isSome = true ∧
    outer.path.components.length < inner.path.components.length

namespace FileSystemSandboxPolicy
variable {policy policy' : FileSystemSandboxPolicy} {host : Host} {cwd path : Str}
  {target : AbsolutePathBuf} {entry : ResolvedFileSystemEntry} {name : Str}

theorem SameEntries.contested (h : SameEntries policy policy')
    (hc : Contested (policy.resolvedEntriesWithCwd host cwd) target) :
    Contested (policy'.resolvedEntriesWithCwd host cwd) target := by
  obtain ⟨outer, houter, inner, hinner, hrest⟩ := hc
  exact ⟨outer, (h.mem_resolvedEntries outer).mp houter, inner,
    hinner.congr h.mem_resolvedEntries, hrest⟩

theorem SameEntries.perm {entries} (h : entries.Perm policy.entries) :
    SameEntries { policy with entries := entries } policy where
  kind := rfl
  entries _ := h.mem_iff

section
variable (hkind : policy.kind = .restricted)
  (hpath : resolveCandidatePath host path cwd = some target)
  (hfull : policy.hasFullDiskWriteAccess = false)
  (hgoverns : Governs (policy.resolvedEntriesWithCwd host cwd) target entry)
  (hwrite : entry.access.canWrite = true) (h : SameEntries policy policy')
include hkind hpath hfull hgoverns hwrite h

theorem SameEntries.canWrite_iff_of_governs : policy'.canWritePathWithCwd host path cwd = true ↔
      (firstExposing (policy'.resolvedEntriesWithCwd host cwd) target).map
        ResolvedFileSystemEntry.path ≠ some entry.path :=
  FileSystemSandboxPolicy.canWrite_iff_of_governs (h.kind ▸ hkind) hpath
    (h.hasFullDiskWriteAccess_eq ▸ hfull) (hgoverns.congr h.mem_resolvedEntries) hwrite

/-- If in one order the entry that governs does not come first, it does in none. -/
theorem SameEntries.canWrite_of_not_contested
    (hnot : ¬ Contested (policy.resolvedEntriesWithCwd host cwd) target)
    (hcan : policy.canWritePathWithCwd host path cwd = true) :
    policy'.canWritePathWithCwd host path cwd = true := by
  rw [FileSystemSandboxPolicy.canWrite_iff_of_governs hkind hpath hfull hgoverns hwrite] at hcan
  rw [h.canWrite_iff_of_governs hkind hpath hfull hgoverns hwrite]
  intro hfirst'
  obtain ⟨first', hfirst', hpath'⟩ := Option.map_eq_some_iff.mp hfirst'
  have hexposing' := find?_some hfirst'
  have hmem' := (h.mem_resolvedEntries first').mpr (mem_of_find?_eq_some hfirst')
  rw [Bool.and_eq_true] at hexposing'
  cases hfirst : firstExposing (policy.resolvedEntriesWithCwd host cwd) target with
  | none =>
    have hno := find?_eq_none.mp hfirst first' hmem'
    exact hno (by rw [hexposing'.1, hexposing'.2, Bool.and_true])
  | some first =>
    have hmem := mem_of_find?_eq_some hfirst
    have hexposing := find?_some hfirst
    rw [Bool.and_eq_true] at hexposing
    have hway := on_way_of_exposed hexposing.2
    apply hnot
    refine ⟨first, hmem, entry, hgoverns, hexposing.1, hwrite, hexposing.2, ?_, ?_⟩
    · rw [exposedMetadataName, ← hpath']
      exact hexposing'.2
    · apply lt_of_le_of_ne (hgoverns.length_le hmem hway)
      intro hlength
      apply hcan
      rw [hfirst, Option.map_some]
      congr 1
      exact AbsolutePathBuf.ext ((hgoverns.prefix_of_mem hmem hway).eq_of_length hlength)

omit h in
/-- Some order puts a given writable entry with an exposed name first. -/
theorem exists_order_first {first : ResolvedFileSystemEntry}
    (hmem : first ∈ policy.resolvedEntriesWithCwd host cwd) (hfirst : first.access.canWrite = true)
    (hexposed : (exposedMetadataName first target).isSome = true) :
    ∃ entries : List FileSystemSandboxEntry, entries.Perm policy.entries ∧
      (({ policy with entries := entries }).canWritePathWithCwd host path cwd = true ↔
        first.path ≠ entry.path) := by
  obtain ⟨raw, hraw, hresolved⟩ := mem_filterMap.mp hmem
  have hperm : (raw :: policy.entries.erase raw).Perm policy.entries := (perm_cons_erase hraw).symm
  refine ⟨raw :: policy.entries.erase raw, hperm, ?_⟩
  rw [(SameEntries.perm hperm).symm.canWrite_iff_of_governs hkind hpath hfull hgoverns hwrite,
    resolvedEntriesWithCwd, filterMap_cons, hresolved]
  simp [firstExposing, hfirst, hexposed]

end

theorem SameEntries.canWrite_eq (h : SameEntries policy policy')
    (hnot : policy'.kind = .restricted → policy'.hasFullDiskWriteAccess = false →
      ∀ target, resolveCandidatePath host path cwd = some target →
        ¬ Contested (policy'.resolvedEntriesWithCwd host cwd) target) :
    policy.canWritePathWithCwd host path cwd = policy'.canWritePathWithCwd host path cwd := by
  by_cases haccess : (policy'.resolveAccessWithCwd host path cwd).canWrite = true
  · by_cases hfull : policy'.hasFullDiskWriteAccess = true
    · simp [canWritePathWithCwd, h.resolveAccess_eq, h.hasFullDiskWriteAccess_eq, hfull]
    · rw [Bool.not_eq_true] at hfull
      have hkind' : policy'.kind = .restricted := by
        cases hk : policy'.kind with
        | restricted => rfl
        | unrestricted | externalSandbox => simp [hasFullDiskWriteAccess, hk] at hfull
      obtain ⟨target, entry, hpath, hgoverns', hwrite⟩ := governs_of_canWrite hkind' haccess
      have hnot' := hnot hkind' hfull target hpath
      have hgoverns := hgoverns'.congr h.symm.mem_resolvedEntries
      rw [Bool.eq_iff_iff]
      constructor
      · exact h.canWrite_of_not_contested (h.kind.trans hkind') hpath
          (h.hasFullDiskWriteAccess_eq.trans hfull) hgoverns hwrite
          fun hc => hnot' (h.contested hc)
      · exact h.symm.canWrite_of_not_contested hkind' hpath hfull hgoverns' hwrite hnot'
  · simp [canWritePathWithCwd, h.resolveAccess_eq, haccess]

/-- The decisions are the same in every order unless the protection of a metadata name below two
writable entries is contested. -/
theorem decisions_order_free_iff (policy : FileSystemSandboxPolicy) (host : Host) (path cwd : Str) :
    (∀ entries : List FileSystemSandboxEntry, entries.Perm policy.entries →
      ({ policy with entries := entries }).canReadPathWithCwd host path cwd =
          policy.canReadPathWithCwd host path cwd ∧
        ({ policy with entries := entries }).canWritePathWithCwd host path cwd =
          policy.canWritePathWithCwd host path cwd) ↔
    ¬ (policy.kind = .restricted ∧ policy.hasFullDiskWriteAccess = false ∧
      ∃ target, resolveCandidatePath host path cwd = some target ∧
        Contested (policy.resolvedEntriesWithCwd host cwd) target) := by
  constructor
  · rintro hsame ⟨hkind, hfull, target, hpath, outer, houter, inner, hgoverns, houterWrite,
      hinnerWrite, houterName, hinnerName, hlt⟩
    have houterFirst : policy.canWritePathWithCwd host path cwd = true := by
      obtain ⟨entries, hperm, hdecision⟩ :=
        exists_order_first hkind hpath hfull hgoverns hinnerWrite houter houterWrite houterName
      rw [← (hsame entries hperm).2, hdecision]
      intro heq
      rw [heq] at hlt
      exact lt_irrefl _ hlt
    have hinnerFirst : policy.canWritePathWithCwd host path cwd = false := by
      obtain ⟨entries, hperm, hdecision⟩ := exists_order_first hkind hpath hfull hgoverns
        hinnerWrite hgoverns.mem hinnerWrite hinnerName
      rw [← (hsame entries hperm).2, Bool.eq_false_iff, ne_eq, hdecision]
      exact fun hne => hne rfl
    rw [houterFirst] at hinnerFirst
    cases hinnerFirst
  · intro hnot entries hperm
    have hsame := SameEntries.perm hperm
    constructor
    · rw [canReadPathWithCwd, canReadPathWithCwd, hsame.resolveAccess_eq]
    · exact hsame.canWrite_eq (fun hkind hfull target hpath hc =>
        hnot ⟨hkind, hfull, target, hpath, hc⟩)

/-- A name below `/a/.git/b` is writable if `/a` comes first and denied if `/a/.git/b` does. -/
theorem decisions_depend_on_order :
    let outer : FileSystemSandboxEntry := ⟨.path ⟨["a".toList], by decide⟩, .write⟩
    let inner : FileSystemSandboxEntry :=
      ⟨.path ⟨["a".toList, ".git".toList, "b".toList], by decide⟩, .write⟩
    [outer, inner].Perm [inner, outer] ∧
      (ofRestricted [outer, inner]).canWritePathWithCwd .bare "/a/.git/b/.codex/f".toList
        "/".toList = true ∧
      (ofRestricted [inner, outer]).canWritePathWithCwd .bare "/a/.git/b/.codex/f".toList
        "/".toList = false := by
  refine ⟨Perm.swap _ _ _, ?_, ?_⟩
  · decide +kernel
  · decide +kernel

end FileSystemSandboxPolicy

end CodexRs.Protocol
