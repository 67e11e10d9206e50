import CodexRs.ApplyPatch.Replacements
import CodexRs.Library.Run

/-!
# Regions of the chunks of one update

An ordinary chunk lies behind all regions scheduled before. A chunk marked as the end of the file
and a pure addition ignore the line index.
-/
namespace CodexRs.ApplyPatch
open Text Splice Machine Edit List Option

/-- Some scheduled replacement covers the last line of the file. -/
def CoversLastLine (lines : List Str) (r : Replacement) : Prop :=
  0 < r.oldLen ∧ r.stop = lines.length

instance (lines : List Str) (r : Replacement) : Decidable (CoversLastLine lines r) :=
  inferInstanceAs (Decidable (_ ∧ _))

/-- No replacement reaches into the last `n` lines, except an insertion at the very end. -/
def EndFree (lines : List Str) (reps : List Replacement) (n : ℕ) : Prop :=
  ∀ r ∈ reps, r.stop + n ≤ lines.length ∨ r.oldLen = 0 ∧ r.start = lines.length

/-- No pure addition has been scheduled. -/
def NoAddition (lines : List Str) (reps : List Replacement) : Prop :=
  ∀ r ∈ reps, ¬ (r.oldLen = 0 ∧ r.start = insertionIndex lines)

/-- A region at the end of the file follows no replacement that reaches into its lines, nor one that
covers an empty last line with others a pure addition. -/
def RegionSafe (lines : List Str) (reps : List Replacement) (eof : Bool) (start : ℕ)
    (pattern : List Str) : Prop :=
  pattern ≠ [] →
    (eof = true → EndFree lines reps pattern.length) ∧
    (eof = false → lines.getLast? = some [] → start + pattern.length = lines.length →
      1 < pattern.length → NoAddition lines reps)

/-- A pure addition before an empty last line must not follow a region that covers this line. -/
def ChunkSafe (lines : List Str) (reps : List Replacement) (lineIndex : ℕ)
    (chunk : UpdateFileChunk) : Prop :=
  (chunk.oldLines = [] → lines.getLast? = some [] → ∀ r ∈ reps, ¬ CoversLastLine lines r) ∧
    (chunk.oldLines ≠ [] → ∀ place ∈ locate lines lineIndex chunk,
      RegionSafe lines reps chunk.isEndOfFile place.1 place.2.1)

/-- Every chunk is safe after the chunks before it. -/
def ChunksSafe (lines : List Str) (path : Str) : ReplacementState → List UpdateFileChunk → Prop
  | _, [] => True
  | s, chunk :: chunks =>
    (∀ lineIndex ∈ (seekContext lines path s.lineIndex chunk).toOption,
      ChunkSafe lines s.replacements lineIndex chunk) ∧
    ∀ t ∈ (scheduleChunk lines path s chunk).toOption, ChunksSafe lines path t chunks

instance (lines : List Str) (reps : List Replacement) (n : ℕ) :
    Decidable (EndFree lines reps n) :=
  inferInstanceAs (Decidable (∀ _ ∈ _, _))

instance (lines : List Str) (reps : List Replacement) : Decidable (NoAddition lines reps) :=
  inferInstanceAs (Decidable (∀ _ ∈ _, _))

instance (lines : List Str) (reps : List Replacement) (eof : Bool) (start : ℕ)
    (pattern : List Str) : Decidable (RegionSafe lines reps eof start pattern) :=
  inferInstanceAs (Decidable (_ → (_ → _) ∧ (_ → _)))

instance (lines : List Str) (reps : List Replacement) (lineIndex : ℕ) (chunk : UpdateFileChunk) :
    Decidable (ChunkSafe lines reps lineIndex chunk) :=
  inferInstanceAs (Decidable ((_ → _) ∧ (_ → _)))

instance decidableChunksSafe (lines : List Str) (path : Str) : (s : ReplacementState) →
    (chunks : List UpdateFileChunk) → Decidable (ChunksSafe lines path s chunks)
  | _, [] => .isTrue trivial
  | _, _ :: chunks =>
    have := fun t => decidableChunksSafe lines path t chunks
    inferInstanceAs (Decidable ((∀ _ ∈ _, _) ∧ ∀ _ ∈ _, _))

/-- The replacements lie in the file, behind the line index only pure additions. -/
structure Scheduled (lines : List Str) (s : ReplacementState) : Prop where
  index_le : s.lineIndex ≤ lines.length
  stop_le : ∀ r ∈ s.replacements, r.stop ≤ lines.length
  behind : ∀ r ∈ s.replacements, r.stop ≤ s.lineIndex ∨
    r.oldLen = 0 ∧ r.start = insertionIndex lines

variable {lines : List Str} {path : Str} {s t : ReplacementState} {chunk : UpdateFileChunk}
  {lineIndex : ℕ}

theorem insertionIndex_cases (lines : List Str) :
    (lines.getLast? = some [] ∧ insertionIndex lines + 1 = lines.length) ∨
      (lines.getLast? ≠ some [] ∧ insertionIndex lines = lines.length) := by
  by_cases h : lines.getLast? = some []
  · have hne : lines ≠ [] := by
      rintro rfl
      cases h
    have := length_pos_iff.mpr hne
    rw [insertionIndex, if_pos h]
    exact .inl ⟨h, by omega⟩
  · rw [insertionIndex, if_neg h]
    exact .inr ⟨h, rfl⟩

theorem seekContext_bounds (h : seekContext lines path s.lineIndex chunk = .ok lineIndex)
    (hs : s.lineIndex ≤ lines.length) : s.lineIndex ≤ lineIndex ∧ lineIndex ≤ lines.length := by
  unfold seekContext at h
  split at h
  · cases h
    exact ⟨Nat.le_refl _, hs⟩
  · rename_i context _
    cases hseek : seekSequence lines [context] s.lineIndex false with
    | none => simp [hseek] at h
    | some idx =>
      simp only [hseek, Except.ok.injEq] at h
      obtain ⟨hlen, hstart, -⟩ := seekSequence_bounds hseek (by simp)
      have := hstart rfl
      simp only [length_singleton] at hlen
      omega

/-- A chunk adds a pure addition, an insertion for a single empty line that is not found, or a
located region. -/
theorem scheduleChunk_cases (h : scheduleChunk lines path s chunk = .ok t) :
    ∃ lineIndex, seekContext lines path s.lineIndex chunk = .ok lineIndex ∧ (chunk.oldLines = [] ∧
          t = ⟨lineIndex, s.replacements ++ [⟨insertionIndex lines, 0, chunk.newLines⟩]⟩ ∨
        chunk.oldLines ≠ [] ∧ ∃ start pattern newSlice,
          locate lines lineIndex chunk = some (start, pattern, newSlice) ∧
          t = ⟨start + pattern.length, s.replacements ++ [⟨start, pattern.length, newSlice⟩]⟩) := by
  unfold scheduleChunk at h
  cases hc : seekContext lines path s.lineIndex chunk with
  | error e => simp [hc] at h
  | ok lineIndex =>
    refine ⟨lineIndex, rfl, ?_⟩
    simp only [hc] at h
    by_cases hold : chunk.oldLines = []
    · simp only [hold] at h
      cases h
      exact .inl ⟨hold, rfl⟩
    · rw [if_neg (by simpa using hold)] at h
      cases hl : locate lines lineIndex chunk with
      | none => simp [hl] at h
      | some r =>
        obtain ⟨start, pattern, newSlice⟩ := r
        simp only [hl, Except.ok.injEq] at h
        exact .inr ⟨hold, start, pattern, newSlice, rfl, h.symm⟩

variable {pattern newSlice : List Str}

theorem locate_bounds {start : ℕ}
    (h : locate lines lineIndex chunk = some (start, pattern, newSlice)) :
    pattern = [] ∧ start = lineIndex ∨ pattern ≠ [] ∧ start + pattern.length ≤ lines.length ∧
        (chunk.isEndOfFile = false → lineIndex ≤ start) ∧
        (chunk.isEndOfFile = true → start + pattern.length = lines.length) := by
  have hseek : seekSequence lines pattern lineIndex chunk.isEndOfFile = some start := by
    unfold locate at h
    cases hs : seekSequence lines chunk.oldLines lineIndex chunk.isEndOfFile with
    | some i =>
      simp only [hs] at h
      obtain ⟨rfl, rfl, -⟩ := h
      exact hs
    | none =>
      simp only [hs] at h
      split_ifs at h
      rw [map_eq_some_iff] at h
      obtain ⟨i, hi, heq⟩ := h
      cases heq
      exact hi
  by_cases hp : pattern = []
  · subst hp
    rw [seekSequence_nil, some.injEq] at hseek
    exact .inl ⟨rfl, hseek.symm⟩
  · exact .inr ⟨hp, seekSequence_bounds hseek hp⟩

theorem Scheduled.init (lines : List Str) : Scheduled lines ⟨0, []⟩ :=
  ⟨Nat.zero_le _, by simp, by simp⟩

section
variable (hs : Scheduled lines s)
include hs

theorem Scheduled.step (h : scheduleChunk lines path s chunk = .ok t) : Scheduled lines t := by
  obtain ⟨lineIndex, hcontext, ⟨-, rfl⟩ | ⟨-, start, pattern, newSlice, hlocate, rfl⟩⟩ :=
    scheduleChunk_cases h
  · obtain ⟨hle, hlen⟩ := seekContext_bounds hcontext hs.index_le
    constructor
    · exact hlen
    · intro r hr
      rcases mem_append.mp hr with hr | hr
      · exact hs.stop_le r hr
      · rw [mem_singleton.mp hr]
        rcases insertionIndex_cases lines with hi | hi <;> simp only [stop] <;> omega
    · intro r hr
      rcases mem_append.mp hr with hr | hr
      · exact (hs.behind r hr).imp (fun h => h.trans hle) id
      · exact .inr (by rw [mem_singleton.mp hr]; exact ⟨rfl, rfl⟩)
  · obtain ⟨hle, hlen⟩ := seekContext_bounds hcontext hs.index_le
    have hbounds := locate_bounds hlocate
    have hstop : start + pattern.length ≤ lines.length := by
      rcases hbounds with ⟨rfl, rfl⟩ | hb
      · simpa using hlen
      · exact hb.2.1
    have hindex : lineIndex ≤ start + pattern.length := by
      rcases hbounds with ⟨rfl, rfl⟩ | ⟨-, hb, hfound, heof⟩
      · simp
      · cases he : chunk.isEndOfFile with
        | false => exact Nat.le_add_right_of_le (hfound he)
        | true => rw [heof he]; exact hlen
    constructor
    · exact hstop
    · intro r hr
      rcases mem_append.mp hr with hr | hr
      · exact hs.stop_le r hr
      · rw [mem_singleton.mp hr]
        exact hstop
    · intro r hr
      rcases mem_append.mp hr with hr | hr
      · exact (hs.behind r hr).imp (fun h => (h.trans hle).trans hindex) id
      · exact .inl (by rw [mem_singleton.mp hr]; exact Nat.le_refl _)

/-- A pure addition stays apart from what was scheduled unless it goes before an empty last
line that is covered. -/
theorem addition_apart_iff (newLines : List Str) :
    (lines.getLast? = some [] → ∀ d ∈ s.replacements, ¬ CoversLastLine lines d) ↔
      ∀ d ∈ s.replacements, d.Apart ⟨insertionIndex lines, 0, newLines⟩ := by
  simp only [Apart, stop, CoversLastLine]
  rcases insertionIndex_cases lines with ⟨hlast, hi⟩ | ⟨hlast, hi⟩
  · simp only [hlast, true_imp_iff]
    apply forall₂_congr
    intro d hd
    have := hs.stop_le d hd
    simp only [stop] at this
    omega
  · simp only [hlast, false_imp_iff, true_iff]
    intro d hd
    have := hs.stop_le d hd
    simp only [stop] at this
    omega

theorem endFree_iff {start n : ℕ} (newSlice : List Str) (hn : 0 < n)
    (hend : start + n = lines.length) :
    EndFree lines s.replacements n ↔ ∀ d ∈ s.replacements, d.Apart ⟨start, n, newSlice⟩ := by
  apply forall₂_congr
  intro d hd
  have := hs.stop_le d hd
  simp only [Apart, stop] at this ⊢
  omega

/-- A region behind the line index meets at most a pure addition. -/
theorem noAddition_iff {start n : ℕ} (newSlice : List Str) (hn : 0 < n)
    (hstart : s.lineIndex ≤ start) (hstop : start + n ≤ lines.length) :
    (lines.getLast? = some [] → start + n = lines.length → 1 < n →
        NoAddition lines s.replacements) ↔
      ∀ d ∈ s.replacements, d.Apart ⟨start, n, newSlice⟩ := by
  constructor
  · intro hsafe d hd
    have hbehind := hs.behind d hd
    simp only [Apart, stop] at hbehind ⊢
    rcases insertionIndex_cases lines with ⟨hlast, hi⟩ | ⟨-, hi⟩
    · by_cases hcover : start + n = lines.length ∧ 1 < n
      · have := hsafe hlast hcover.1 hcover.2 d hd
        omega
      · omega
    · omega
  · intro hapart hlast hcover hlong d hd hins
    have hd' := hapart d hd
    rcases insertionIndex_cases lines with ⟨-, hi⟩ | ⟨hne, -⟩
    · simp only [Apart, stop] at hd'
      omega
    · exact hne hlast

theorem regionSafe_iff (hle : s.lineIndex ≤ lineIndex) {start : ℕ}
    (hlocate : locate lines lineIndex chunk = some (start, pattern, newSlice)) :
    RegionSafe lines s.replacements chunk.isEndOfFile start pattern ↔
      ∀ d ∈ s.replacements, d.Apart ⟨start, pattern.length, newSlice⟩ := by
  unfold RegionSafe
  rcases locate_bounds hlocate with ⟨rfl, rfl⟩ | ⟨hp, hb, hfound, heof⟩
  · simp only [ne_eq, not_true_eq_false, false_imp_iff, true_iff, length_nil]
    intro d hd
    have := hs.behind d hd
    simp only [Apart, stop] at this ⊢
    omega
  · have hpos := length_pos_iff.mpr hp
    cases he : chunk.isEndOfFile with
    | true => simpa [hp] using endFree_iff hs newSlice hpos (heof he)
    | false =>
      simpa [hp] using noAddition_iff hs newSlice hpos (hle.trans (hfound he)) hb

/-- The replacement of a chunk stays apart from those scheduled before exactly when the
chunk is safe. -/
theorem chunkSafe_iff (hcontext : seekContext lines path s.lineIndex chunk = .ok lineIndex)
    (h : scheduleChunk lines path s chunk = .ok t) :
    ∃ r, t.replacements = s.replacements ++ [r] ∧
      (ChunkSafe lines s.replacements lineIndex chunk ↔ ∀ d ∈ s.replacements, d.Apart r) := by
  obtain ⟨hle, -⟩ := seekContext_bounds hcontext hs.index_le
  obtain ⟨lineIndex', hcontext', hcases⟩ := scheduleChunk_cases h
  rw [hcontext, Except.ok.injEq] at hcontext'
  subst hcontext'
  rcases hcases with ⟨hold, rfl⟩ | ⟨hold, start, pattern, newSlice, hlocate, rfl⟩
  · refine ⟨_, rfl, ?_⟩
    rw [← addition_apart_iff hs chunk.newLines]
    simp [ChunkSafe, hold]
  · refine ⟨_, rfl, ?_⟩
    rw [← regionSafe_iff hs hle hlocate, ChunkSafe, hlocate]
    simp [hold]

end

variable {chunks : List UpdateFileChunk}

/-- A run over the chunks keeps the replacements in the file; they stay apart exactly when
every chunk is safe. -/
theorem scheduled_run
    (h : chunks.foldlM (scheduleChunk lines path) s = .ok t) (hs : Scheduled lines s) :
    Scheduled lines t ∧ (t.replacements.Pairwise Apart ↔
      s.replacements.Pairwise Apart ∧ ChunksSafe lines path s chunks) := by
  induction chunks generalizing s with
  | nil =>
    cases h
    exact ⟨hs, by simp [ChunksSafe]⟩
  | cons chunk chunks ih =>
    rw [foldlM_cons] at h
    cases hstep : scheduleChunk lines path s chunk with
    | error e =>
      rw [hstep] at h
      cases h
    | ok u =>
      rw [hstep] at h
      obtain ⟨lineIndex, hcontext, -⟩ := scheduleChunk_cases hstep
      obtain ⟨r, hr, hsafe⟩ := chunkSafe_iff hs hcontext hstep
      obtain ⟨ht, hiff⟩ := ih h (hs.step hstep)
      refine ⟨ht, hiff.trans ?_⟩
      simp only [ChunksSafe, hcontext, hstep, Except.toOption, mem_some_iff, forall_eq', hr,
        pairwise_append, pairwise_singleton, mem_singleton, forall_eq]
      tauto

/-- They share no line, neither inserts strictly inside the other, and the later `e` inserts nothing
at the start of lines that `d` replaced. -/
def Untouched (d e : Replacement) : Prop :=
  (∀ i, ¬ (d.start ≤ i ∧ i < d.stop ∧ e.start ≤ i ∧ i < e.stop)) ∧
    (d.oldLen = 0 → ¬ (e.start < d.start ∧ d.start < e.stop)) ∧
    (e.oldLen = 0 → ¬ (d.start < e.start ∧ e.start < d.stop)) ∧
    (e.oldLen = 0 → 0 < d.oldLen → e.start ≠ d.start)

theorem untouched_iff_apart (d e : Replacement) : Untouched d e ↔ d.Apart e := by
  constructor
  · rintro ⟨hdisjoint, hd, he, hstart⟩
    have hd' := hdisjoint d.start
    have he' := hdisjoint e.start
    simp only [Apart, stop] at hd' he' hd he ⊢
    omega
  · intro h
    simp only [Apart, stop] at h
    simp only [Untouched, stop]
    exact ⟨fun i => by omega, by omega, by omega, by omega⟩

/-- Their replacements leave each other's lines alone, and applying them replaces all of them at
once. -/
structure NoClobber (lines : List Str) (scheduled reps : List Replacement) : Prop where
  stop_le : ∀ r ∈ reps, r.stop ≤ lines.length
  untouched : scheduled.Pairwise Untouched
  result : applyReplacements lines reps = some (spliceFrom lines 0 reps)

/-- The replacement brings the new lines, or all but an empty last one when the old lines were found
without theirs. -/
def Brings (chunk : UpdateFileChunk) (r : Replacement) : Prop :=
  r.newItems = chunk.newLines ∨
    chunk.oldLines.getLast? = some [] ∧ r.newItems = dropEmptyEnd chunk.newLines

theorem brings_step (h : scheduleChunk lines path s chunk = .ok t) :
    ∃ r, t.replacements = s.replacements ++ [r] ∧ Brings chunk r := by
  obtain ⟨lineIndex, -, ⟨-, rfl⟩ | ⟨-, start, pattern, newSlice, hlocate, rfl⟩⟩ :=
    scheduleChunk_cases h
  · exact ⟨_, rfl, .inl rfl⟩
  · refine ⟨_, rfl, ?_⟩
    unfold locate at hlocate
    cases hs : seekSequence lines chunk.oldLines lineIndex chunk.isEndOfFile with
    | some i =>
      simp only [hs, some.injEq, Prod.mk.injEq] at hlocate
      exact .inl hlocate.2.2.symm
    | none =>
      simp only [hs] at hlocate
      split_ifs at hlocate with hblank
      rw [map_eq_some_iff] at hlocate
      obtain ⟨i, -, heq⟩ := hlocate
      cases heq
      exact .inr ⟨hblank, rfl⟩

theorem brings_run (h : chunks.foldlM (scheduleChunk lines path) s = .ok t) :
    ∃ news, t.replacements = s.replacements ++ news ∧ Forall₂ Brings chunks news := by
  induction chunks generalizing s with
  | nil =>
    cases h
    exact ⟨[], by simp, .nil⟩
  | cons chunk chunks ih =>
    rw [foldlM_cons] at h
    cases hstep : scheduleChunk lines path s chunk with
    | error e =>
      rw [hstep] at h
      cases h
    | ok u =>
      rw [hstep] at h
      obtain ⟨r, hr, hbrings⟩ := brings_step hstep
      obtain ⟨news, hnews, hrest⟩ := ih h
      refine ⟨r :: news, ?_, .cons hbrings hrest⟩
      rw [hnews, hr, append_assoc, singleton_append]

theorem computeReplacements_eq_ok {reps : List Replacement}
    (h : computeReplacements lines path chunks = .ok reps) :
    ∃ s, scheduleReplacements lines path chunks = .ok s ∧ reps = sortEdits s.replacements := by
  unfold computeReplacements at h
  cases hs : scheduleReplacements lines path chunks with
  | error e => simp [hs] at h
  | ok s =>
    simp only [hs, Except.ok.injEq] at h
    exact ⟨s, rfl, h.symm⟩

theorem noClobber_iff_apart (hs : Scheduled lines s) :
    NoClobber lines s.replacements (sortEdits s.replacements) ↔ s.replacements.Pairwise Apart := by
  have hapart : s.replacements.Pairwise Untouched ↔ s.replacements.Pairwise Apart := by
    rw [show Untouched = Apart from funext₂ fun d e => propext (untouched_iff_apart d e)]
  constructor
  · exact fun h => hapart.mp h.untouched
  · intro h
    have hstop : ∀ r ∈ sortEdits s.replacements, r.stop ≤ lines.length :=
      fun r hr => hs.stop_le r (mem_sortEdits.mp hr)
    have hbefore := sortEdits_before h
    refine ⟨hstop, hapart.mpr h, ?_⟩
    rw [applyReplacements_eq, applyBackward_eq_spliceFrom hbefore hstop]
    · exact hbefore.imp fun hde => (Nat.le_add_right _ _).trans hde
    · exact fun r hr => (Nat.le_add_right _ _).trans (hstop r hr)

/-- Each replacement brings the new lines of its chunk, and the chunks do not clobber each other
exactly when all of them are safe. -/
theorem computeReplacements_noClobber_iff {chunks : List UpdateFileChunk}
    {reps : List Replacement} (h : computeReplacements lines path chunks = .ok reps) :
    ∃ s, scheduleReplacements lines path chunks = .ok s ∧ reps = sortEdits s.replacements ∧
      List.Forall₂ Brings chunks s.replacements ∧
      (NoClobber lines s.replacements reps ↔ ChunksSafe lines path ⟨0, []⟩ chunks) := by
  obtain ⟨s, hs, rfl⟩ := computeReplacements_eq_ok h
  obtain ⟨hscheduled, hiff⟩ := scheduled_run hs (Scheduled.init lines)
  obtain ⟨news, hnews, hbrings⟩ := brings_run hs
  refine ⟨s, hs, rfl, hnews ▸ hbrings, ?_⟩
  rw [noClobber_iff_apart hscheduled, hiff]
  simp

/-- Two chunks that replace the two lines of a file, the second at its end. -/
def separateChunks : List UpdateFileChunk :=
  [⟨none, [['a']], [['b']], false⟩, ⟨none, [['c']], [['d']], true⟩]

theorem computeReplacements_noClobber_separateChunks :
    computeReplacements [['a'], ['c']] ['f'] separateChunks =
        .ok [⟨0, 1, [['b']]⟩, ⟨1, 1, [['d']]⟩] ∧
      ∃ s, scheduleReplacements [['a'], ['c']] ['f'] separateChunks = .ok s ∧
        NoClobber [['a'], ['c']] s.replacements [⟨0, 1, [['b']]⟩, ⟨1, 1, [['d']]⟩] := by
  have h : computeReplacements [['a'], ['c']] ['f'] separateChunks =
      .ok [⟨0, 1, [['b']]⟩, ⟨1, 1, [['d']]⟩] := by decide +kernel
  obtain ⟨s, hs, -, -, hiff⟩ := computeReplacements_noClobber_iff h
  exact ⟨h, s, hs, hiff.mpr (by decide +kernel)⟩

/-- Two chunks for the only line of a file, the second marked as the end of the file. -/
def clobberingChunks : List UpdateFileChunk :=
  [⟨none, [['a']], [['b']], false⟩, ⟨none, [['a']], [['c']], true⟩]

/-- Both chunks replace line zero, and the edit of the second is lost. -/
theorem computeReplacements_clobberingChunks :
    computeReplacements [['a']] ['f'] clobberingChunks = .ok [⟨0, 1, [['b']]⟩, ⟨0, 1, [['c']]⟩] ∧
      scheduleReplacements [['a']] ['f'] clobberingChunks =
        .ok ⟨1, [⟨0, 1, [['b']]⟩, ⟨0, 1, [['c']]⟩]⟩ ∧
      applyReplacements [['a']] [⟨0, 1, [['b']]⟩, ⟨0, 1, [['c']]⟩] = some [['b']] ∧
      ¬ NoClobber [['a']] [⟨0, 1, [['b']]⟩, ⟨0, 1, [['c']]⟩]
        [⟨0, 1, [['b']]⟩, ⟨0, 1, [['c']]⟩] := by
  refine ⟨by decide +kernel, by decide +kernel, by decide +kernel, ?_⟩
  intro h
  have := h.untouched
  rw [pairwise_cons] at this
  exact (this.1 ⟨0, 1, [['c']]⟩ (by simp)).1 0 (by decide)

end CodexRs.ApplyPatch
