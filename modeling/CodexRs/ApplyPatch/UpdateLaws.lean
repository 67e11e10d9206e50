import CodexRs.ApplyPatch.PreviewSteps

/-!
# What an update of a file promises

The search at the end of the file, a blank last line and a move onto itself are where this fails.
-/
namespace CodexRs.ApplyPatch
open Text Files Splice Overlay List

section
variable {lines pattern : List Str} {start i : ℕ} {eof : Bool}

/-- The four comparisons, from the strictest on. -/
def levels : List (Str → Str) := [id, trimEnd, trim, normalise]

variable (f : Str → Str)

/-- The pattern stands at a position behind the start that has room for all its lines. -/
def StandsAt (lines pattern : List Str) (start i : ℕ) : Prop :=
  start ≤ i ∧ i + pattern.length ≤ lines.length ∧ matchesAt f lines pattern i = true

/-- The first place for the strictest comparison that has any. -/
def BestPlace (lines pattern : List Str) (start i : ℕ) : Prop :=
  ∃ stricter f laxer, levels = stricter ++ f :: laxer ∧ StandsAt f lines pattern start i ∧
    (∀ j, StandsAt f lines pattern start j → i ≤ j) ∧
    ∀ g ∈ stricter, ∀ j, ¬ StandsAt g lines pattern start j

def Stands (lines pattern : List Str) (start : ℕ) : Prop :=
  ∃ f ∈ levels, ∃ i, StandsAt f lines pattern start i

/-- The pattern stands at the end of the file. -/
def AtEnd (lines pattern : List Str) : Prop :=
  ∃ f ∈ levels, StandsAt f lines pattern 0 (lines.length - pattern.length)

/-- What the documentation of the search says: at the end of the file first if that is asked for,
then the best place from the start on. -/
def Promised (lines pattern : List Str) (start : ℕ) (eof : Bool) (found : Option ℕ) : Prop :=
  (eof = true → AtEnd lines pattern → found = some (lines.length - pattern.length)) ∧
    (eof = false ∨ ¬ AtEnd lines pattern → ∀ i, found = some i ↔ BestPlace lines pattern start i)

theorem seekFrom_eq_findSome? :
    seekFrom lines pattern start = levels.findSome? (seekPass · lines pattern start) := by
  simp only [seekFrom, levels, findSome?_cons]
  cases seekPass id lines pattern start <;> cases seekPass trimEnd lines pattern start <;>
    cases seekPass trim lines pattern start <;> cases seekPass normalise lines pattern start <;> rfl

section
variable (hlen : pattern.length ≤ lines.length)
include hlen

theorem seekPass_eq_some : seekPass f lines pattern start = some i ↔
      StandsAt f lines pattern start i ∧ ∀ j, StandsAt f lines pattern start j → i ≤ j := by
  rw [seekPass, find?_range'_eq_some, mem_range'_1]
  constructor
  · rintro ⟨hmatch, hi, hfirst⟩
    refine ⟨⟨hi.1, by omega, hmatch⟩, fun j hj => ?_⟩
    by_contra hlt
    have hnot := hfirst j hj.1 (by omega)
    rw [hj.2.2] at hnot
    cases hnot
  · rintro ⟨⟨hstart, hroom, hmatch⟩, hfirst⟩
    refine ⟨hmatch, by omega, fun j hj hlt => ?_⟩
    by_contra hnot
    have := hfirst j ⟨hj, by omega, by simpa using hnot⟩
    omega

theorem seekPass_eq_none :
    seekPass f lines pattern start = none ↔ ∀ j, ¬ StandsAt f lines pattern start j := by
  rw [seekPass, find?_eq_none]
  simp only [mem_range'_1]
  unfold StandsAt
  constructor
  · intro h j hj
    exact h j (by omega) hj.2.2
  · intro h j hj hmatch
    exact h j ⟨hj.1, by omega, hmatch⟩

theorem seekFrom_eq_some :
    seekFrom lines pattern start = some i ↔ BestPlace lines pattern start i := by
  rw [seekFrom_eq_findSome?, findSome?_eq_some_iff]
  unfold BestPlace
  simp only [seekPass_eq_some _ hlen, seekPass_eq_none _ hlen, and_assoc]

theorem seekFrom_eq_none : seekFrom lines pattern start = none ↔ ¬ Stands lines pattern start := by
  rw [seekFrom_eq_findSome?, findSome?_eq_none_iff]
  simp only [seekPass_eq_none _ hlen, Stands, not_exists, not_and]

end

/-- There is a best place as soon as there is any. -/
theorem exists_bestPlace_iff : (∃ i, BestPlace lines pattern start i) ↔ Stands lines pattern start := by
  constructor
  · rintro ⟨i, stricter, f, laxer, hlevels, hi, -⟩
    exact ⟨f, by rw [hlevels]; simp, i, hi⟩
  · rintro ⟨f, hf, i, hi⟩
    have hlen : pattern.length ≤ lines.length := (Nat.le_add_left _ _).trans hi.2.1
    have hsome : seekFrom lines pattern start ≠ none :=
      fun hnone => (seekFrom_eq_none hlen).mp hnone ⟨f, hf, i, hi⟩
    obtain ⟨j, hj⟩ := Option.ne_none_iff_exists'.mp hsome
    exact ⟨j, (seekFrom_eq_some hlen).mp hj⟩

theorem not_stands_of_short (hlen : lines.length < pattern.length) :
    ¬ Stands lines pattern start := by
  rintro ⟨f, -, i, -, hroom, -⟩
  omega

/-- At the end of the file there is only one position. -/
theorem stands_end_iff (hlen : pattern.length ≤ lines.length) :
    Stands lines pattern (lines.length - pattern.length) ↔ AtEnd lines pattern := by
  constructor
  · rintro ⟨f, hf, i, hstart, hroom, hmatch⟩
    obtain rfl : i = lines.length - pattern.length := by omega
    exact ⟨f, hf, Nat.zero_le _, hroom, hmatch⟩
  · rintro ⟨f, hf, -, hroom, hmatch⟩
    exact ⟨f, hf, _, Nat.le_refl _, hroom, hmatch⟩

theorem seekSequence_eq_seekFrom (hp : pattern ≠ []) (hlen : pattern.length ≤ lines.length) :
    seekSequence lines pattern start eof =
      seekFrom lines pattern (if eof = true then lines.length - pattern.length else start) := by
  rw [seekSequence, if_neg (by simpa using hp)]
  cases eof <;> simp [hlen]

/-- The search does not fall back from the end of the file. -/
theorem seekSequence_promised_iff (hp : pattern ≠ []) :
    (∀ i, seekSequence lines pattern start eof = some i → i + pattern.length ≤ lines.length) ∧
      ((∃ i, BestPlace lines pattern start i) ↔ Stands lines pattern start) ∧
      (Promised lines pattern start eof (seekSequence lines pattern start eof) ↔
        (eof = true → AtEnd lines pattern ∨ ¬ Stands lines pattern start)) := by
  refine ⟨fun i h => (seekSequence_bounds h hp).1, exists_bestPlace_iff, ?_⟩
  unfold Promised
  by_cases hlen : pattern.length ≤ lines.length
  · rw [seekSequence_eq_seekFrom hp hlen]
    cases eof with
    | false => simpa using fun i => seekFrom_eq_some hlen
    | true =>
      simp only [if_true]
      by_cases hend : AtEnd lines pattern
      · obtain ⟨i, hi⟩ := exists_bestPlace_iff.mpr ((stands_end_iff hlen).mpr hend)
        have hfound := (seekFrom_eq_some hlen).mpr hi
        have hbounds := seekFrom_bounds hfound
        obtain rfl : i = lines.length - pattern.length := by omega
        simp [hend, hfound]
      · have hnone := (seekFrom_eq_none hlen).mpr (mt (stands_end_iff hlen).mp hend)
        rw [hnone, ← exists_bestPlace_iff]
        simp [hend]
  · have hshort : ¬ Stands lines pattern start := not_stands_of_short (by omega)
    have hnone : seekSequence lines pattern start eof = none := by
      rw [seekSequence, if_neg (by simpa using hp), if_pos (by omega)]
    have hend : ¬ AtEnd lines pattern := by
      rintro ⟨f, hf, hat⟩
      have := hat.2.1
      omega
    have hbest : ∀ i, ¬ BestPlace lines pattern start i :=
      fun i hi => hshort (exists_bestPlace_iff.mp ⟨i, hi⟩)
    simp [hnone, hend, hshort, hbest]

theorem seekSequence_promised_secondLine :
    Promised [['a'], ['b']] [['b']] 0 true (seekSequence [['a'], ['b']] [['b']] 0 true) :=
  (seekSequence_promised_iff (by simp)).2.2.mpr fun _ =>
    .inl ⟨id, by simp [levels], by simp [StandsAt, matchesAt]⟩

/-- A pattern that stands in the file, but not at its end, is not found there. -/
theorem seekSequence_no_fallback :
    seekSequence [['a'], ['b']] [['a']] 0 true = none ∧
      BestPlace [['a'], ['b']] [['a']] 0 0 ∧ ¬ AtEnd [['a'], ['b']] [['a']] := by
  refine ⟨by decide +kernel, (seekFrom_eq_some (by decide)).mp (by decide +kernel), ?_⟩
  rw [← stands_end_iff (by decide), ← seekFrom_eq_none (by decide)]
  decide +kernel

end

section
variable {lines : List Str} {reps : List Replacement}

theorem sorted_sortEdits (reps : List Replacement) :
    (sortEdits reps).Pairwise fun d e => d.start ≤ e.start :=
  pairwise_insertionSort _ reps

theorem before_of_sorted (hsorted : reps.Pairwise fun d e => d.start ≤ e.start)
    (huntouched : reps.Pairwise Untouched) : reps.Pairwise Edit.Before := by
  apply hsorted.imp₂ _ huntouched
  intro d e hde hun
  rcases (untouched_iff_apart d e).mp hun with h | h
  · exact h
  · omega

/-- Replacements from the back to the front are all made at once, from the left to the right. -/
theorem applyReplacements_simultaneous (hsorted : reps.Pairwise fun d e => d.start ≤ e.start)
    (hbounds : ∀ r ∈ reps, r.stop ≤ lines.length) (huntouched : reps.Pairwise Untouched) :
    applyReplacements lines reps = some (spliceFrom lines 0 reps) := by
  have hlen : ∀ r ∈ reps, r.start ≤ lines.length :=
    fun r hr => (Nat.le_add_right _ _).trans (hbounds r hr)
  rw [applyReplacements_eq hsorted hlen,
    applyBackward_eq_spliceFrom (before_of_sorted hsorted huntouched) hbounds]

/-- Two insertions before the line that is replaced. -/
theorem applyReplacements_simultaneous_insertions :
    applyReplacements [['a']] [⟨0, 0, [['x']]⟩, ⟨0, 0, [['y']]⟩, ⟨0, 1, [['b']]⟩] =
        some (spliceFrom [['a']] 0 [⟨0, 0, [['x']]⟩, ⟨0, 0, [['y']]⟩, ⟨0, 1, [['b']]⟩]) ∧
      spliceFrom [['a']] 0 [⟨0, 0, [['x']]⟩, ⟨0, 0, [['y']]⟩, ⟨0, 1, [['b']]⟩] =
        [['x'], ['y'], ['b']] := by
  refine ⟨applyReplacements_simultaneous (by decide) (by decide) ?_, by decide⟩
  simp only [pairwise_cons, Pairwise.nil, untouched_iff_apart]
  decide

/-- An insertion that is listed behind a replaced line at the same place is removed in its place.
-/
theorem applyReplacements_insertion_behind :
    [(⟨0, 1, [['b']]⟩ : Replacement), ⟨0, 0, [['y']]⟩].Pairwise (fun d e => d.start ≤ e.start) ∧
      (∀ i, ¬ (0 ≤ i ∧ i < 0 + 1 ∧ 0 ≤ i ∧ i < 0 + 0)) ∧
      applyReplacements [['a']] [⟨0, 1, [['b']]⟩, ⟨0, 0, [['y']]⟩] = some [['b'], ['a']] := by
  refine ⟨by decide, ?_, by decide⟩
  omega

end

section
variable {σ : Type*} {fs : ExecutorFileSystem σ} {path : AbsolutePathBuf}
  {chunks : List UpdateFileChunk} {s : σ} {applied : AppliedPatch}

/-- The lines of a text, without the empty one behind a final line feed. -/
def fileLines (text : Str) : List Str := dropEmptyEnd (text.splitOn '\n')

variable (lines : List Str)

/-- The text of lines that each end in a line feed. -/
def terminated : Str := lines.flatMap (· ++ ['\n'])

theorem joinLines_concat_nil : joinLines (lines ++ [[]]) = terminated lines := by
  induction lines with
  | nil => rfl
  | cons l lines ih =>
    rw [joinLines_cons_concat, ih]
    simp [terminated]

theorem terminated_fileLines {text : Str} (h : text = [] ∨ text.getLast? = some '\n') :
    terminated (fileLines text) = text := by
  obtain ⟨ls, last, rfl, hls⟩ := exists_joinLines text
  rw [fileLines, splitOn_joinLines _ (by simp) hls]
  have hlast : last = [] := by
    by_contra hne
    have hend : (joinLines (ls ++ [last])).getLast? = last.getLast? := by
      clear h hls
      induction ls with
      | nil => rfl
      | cons l ls ih =>
        rw [joinLines_cons_concat, getLast?_append, getLast?_cons, ih]
        cases hlast : last.getLast? with
        | none => exact absurd (getLast?_eq_none_iff.mp hlast) hne
        | some c => rfl
    rcases h with h | h
    · rw [h] at hend
      exact hne (getLast?_eq_none_iff.mp hend.symm)
    · rw [hend] at h
      exact hls last (by simp) (mem_of_getLast? h)
  subst hlast
  rw [dropEmptyEnd, if_pos (by simp), dropLast_concat, joinLines_concat_nil]

/-- The text is that of the lines exactly if the last of them is not empty: no line feed is added
behind an empty one. -/
theorem joinLines_eq_terminated_iff :
    joinLines (if lines.getLast? = some [] then lines else lines ++ [[]]) = terminated lines ↔
      lines.getLast? ≠ some [] := by
  split_ifs with h
  · obtain ⟨init, rfl⟩ := getLast?_eq_some_iff.mp h
    rw [joinLines_concat_nil]
    simp [terminated]
  · exact iff_of_true (joinLines_concat_nil lines) h

/-- The lines behind a new text: those of the file with the replacements made. -/
theorem newText_eq_ok {original path new : Str} (h : newText original path chunks = .ok new) :
    ∃ s newLines, scheduleReplacements (fileLines original) path chunks = .ok s ∧
      applyReplacements (fileLines original) (sortEdits s.replacements) = some newLines ∧
      new = joinLines (if newLines.getLast? = some [] then newLines else newLines ++ [[]]) := by
  have hlines : dropEmptyEnd (original.splitOn '\n') = fileLines original := rfl
  cases hreps : computeReplacements (fileLines original) path chunks with
  | error message => simp [newText, hlines, hreps] at h
  | ok reps =>
    obtain ⟨t, ht, rfl⟩ := computeReplacements_eq_ok hreps
    have hscheduled := (scheduled_run ht (Scheduled.init _)).1
    have happly := applyReplacements_eq (sorted_sortEdits t.replacements) fun r hr =>
      (Nat.le_add_right _ _).trans (hscheduled.stop_le r (mem_sortEdits.mp hr))
    simp only [newText, hlines, hreps, happly, Except.ok.injEq] at h
    exact ⟨t, _, ht, happly, h.symm⟩

/-- Upwards from the end of the file, past the lines that are replaced by nothing, the first line
that is kept or put in is blank. -/
def EndsBlank (lines : List Str) (path : Str) (chunks : List UpdateFileChunk) : Prop :=
  ∃ t ∈ (scheduleReplacements lines path chunks).toOption,
    lastItem lines (sortEdits t.replacements).reverse = some []

instance (lines : List Str) (path : Str) (chunks : List UpdateFileChunk) :
    Decidable (EndsBlank lines path chunks) :=
  inferInstanceAs (Decidable (∃ _ ∈ _, _))

/-- The new text is that of the lines with all the replacements made at once exactly when the chunks
are safe and what they leave does not end in a blank line. -/
theorem newContents_spliced_iff (h : deriveNewContentsFromChunks fs path chunks s = .ok applied)
    (hend : applied.originalContents = [] ∨ applied.originalContents.getLast? = some '\n') :
    terminated (fileLines applied.originalContents) = applied.originalContents ∧ ∃ t,
        scheduleReplacements (fileLines applied.originalContents) path.display chunks = .ok t ∧
        (NoClobber (fileLines applied.originalContents) t.replacements
            (sortEdits t.replacements) ∧
          applied.newContents = terminated (spliceFrom (fileLines applied.originalContents) 0
            (sortEdits t.replacements)) ↔
          ChunksSafe (fileLines applied.originalContents) path.display ⟨0, []⟩ chunks ∧
            ¬ EndsBlank (fileLines applied.originalContents) path.display chunks) := by
  refine ⟨terminated_fileLines hend, ?_⟩
  unfold deriveNewContentsFromChunks at h
  cases hread : fs.readFileText path s with
  | error e => simp [hread] at h
  | ok original =>
    cases hnew : newText original path.display chunks with
    | error message => simp [hread, hnew] at h
    | ok new =>
      simp only [hread, hnew, Except.ok.injEq] at h
      subst h
      obtain ⟨t, newLines, ht, happly, rfl⟩ := newText_eq_ok hnew
      obtain ⟨hscheduled, hsafe⟩ := scheduled_run ht (Scheduled.init _)
      refine ⟨t, ht, ?_⟩
      have hclobber : NoClobber (fileLines original) t.replacements (sortEdits t.replacements) ↔
          ChunksSafe (fileLines original) path.display ⟨0, []⟩ chunks := by
        rw [noClobber_iff_apart hscheduled, hsafe]
        simp
      rw [hclobber]
      apply and_congr_right
      intro hchunks
      have hresult := (hclobber.mpr hchunks).result
      have hapart := (noClobber_iff_apart hscheduled).mp (hclobber.mpr hchunks)
      rw [happly, Option.some.injEq] at hresult
      have hblank : EndsBlank (fileLines original) path.display chunks ↔
          lastItem (fileLines original) (sortEdits t.replacements).reverse = some [] := by
        simp [EndsBlank, ht, Except.toOption]
      rw [hblank, ← getLast?_spliceFrom (sortEdits_before hapart) (hclobber.mpr hchunks).stop_le,
        ← hresult]
      exact joinLines_eq_terminated_iff newLines

/-- The blank line at the end of the file is lost with an update of the line before it. -/
theorem newText_blankEnd :
    newText "a\n\n".toList "f".toList [⟨none, [['a']], [['b']], false⟩] = .ok "b\n".toList ∧
      scheduleReplacements (fileLines "a\n\n".toList) "f".toList [⟨none, [['a']], [['b']], false⟩] =
        .ok ⟨1, [⟨0, 1, [['b']]⟩]⟩ ∧
      terminated (spliceFrom (fileLines "a\n\n".toList) 0 [⟨0, 1, [['b']]⟩]) = "b\n\n".toList := by
  decide +kernel

def updatedFile : FileMap :=
  (∅ : FileMap).insert ⟨[], forall_mem_nil NormalComponent⟩ "a\n\nc\n".toList

/-- The last line is removed, and the blank one before it replaced. -/
def plainEndChunks : List UpdateFileChunk :=
  [⟨none, [[]], [['b']], false⟩, ⟨none, [['c']], [], true⟩]

theorem newContents_spliced_plainEnd :
    ∃ applied t, deriveNewContentsFromChunks mapFileSystem ⟨[], by simp⟩ plainEndChunks updatedFile =
        .ok applied ∧
      scheduleReplacements (fileLines applied.originalContents) ['/'] plainEndChunks = .ok t ∧
      NoClobber (fileLines applied.originalContents) t.replacements (sortEdits t.replacements) ∧
      applied.newContents = terminated (spliceFrom (fileLines applied.originalContents) 0
        (sortEdits t.replacements)) := by
  have h : deriveNewContentsFromChunks mapFileSystem ⟨[], by simp⟩ plainEndChunks updatedFile =
      .ok ⟨"a\n\nc\n".toList, "a\nb\n".toList⟩ := by decide +kernel
  have hschedule : scheduleReplacements (fileLines "a\n\nc\n".toList) ['/'] plainEndChunks =
      .ok ⟨3, [⟨1, 1, [['b']]⟩, ⟨2, 1, []⟩]⟩ := by decide +kernel
  obtain ⟨-, t, ht, hiff⟩ := newContents_spliced_iff h (.inr rfl)
  cases hschedule.symm.trans ht
  exact ⟨_, _, h, ht, hiff.mpr ⟨by decide +kernel, by decide +kernel⟩⟩

end

variable {σ : Type*} {fs : ExecutorFileSystem σ} {view : σ → FileView} {home : Option Str}
  {cwd : AbsolutePathBuf} {s t : σ}

/-- A file that is moved is at its destination exactly when that is another path; nothing else
changes. -/
theorem move_keeps_file_iff (hfs : fs.Lawful view) {path dest : PathBuf}
    {chunks : List UpdateFileChunk} {affected : AffectedPaths}
    (h : applyHunksToFiles fs home cwd [.updateFile path (some dest) chunks] s = (.ok affected, t)) :
    ∃ applied, deriveNewContentsFromChunks fs (.resolvePathAgainstBase home path cwd) chunks s =
        .ok applied ∧
      (view t (.resolvePathAgainstBase home dest cwd) = some applied.newContents ↔
        AbsolutePathBuf.resolvePathAgainstBase home dest cwd ≠
          .resolvePathAgainstBase home path cwd) ∧
      ∀ other, other ≠ AbsolutePathBuf.resolvePathAgainstBase home path cwd →
        other ≠ .resolvePathAgainstBase home dest cwd → view t other = view s other := by
  have hupdate : applyUpdate fs (.resolvePathAgainstBase home path cwd)
      (some (.resolvePathAgainstBase home dest cwd)) chunks s = (.ok (), t) := by
    unfold applyHunksToFiles applyHunks at h
    simp only [isEmpty_cons, Bool.false_eq_true, if_false] at h
    rcases hhunk : applyHunk fs home cwd (.updateFile path (some dest) chunks) s with ⟨e | _, u⟩
    · simp [hhunk] at h
    · simp only [hhunk, applyHunks, Prod.mk.injEq] at h
      rw [← h.2]
      exact hhunk
  have hrun := view_applyUpdate hfs hupdate
  rw [Step.run, Step.change, bind_newText hfs] at hrun
  cases hd : deriveNewContentsFromChunks fs (.resolvePathAgainstBase home path cwd) chunks s with
  | error e => simp [hd, Except.toOption] at hrun
  | ok applied =>
    refine ⟨applied, rfl, ?_⟩
    simp only [hd, Except.toOption, Option.map_some, Option.some_inj] at hrun
    have hview : Function.update (Function.update (view s) (.resolvePathAgainstBase home dest cwd)
        (some applied.newContents)) (.resolvePathAgainstBase home path cwd) none = view t := hrun
    rw [← hview]
    constructor
    · by_cases hne : AbsolutePathBuf.resolvePathAgainstBase home dest cwd =
          .resolvePathAgainstBase home path cwd <;> simp [hne]
    · intro other hpath hdest
      simp [hpath, hdest]

/-- A file moved to another spelling of its own path. -/
def moveOntoItself : Hunk := .updateFile "a".toList (some "./a".toList)
  [⟨none, [['x']], [['y']], false⟩]

def moveAway : Hunk := .updateFile "a".toList (some "b".toList) [⟨none, [['x']], [['y']], false⟩]

def slash : AbsolutePathBuf := ⟨[], forall_mem_nil NormalComponent⟩

def oneFile : FileMap := (∅ : FileMap).insert (.join none slash "a".toList) "x\n".toList

theorem move_keeps_file_away :
    ∃ t : FileMap, (applyHunksToFiles mapFileSystem none slash [moveAway] oneFile).2 = t ∧
      FileMap.view t (.resolvePathAgainstBase none "b".toList slash) = some "y\n".toList := by
  have happly : (applyHunksToFiles mapFileSystem none slash [moveAway] oneFile).1 =
      .ok ⟨[], ["b".toList], []⟩ := by decide +kernel
  have hderive : deriveNewContentsFromChunks mapFileSystem
      (.resolvePathAgainstBase none "a".toList slash) [⟨none, [['x']], [['y']], false⟩] oneFile =
        .ok ⟨"x\n".toList, "y\n".toList⟩ := by decide +kernel
  obtain ⟨applied, hd, hview, -⟩ := move_keeps_file_iff lawful_mapFileSystem
    (Prod.ext happly rfl : applyHunksToFiles mapFileSystem none slash [moveAway] oneFile = (_, _))
  rw [hderive, Except.ok.injEq] at hd
  subst hd
  exact ⟨_, rfl, hview.mpr (by decide +kernel)⟩

/-- The move succeeds and leaves no file behind. -/
theorem move_onto_itself_loses :
    (applyHunksToFiles mapFileSystem none slash [moveOntoItself] oneFile).1 =
        .ok ⟨[], ["./a".toList], []⟩ ∧
      FileMap.view oneFile (.resolvePathAgainstBase none "./a".toList slash) = some "x\n".toList ∧
      FileMap.view (applyHunksToFiles mapFileSystem none slash [moveOntoItself] oneFile).2
        (.resolvePathAgainstBase none "./a".toList slash) = none := by
  refine ⟨by decide +kernel, by decide +kernel, by decide +kernel⟩

end CodexRs.ApplyPatch
