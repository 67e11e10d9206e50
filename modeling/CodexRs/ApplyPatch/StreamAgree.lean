import CodexRs.ApplyPatch.StreamSteps

/-!
# The streaming parser on lines that the batch parser accepts

The mode of the streaming parser follows the place of the batch parser, whatever drift there has
been.
-/
namespace CodexRs.ApplyPatch
open Text StreamingPatchParser

/-- The mode in which the streaming parser is at a place of the batch parser. -/
def Follows (s : LineState) (mode : StreamingParserMode) : Prop :=
  if s.place = .outside then
    (∀ hunk ∈ s.hunks.getLast?, hunk.place = .outside) ∧
      mode = s.hunks.getLast?.elim .startedPatch (Hunk.mode 0)
  else ∃ n, mode = .updateFile n

variable {s t : LineState} {p q : StreamingPatchParser} {line : Str} {mode : StreamingParserMode}

theorem Follows.outside (h : Follows s mode) (hp : s.place = .outside) :
    mode = .startedPatch ∨ mode = .addFile ∨ mode = .deleteFile := by
  rw [Follows, if_pos hp] at h
  obtain ⟨hlast, hmode⟩ := h
  cases hl : s.hunks.getLast? with
  | none => simp [hl] at hmode; exact .inl hmode
  | some hunk =>
    rw [hl] at hmode
    cases hunk with
    | addFile path contents => exact .inr (.inl hmode)
    | deleteFile path => exact .inr (.inr hmode)
    | updateFile path movePath chunks => cases hlast _ hl

theorem Follows.update (h : Follows s mode)
    (hp : s.place ≠ .outside) : ∃ n, mode = .updateFile n := by
  rwa [Follows, if_neg hp] at h

theorem follows_opening (hunks : List Hunk) (hunk : Hunk) (n : ℕ) :
    Follows ⟨hunks ++ [hunk], hunk.place⟩ (hunk.mode n) := by
  cases hunk <;> simp [Follows, Hunk.place, Hunk.mode]

variable {place : Place}

theorem follows_update {hunks : List Hunk} (hp : place ≠ .outside) (n : ℕ) :
    Follows ⟨hunks, place⟩ (.updateFile n) := by
  rw [Follows, if_neg hp]
  exact ⟨n, rfl⟩

theorem Place.skip_ne_outside (h : place ≠ .outside) : place.skip ≠ .outside := by
  cases place <;> simp_all [skip]

theorem startsWith_star (h : startsWith line ['*'] = true) : ∃ rest, line = '*' :: rest :=
  startsWith_iff.mp h

namespace Place
variable {place : Place}

theorem next_blank (hp : place ≠ .outside) (hb : Blank line) :
    place.next line = if place = .inChunk ∧ isDiffLine line then .inChunk else place.skip := by
  rw [next, if_neg hp, if_pos hb]

theorem next_star (hp : place ≠ .outside) (rest : Str) :
    place.next ('*' :: rest) = if '*' :: rest = eofMarker then .afterChunk
      else (headerHunk (trim ('*' :: rest))).elim .beforeChunk Hunk.place := by
  rw [next, if_neg hp, if_neg (not_blank_cons (by decide) rest), if_pos (by simp)]

theorem next_text (hp : place ≠ .outside) (hb : ¬ Blank line)
    (hs : startsWith line ['*'] = false) : place.next line = .inChunk := by
  rw [next, if_neg hp, if_neg hb, hs]
  rfl

end Place

/-- The place of the next line is determined by the lines read. -/
theorem LineStep.place_next (h : LineStep s line t) : t.place = s.place.next line := by
  cases h with
  | header hopen hh =>
    rcases hopen with hp | ⟨⟨hp, -⟩, hstar⟩
    · simp [Place.next, hp, hh]
    · obtain ⟨rest, rfl⟩ := startsWith_star hstar
      have hne : '*' :: rest ≠ eofMarker := by
        intro heq
        rw [heq] at hh
        cases hh
      rw [Place.next_star hp, if_neg hne, hh]
      rfl
  | addedLine =>
    rename_i text
    have : headerHunk (trim ('+' :: text)) = none :=
      headerHunk_trimEnd_diffLine rfl
    simp [Place.next, this]
  | move =>
    rename_i dest
    have hnone : headerHunk (trim (moveToMarker ++ dest)) = none :=
      headerHunk_trimEnd_marker (by decide) _
    refine ((Place.next_star (by simp) _).trans ?_).symm
    exact congrArg (·.elim Place.beforeChunk Hunk.place) hnone
  | skip hs =>
    obtain ⟨hp, hb, hd⟩ := hs
    rw [Place.next_blank hp hb, if_neg]
    rintro ⟨h1, h2⟩
    rw [hd h1] at h2
    cases h2
  | emptyContext hp _ => exact (Place.next_text hp (by decide) (by decide)).symm
  | context hp _ =>
    exact (Place.next_text hp (not_blank_cons (by decide) _) rfl).symm
  | firstLine hb ha =>
    exact (Place.next_text (by simp) hb (isDiffLine_start (isDiffLine_of_addLine ha))).symm
  | chunkLine ha =>
    have hd := isDiffLine_of_addLine ha
    by_cases hb : Blank line
    · rw [Place.next_blank (by simp) hb, if_pos ⟨rfl, hd⟩]
    · exact (Place.next_text (by simp) hb (isDiffLine_start hd)).symm
  | eof _ =>
    exact ((Place.next_star (by simp) eofMarker.tail).trans (if_pos rfl)).symm

@[simp] theorem setLast_mode (p : StreamingPatchParser) (hunk : Hunk) :
    (p.setLast hunk).mode = p.mode := rfl

@[simp] theorem opening_mode (p : StreamingPatchParser) (hunk : Hunk) :
    (p.opening hunk).mode = hunk.mode p.lineNumber := rfl

@[simp] theorem opening_hunks (p : StreamingPatchParser) (hunk : Hunk) :
    (p.opening hunk).hunks = p.hunks ++ [hunk] := rfl

variable {hs : List Hunk}

theorem setLast_hunks {hunk : Hunk} (hp : p.hunks = hs ++ [hunk])
    (hunk' : Hunk) : (p.setLast hunk').hunks = hs ++ [hunk'] := by
  rw [setLast, hp, List.dropLast_concat]

/-- In an update hunk, a line that is neither a header nor the end marker has one of the
effects on the last hunk. -/
theorem processLine_effect {n : ℕ} (hm : p.mode = .updateFile n)
    (hh : headerHunk (trimEnd line) = none) (he : trimEnd line ≠ endPatchMarker)
    (hq : p.processLine line = .ok q) :
    q.mode = .updateFile n ∧ ∃ movePath chunks movePath' chunks',
      UpdateEffect line movePath chunks movePath' chunks' ∧
      excess q.hunks - excess p.hunks =
        chunksExcess chunks' - textWeight movePath' - (chunksExcess chunks - textWeight movePath) := by
  rcases processLine_update_cases hm hq with ⟨h, -⟩ | ⟨hunk, h, -⟩ |
    ⟨-, -, hs, path, movePath, chunks, movePath', chunks', hp, rfl, heffect⟩
  · exact absurd h he
  · rw [hh] at h
    cases h
  · refine ⟨hm, movePath, chunks, movePath', chunks', heffect, ?_⟩
    rw [setLast_hunks hp, hp, excess_concat, excess_concat]
    simp only [Hunk.excess]
    omega

theorem trimEnd_diffLine_ne_end (h : isDiffLine line = true) : trimEnd line ≠ endPatchMarker := by
  rcases trimEnd_diffLine h with hn | ⟨c, s, hs, hc⟩
  · rw [hn]
    decide
  · rw [hs]
    rcases hc with rfl | rfl | rfl <;> simp [endPatchMarker]

/-- A line of a chunk gains the same in every update hunk. -/
theorem processLine_diffLine {n : ℕ} (hm : p.mode = .updateFile n) (h : isDiffLine line = true)
    (hq : p.processLine line = .ok q) :
    q.mode = .updateFile n ∧ excess q.hunks = excess p.hunks + lineGain line := by
  obtain ⟨hmode, movePath, chunks, movePath', chunks', heffect, hexcess⟩ :=
    processLine_effect hm (headerHunk_trimEnd_diffLine h) (trimEnd_diffLine_ne_end h) hq
  obtain ⟨rfl, ha⟩ := heffect.of_diffLine h
  rw [excess_addToLastChunk ha] at hexcess
  exact ⟨hmode, by omega⟩

/-- A blank line of an update hunk is added to a chunk, if it is accepted at all. -/
theorem processLine_blank {n : ℕ} (hm : p.mode = .updateFile n) (hb : Blank line)
    (hq : p.processLine line = .ok q) :
    q.mode = .updateFile n ∧ excess p.hunks < excess q.hunks := by
  have ht : trimEnd line = [] := trimEnd_eq_nil.mpr hb
  obtain ⟨hmode, movePath, chunks, movePath', chunks', heffect, hexcess⟩ :=
    processLine_effect hm (by rw [ht]; rfl) (by rw [ht]; decide) hq
  have hadd : movePath' = movePath ∧ addToLastChunk chunks line = some chunks' := by
    cases heffect with
    | move hl | emptyContext hl | context hl | eof hl => rw [ht] at hl; cases hl
    | chunkLine ha => exact ⟨rfl, ha⟩
  obtain ⟨rfl, ha⟩ := hadd
  have := lineGain_pos line
  rw [excess_addToLastChunk ha] at hexcess
  exact ⟨hmode, by omega⟩

/-- The excess of the streaming parser's hunks grows at least as much as that of the
batch parser's, and by more where the parsers drift. -/
def Gains (s t : LineState) (p q : StreamingPatchParser) (line : Str) : Prop :=
  excess t.hunks - excess s.hunks ≤ excess q.hunks - excess p.hunks ∧
    (s.place.Drifts line → excess t.hunks - excess s.hunks < excess q.hunks - excess p.hunks)

theorem headerHunk_moveLine (dest : Str) : headerHunk (trimEnd (moveToMarker ++ dest)) = none ∧
      trimEnd (moveToMarker ++ dest) ≠ endPatchMarker := by
  refine ⟨headerHunk_trimEnd_marker (by decide) _, ?_⟩
  intro h
  obtain ⟨w, -, hw⟩ := trimEnd_spec (moveToMarker ++ dest)
  rw [h] at hw
  cases hw

theorem headerHunk_contextLine (text : Str) :
    headerHunk (trimEnd (changeContextMarker ++ text)) = none ∧
      trimEnd (changeContextMarker ++ text) ≠ endPatchMarker := by
  rw [changeContextMarker, List.cons_append, trimEnd_cons (by decide)]
  constructor
  · apply headerHunk_eq_none
    intro c s hs
    cases hs
  · intro h
    cases h

/-- A header line opens the same hunk in both parsers and never drifts. -/
theorem LineStep.follows_header {hunk : Hunk} (hf : Follows s p.mode)
    (hopen : s.place = .outside ∨ s.Closed ∧ startsWith line ['*'] = true)
    (hh : headerHunk (trim line) = some hunk) (hq : p.processLine line = .ok q) :
    q = p.opening hunk ∧ ¬ s.place.Drifts line := by
  rcases hopen with hp | ⟨⟨hp, -⟩, hstar⟩
  · refine ⟨?_, fun hd => hd.1 hp⟩
    rcases processLine_outside_cases (hf.outside hp) hq with ⟨h, -⟩ | ⟨hunk', h, rfl⟩ | ⟨h, -⟩ <;>
      rw [h] at hh <;> cases hh
    rfl
  · obtain ⟨rest, rfl⟩ := startsWith_star hstar
    obtain ⟨n, hm⟩ := hf.update hp
    rw [trim_cons (by decide)] at hh
    constructor
    · rcases processLine_update_cases hm hq with ⟨h, -⟩ | ⟨hunk', h, rfl⟩ | ⟨h, -⟩ <;>
        rw [h] at hh <;> cases hh
      rfl
    · rintro ⟨-, ⟨hb, -⟩ | ⟨hc | hmv, -⟩⟩
      · exact not_blank_cons (by decide) _ hb
      · cases hc
      · obtain ⟨dest, hdest⟩ := startsWith_iff.mp hmv
        rw [hdest, (headerHunk_moveLine dest).1] at hh
        cases hh

theorem not_drifts_of_diffLine (h : isDiffLine line = true)
    (hb : Blank line → place = .inChunk) : ¬ place.Drifts line := by
  rintro ⟨-, ⟨hblank, hd⟩ | ⟨hm, -⟩⟩
  · rw [hd (hb hblank)] at h
    cases h
  · cases line with
    | nil => rcases hm with hm | hm <;> cases hm
    | cons c rest =>
      rcases isDiffLine_cons h with rfl | rfl | rfl <;> rcases hm with hm | hm <;> cases hm

/-- A line that is not blank and ends with no whitespace does not drift. -/
theorem not_drifts_of_trimEnd (hblank : ¬ Blank line) (h : trimEnd line = line) :
    ¬ place.Drifts line := by
  rintro ⟨-, ⟨hb, -⟩ | ⟨-, hne⟩⟩
  · exact hblank hb
  · exact hne h

theorem follows_addedLine {path contents text : Str}
    (hf : Follows ⟨hs ++ [Hunk.addFile path contents], .outside⟩ p.mode)
    (hq : p.processLine ('+' :: text) = .ok q) :
    Follows ⟨hs ++ [Hunk.addFile path (contents ++ text ++ ['\n'])], .outside⟩ q.mode ∧
      Gains ⟨hs ++ [Hunk.addFile path contents], .outside⟩
        ⟨hs ++ [Hunk.addFile path (contents ++ text ++ ['\n'])], .outside⟩ p q ('+' :: text) := by
  have hnone : headerHunk (trim ('+' :: text)) = none := by
    exact headerHunk_trimEnd_diffLine rfl
  have hend : trim ('+' :: text) ≠ endPatchMarker := by
    exact trimEnd_diffLine_ne_end rfl
  rcases processLine_outside_cases (hf.outside rfl) hq with ⟨h, -⟩ | ⟨hunk', h, -⟩ |
    ⟨-, hs', path', contents', text', hm, -, hp, rfl⟩
  · exact absurd h hend
  · rw [hnone] at h
    cases h
  · refine ⟨?_, ?_, fun hd => absurd rfl hd.1⟩
    · simp [Follows, hm, Hunk.mode, Hunk.place]
    · rw [setLast_hunks hp, hp]
      simp [Hunk.excess]

theorem follows_move {path dest : Str}
    (hf : Follows ⟨hs ++ [Hunk.updateFile path none []], .beforeChunk⟩ p.mode)
    (hq : p.processLine (moveToMarker ++ dest) = .ok q) :
    Follows ⟨hs ++ [Hunk.updateFile path (some dest) []], .beforeChunk⟩ q.mode ∧
      Gains ⟨hs ++ [Hunk.updateFile path none []], .beforeChunk⟩
        ⟨hs ++ [Hunk.updateFile path (some dest) []], .beforeChunk⟩ p q (moveToMarker ++ dest) := by
  obtain ⟨n, hm⟩ := hf.update (by simp)
  obtain ⟨hheader, hend⟩ := headerHunk_moveLine dest
  obtain ⟨hmode, movePath, chunks, movePath', chunks', heffect, hexcess⟩ :=
    processLine_effect hm hheader hend hq
  obtain ⟨dest', w, rfl, htrim, rfl, rfl, rfl⟩ := heffect.of_move rfl
  refine ⟨hmode ▸ follows_update (by simp) n, ?_, ?_⟩
  · simp only [excess_concat, Hunk.excess, textWeight, List.length_append] at hexcess ⊢
    omega
  · rintro ⟨-, ⟨hb, -⟩ | ⟨-, hne⟩⟩
    · exact absurd hb (not_blank_cons (by decide) _)
    · have hw : 0 < w.length := by
        rw [List.length_pos_iff]
        rintro rfl
        rw [List.append_nil] at hne
        rw [List.append_nil] at htrim
        exact hne htrim
      simp only [excess_concat, Hunk.excess, textWeight, List.length_append] at hexcess ⊢
      omega

theorem follows_context {path text : Str} {movePath : Option Str}
    {chunks : List UpdateFileChunk} (hplace : place ≠ .outside)
    (hf : Follows ⟨hs ++ [Hunk.updateFile path movePath chunks], place⟩ p.mode)
    (hq : p.processLine (changeContextMarker ++ text) = .ok q) :
    Follows ⟨hs ++ [Hunk.updateFile path movePath (chunks ++ [.opened (some text)])], .inChunk⟩
        q.mode ∧
      Gains ⟨hs ++ [Hunk.updateFile path movePath chunks], place⟩
        ⟨hs ++ [Hunk.updateFile path movePath (chunks ++ [.opened (some text)])], .inChunk⟩ p q
        (changeContextMarker ++ text) := by
  obtain ⟨n, hm⟩ := hf.update hplace
  obtain ⟨hheader, hend⟩ := headerHunk_contextLine text
  obtain ⟨hmode, movePath, chunks, movePath', chunks', heffect, hexcess⟩ :=
    processLine_effect hm hheader hend hq
  obtain ⟨rfl, context, rfl, hcontext⟩ := heffect.of_context rfl
  refine ⟨hmode ▸ follows_update (by simp) n, ?_, ?_⟩
  · have hle : textWeight context ≤ textWeight (some text) := by
      rcases hcontext with ⟨-, rfl⟩ | ⟨-, hlt⟩
      · exact Int.le_refl _
      · exact Int.le_of_lt hlt
    simp only [excess_concat, Hunk.excess, chunksExcess_concat, excess_opened] at hexcess ⊢
    omega
  · rintro ⟨-, ⟨hb, -⟩ | ⟨-, hne⟩⟩
    · exact absurd hb (not_blank_cons (by decide) _)
    · rcases hcontext with ⟨heq, -⟩ | ⟨-, hlt⟩
      · exact absurd heq hne
      · simp only [excess_concat, Hunk.excess, chunksExcess_concat, excess_opened] at hexcess ⊢
        omega

/-- One line: the mode still follows the place, and the excess grows. -/
theorem LineStep.follows (h : LineStep s line t) (hf : Follows s p.mode)
    (hq : p.processLine line = .ok q) : Follows t q.mode ∧ Gains s t p q line := by
  cases h with
  | header hopen hh =>
    obtain ⟨rfl, hd⟩ := LineStep.follows_header hf hopen hh hq
    refine ⟨follows_opening _ _ _, ?_, fun h => absurd h hd⟩
    simp [excess_headerHunk hh]
  | addedLine => exact follows_addedLine hf hq
  | move => exact follows_move hf hq
  | skip hs =>
    obtain ⟨hp, hb, -⟩ := hs
    obtain ⟨n, hm⟩ := hf.update hp
    obtain ⟨hmode, hlt⟩ := processLine_blank hm hb hq
    refine ⟨hmode ▸ follows_update (Place.skip_ne_outside hp) n, ?_, fun _ => ?_⟩ <;>
    · simp only
      omega
  | emptyContext hp _ =>
    obtain ⟨n, hm⟩ := hf.update hp
    obtain ⟨hmode, movePath, chunks, movePath', chunks', heffect, hexcess⟩ :=
      processLine_effect hm (by rfl)
        (by decide) hq
    obtain ⟨rfl, rfl⟩ := heffect.of_emptyContext
    refine ⟨hmode ▸ follows_update (by simp) n, ?_, fun hd => absurd hd
      (not_drifts_of_trimEnd (by decide) trimEnd_emptyChangeContextMarker)⟩
    simp only [excess_concat, Hunk.excess, chunksExcess_concat] at hexcess ⊢
    omega
  | context hp _ => exact follows_context hp hf hq
  | firstLine hb ha =>
    obtain ⟨n, hm⟩ := hf.update (by simp)
    have hd := isDiffLine_of_addLine ha
    obtain ⟨hmode, hexcess⟩ := processLine_diffLine hm hd hq
    refine ⟨hmode ▸ follows_update (by simp) n, ?_,
      fun h => absurd h (not_drifts_of_diffLine hd fun hblank => absurd hblank hb)⟩
    have := excess_addLine ha
    simp [Hunk.excess, chunksExcess, textWeight] at this ⊢
    omega
  | chunkLine ha =>
    obtain ⟨n, hm⟩ := hf.update (by simp)
    have hd := isDiffLine_of_addLine ha
    obtain ⟨hmode, hexcess⟩ := processLine_diffLine hm hd hq
    refine ⟨hmode ▸ follows_update (by simp) n, ?_,
      fun h => absurd h (not_drifts_of_diffLine hd fun _ => rfl)⟩
    have := excess_addLine ha
    simp only [excess_concat, Hunk.excess, chunksExcess_concat]
    omega
  | eof _ =>
    obtain ⟨n, hm⟩ := hf.update (by simp)
    obtain ⟨hmode, movePath, chunks, movePath', chunks', heffect, hexcess⟩ :=
      processLine_effect hm (by rw [trimEnd_eofMarker]; rfl)
        (by rw [trimEnd_eofMarker]; decide) hq
    obtain ⟨rfl, rfl⟩ := heffect.of_eof
    rw [excess_markLastChunkEof] at hexcess
    refine ⟨hmode ▸ follows_update (by simp) n, ?_, fun hd => absurd hd
      (not_drifts_of_trimEnd (by decide) trimEnd_eofMarker)⟩
    simp only [excess_concat, Hunk.excess, chunksExcess_concat, UpdateFileChunk.excess]
    omega

end CodexRs.ApplyPatch
