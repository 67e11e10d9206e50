import CodexRs.ApplyPatch.StreamAgree

/-!
# Reading the same lines

Without drift the two parsers end with the same hunks, and conversely.
-/
namespace CodexRs.ApplyPatch
open Text Machine StreamingPatchParser

variable {s t : LineState} {p q : StreamingPatchParser} {line : Str}

theorem stripPrefix_trimEnd_diffLine (h : isDiffLine line = true) {c : Char} {m : Str}
    (hc : c = '*' ∨ c = '@') : stripPrefix (c :: m) (trimEnd line) = none := by
  rw [stripPrefix_eq_none]
  intro t ht
  rcases trimEnd_diffLine h with hn | ⟨d, s, hs, hd⟩
  · rw [hn] at ht
    cases ht
  · rw [hs] at ht
    cases ht
    rcases hc with rfl | rfl <;> simp at hd

theorem trimEnd_diffLine_ne (h : isDiffLine line = true) {c : Char} {m : Str}
    (hc : c = '*' ∨ c = '@') : trimEnd line ≠ c :: m := by
  intro ht
  exact stripPrefix_eq_none.mp (stripPrefix_trimEnd_diffLine h hc) [] (by simpa using ht)

section
variable {hs : List Hunk} {path : PathBuf} {movePath : Option PathBuf}
  {chunks chunks' : List UpdateFileChunk}

theorem processLine_update_eq {n : ℕ} (hm : p.mode = .updateFile n)
    (hh : headerHunk (trimEnd line) = none) (he : trimEnd line ≠ endPatchMarker)
    (hp : p.hunks = hs ++ [.updateFile path movePath chunks]) :
    p.processLine line = p.processUpdateLine line path movePath chunks := by
  simp only [processLine, hm, handle_none hh he]
  rw [hp, List.getLast?_concat]

theorem processUpdateLine_diffLine (ha : addToLastChunk chunks line = some chunks') :
    p.processUpdateLine line path movePath chunks =
      .ok (p.setLast (.updateFile path movePath chunks')) := by
  have h := isDiffLine_of_addToLastChunk ha
  have hempty : trimEnd line ≠ emptyChangeContextMarker := trimEnd_diffLine_ne h (.inr rfl)
  have heof : trimEnd line ≠ eofMarker := trimEnd_diffLine_ne h (.inl rfl)
  have hguard : ¬ ((trimEnd line = emptyChangeContextMarker ∨
      startsWith (trimEnd line) changeContextMarker = true) ∧ lastChunkIsEmpty chunks = true) := by
    rintro ⟨h1 | h1, -⟩
    · exact hempty h1
    · rw [startsWith, changeContextMarker, stripPrefix_trimEnd_diffLine h (.inr rfl)] at h1
      cases h1
  rw [processUpdateLine, moveToMarker, stripPrefix_trimEnd_diffLine h (.inl rfl)]
  rw [processContextLine, if_neg hguard, if_neg hempty, changeContextMarker,
    stripPrefix_trimEnd_diffLine h (.inr rfl)]
  rw [processChunkLine, if_neg heof, ha]

theorem processUpdateLine_emptyContext (hlast : lastChunkIsEmpty chunks = false) :
    p.processUpdateLine emptyChangeContextMarker path movePath chunks =
      .ok (p.setLast (.updateFile path movePath (chunks ++ [.opened none]))) := by
  rw [processUpdateLine, processContextLine, hlast]
  rfl

theorem processUpdateLine_context {text : Str}
    (htrim : trimEnd (changeContextMarker ++ text) = changeContextMarker ++ text)
    (hlast : lastChunkIsEmpty chunks = false) :
    p.processUpdateLine (changeContextMarker ++ text) path movePath chunks =
      .ok (p.setLast (.updateFile path movePath (chunks ++ [.opened (some text)]))) := by
  have hne : changeContextMarker ++ text ≠ emptyChangeContextMarker := by
    simp [changeContextMarker, emptyChangeContextMarker]
  have hmove : stripPrefix moveToMarker (changeContextMarker ++ text) = none := rfl
  rw [processUpdateLine, processContextLine, htrim, hlast, hmove]
  simp only [Bool.false_eq_true, and_false, if_false]
  rw [if_neg hne, stripPrefix_append]

theorem processUpdateLine_move {dest : Str}
    (htrim : trimEnd (moveToMarker ++ dest) = moveToMarker ++ dest) :
    p.processUpdateLine (moveToMarker ++ dest) path none [] =
      .ok (p.setLast (.updateFile path (some dest) [])) := by
  rw [processUpdateLine, htrim]
  rfl

theorem processUpdateLine_eof (hlast : lastChunkIsEmpty chunks = false) :
    p.processUpdateLine eofMarker path movePath chunks =
      .ok (p.setLast (.updateFile path movePath (markLastChunkEof chunks))) := by
  rw [processUpdateLine, processContextLine, processChunkLine, hlast]
  rfl

end

/-- The hunks of both parsers are the same. -/
def Tracks (s : LineState) (p : StreamingPatchParser) : Prop :=
  Follows s p.mode ∧ p.hunks = s.hunks

theorem LineState.Complete.lastComplete (h : s.Complete) (ht : Tracks s p) :
    LastComplete p.hunks := by
  intro path movePath chunks hlast
  rw [ht.2] at hlast
  rcases h with hp | ⟨-, hs, path', movePath', chunks', hhunks, hne, hempty⟩
  · have hf := ht.1
    rw [Follows, if_pos hp] at hf
    cases hf.1 _ hlast
  · rw [hhunks, List.getLast?_concat] at hlast
    cases hlast
    exact ⟨hne, hempty⟩

theorem processLine_header {hunk : Hunk} (ht : Tracks s p)
    (hopen : s.place = .outside ∨ s.Closed ∧ startsWith line ['*'] = true)
    (hh : headerHunk (trim line) = some hunk) : p.processLine line = .ok (p.opening hunk) := by
  have hcomplete : s.Complete := hopen.imp id And.left
  have hhandle : p.handleHunkHeadersAndEndPatch (trim line) = .ok (some (p.opening hunk)) := by
    rw [handle_header hh, ensure_ok (hcomplete.lastComplete ht)]
  rcases hopen with hp | ⟨hc, hstar⟩
  · rcases ht.1.outside hp with hm | hm | hm <;> simp [processLine, hm, hhandle]
  · obtain ⟨rest, rfl⟩ := startsWith_star hstar
    obtain ⟨n, hm⟩ := ht.1.update hc.1
    rw [trim_cons (by decide)] at hhandle
    simp [processLine, hm, hhandle]

theorem processLine_addedLine {hs : List Hunk} {path : PathBuf} {contents text : Str}
    (hm : p.mode = .addFile) (hp : p.hunks = hs ++ [.addFile path contents]) :
    p.processLine ('+' :: text) = .ok (p.setLast (.addFile path (contents ++ text ++ ['\n']))) := by
  have hnone : p.handleHunkHeadersAndEndPatch (trim ('+' :: text)) = .ok none :=
    handle_none (headerHunk_trimEnd_diffLine rfl) (trimEnd_diffLine_ne_end rfl)
  simp only [processLine, hm, hnone, processAddLine]
  rw [hp, List.getLast?_concat]
  rfl

theorem addToLastChunk_concat {chunks : List UpdateFileChunk} {chunk chunk' : UpdateFileChunk}
    (h : chunk.addLine line = some chunk') :
    addToLastChunk (chunks ++ [chunk]) line = some (chunks ++ [chunk']) := by
  simp [addToLastChunk, h]

theorem addToLastChunk_nil {chunk : UpdateFileChunk}
    (h : (UpdateFileChunk.opened none).addLine line = some chunk) :
    addToLastChunk [] line = some [chunk] := by
  simp [addToLastChunk, h]

/-- A line that does not drift has the same effect in both parsers. -/
theorem LineStep.processLine_eq (h : LineStep s line t) (ht : Tracks s p)
    (hd : ¬ s.place.Drifts line) : ∃ q, p.processLine line = .ok q ∧ q.hunks = t.hunks := by
  cases h with
  | header hopen hh =>
    exact ⟨_, processLine_header ht hopen hh, by rw [opening_hunks, ht.2]⟩
  | addedLine =>
    have hm : p.mode = .addFile := by
      have hf := ht.1
      simpa [Hunk.mode] using hf.2
    exact ⟨_, processLine_addedLine hm ht.2, setLast_hunks ht.2 _⟩
  | move =>
    rename_i hs path dest
    obtain ⟨n, hm⟩ := ht.1.update (by simp)
    obtain ⟨hheader, hend⟩ := headerHunk_moveLine dest
    have htrim : trimEnd (moveToMarker ++ dest) = moveToMarker ++ dest := by
      by_contra hne
      exact hd ⟨by simp, .inr ⟨.inr (by simp [startsWith]), hne⟩⟩
    refine ⟨_, ?_, setLast_hunks ht.2 _⟩
    rw [processLine_update_eq hm hheader hend ht.2, processUpdateLine_move htrim]
  | skip hs => exact absurd ⟨hs.1, .inl ⟨hs.2.1, hs.2.2⟩⟩ hd
  | emptyContext hp hlast =>
    obtain ⟨n, hm⟩ := ht.1.update hp
    refine ⟨_, ?_, setLast_hunks ht.2 _⟩
    rw [processLine_update_eq hm (by rfl)
      (by decide) ht.2,
      processUpdateLine_emptyContext hlast]
  | context hp hlast =>
    rename_i text
    obtain ⟨n, hm⟩ := ht.1.update hp
    obtain ⟨hheader, hend⟩ := headerHunk_contextLine text
    have htrim : trimEnd (changeContextMarker ++ text) = changeContextMarker ++ text := by
      by_contra hne
      exact hd ⟨hp, .inr ⟨.inl (by simp [startsWith]), hne⟩⟩
    refine ⟨_, ?_, setLast_hunks ht.2 _⟩
    rw [processLine_update_eq hm hheader hend ht.2, processUpdateLine_context htrim hlast]
  | firstLine hb ha =>
    obtain ⟨n, hm⟩ := ht.1.update (by simp)
    have hdiff := isDiffLine_of_addLine ha
    refine ⟨_, ?_, setLast_hunks ht.2 _⟩
    rw [processLine_update_eq hm (headerHunk_trimEnd_diffLine hdiff)
      (trimEnd_diffLine_ne_end hdiff) ht.2, processUpdateLine_diffLine (addToLastChunk_nil ha)]
  | chunkLine ha =>
    obtain ⟨n, hm⟩ := ht.1.update (by simp)
    have hdiff := isDiffLine_of_addLine ha
    refine ⟨_, ?_, setLast_hunks ht.2 _⟩
    rw [processLine_update_eq hm (headerHunk_trimEnd_diffLine hdiff)
      (trimEnd_diffLine_ne_end hdiff) ht.2, processUpdateLine_diffLine (addToLastChunk_concat ha)]
  | eof hne =>
    obtain ⟨n, hm⟩ := ht.1.update (by simp)
    refine ⟨_, ?_, setLast_hunks ht.2 _⟩
    rw [processLine_update_eq hm (by rfl)
      (by decide) ht.2, processUpdateLine_eof (by simpa using hne)]
    simp [markLastChunkEof]

/-- The step that the streaming parser takes when a line is complete. -/
def StreamStep (p : StreamingPatchParser) (line : Str) (q : StreamingPatchParser) : Prop :=
  p.nextLine line = .ok q

/-- Without drift the streaming parser reads the lines to the same hunks. -/
theorem run_of_noDrift {ls : List Str} (h : Run LineStep s ls t) (ht : Tracks s p)
    (hd : NoDrift s.place ls) : ∃ q, Run StreamStep p ls q ∧ Tracks t q := by
  have hsim : ∀ line ls s t p, Tracks s p ∧ NoDrift s.place (line :: ls) → LineStep s line t →
      ∃ q, StreamStep p line q ∧ Tracks t q ∧ NoDrift t.place ls := by
    rintro line ls s t p ⟨hp, hline, hrest⟩ hstep
    have hp' : Tracks s { p with lineBuffer := [], lineNumber := p.lineNumber + 1 } := hp
    obtain ⟨q, hq, hhunks⟩ := hstep.processLine_eq hp' hline
    refine ⟨q, hq, ⟨(hstep.follows hp'.1 hq).1, hhunks⟩, ?_⟩
    rwa [hstep.place_next]
  obtain ⟨q, hrun, htq, -⟩ :=
    h.simulate (R := fun ls s p => Tracks s p ∧ NoDrift s.place ls) hsim ⟨ht, hd⟩
  exact ⟨q, hrun, htq⟩

/-- The mode follows the place along every run, and equal hunks exclude a drift. -/
theorem noDrift_of_run {ls : List Str} (h : Run LineStep s ls t) (h' : Run StreamStep p ls q)
    (ht : Tracks s p) : Follows t q.mode ∧ (q.hunks = t.hunks → NoDrift s.place ls) := by
  have hlock : ∀ line rest s' t' p' q', (Follows s' p'.mode ∧ excess s'.hunks ≤ excess p'.hunks ∧
      (excess s'.hunks = excess p'.hunks → NoDrift s'.place (line :: rest) → NoDrift s.place ls)) →
      LineStep s' line t' → StreamStep p' line q' →
      Follows t' q'.mode ∧ excess t'.hunks ≤ excess q'.hunks ∧
        (excess t'.hunks = excess q'.hunks → NoDrift t'.place rest → NoDrift s.place ls) := by
    rintro line rest s' t' p' q' ⟨hf, hle, hd⟩ hstep hq
    obtain ⟨hfollows, hge, hgt⟩ := hstep.follows (p :=
      { p' with lineBuffer := [], lineNumber := p'.lineNumber + 1 }) hf hq
    simp only at hge hgt
    refine ⟨hfollows, by omega, ?_⟩
    intro heq hrest
    apply hd (by omega)
    refine ⟨fun hdrift => ?_, hstep.place_next ▸ hrest⟩
    have := hgt hdrift
    omega
  have hlast := h.lockstep (R := fun rest s' p' => Follows s' p'.mode ∧
    excess s'.hunks ≤ excess p'.hunks ∧
      (excess s'.hunks = excess p'.hunks → NoDrift s'.place rest → NoDrift s.place ls)) hlock h'
    ⟨ht.1, Int.le_of_eq (congrArg excess ht.2.symm), fun _ hd => hd⟩
  exact ⟨hlast.1, fun heq => hlast.2.2 (by rw [heq]) trivial⟩

end CodexRs.ApplyPatch
