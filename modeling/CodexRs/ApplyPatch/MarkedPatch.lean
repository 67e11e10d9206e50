import CodexRs.ApplyPatch.BatchRuns
import CodexRs.ApplyPatch.PatchText
import CodexRs.ApplyPatch.PreviewSteps
import CodexRs.Library.OverlaySharp

/-!
# Patches with given headers and marks as contents

Each hunk adds a line of its own, which tells it from every other hunk.
-/
namespace CodexRs.ApplyPatch
open Text Files Overlay Machine HunkText List

/-- What every hunk that has been parsed satisfies. -/
def Hunk.Headed : Hunk → Prop
  | .addFile path _ => HeaderPath path
  | .deleteFile path => HeaderPath path
  | .updateFile path movePath _ => HeaderPath path ∧ ∀ dest ∈ movePath, '\n' ∉ dest

theorem headerPath_of_stripPrefix {marker line path : Str} (hm : trimEnd marker ≠ marker)
    (hline : '\n' ∉ line) (h : stripPrefix marker (trim line) = some path) : HeaderPath path := by
  have htrim : trim line = marker ++ path := stripPrefix_eq_some.mp h
  have hself : trimEnd (marker ++ path) = marker ++ path := by
    rw [← htrim]
    exact trimEnd_trimEnd _
  have hnl : '\n' ∉ path := by
    intro hmem
    apply hline
    rw [trim_spec line, htrim]
    simp [hmem]
  have hblank : ¬ Blank path := by
    intro hb
    apply hm
    rw [trimEnd_append, if_pos hb] at hself
    have hle : (marker ++ path).length ≤ marker.length :=
      hself ▸ (List.rdropWhile_prefix isWhitespace marker).length_le
    rw [length_append] at hle
    rw [hself, length_eq_zero_iff.mp (by omega : path.length = 0), append_nil]
  rw [trimEnd_append, if_neg hblank] at hself
  refine ⟨?_, hnl, append_cancel_left hself⟩
  rintro rfl
  exact hblank (by simp [Blank])

theorem headed_of_headerHunk {line : Str} {hunk : Hunk} (hline : '\n' ∉ line)
    (h : headerHunk (trim line) = some hunk) : hunk.Headed := by
  unfold headerHunk at h
  cases ha : stripPrefix addFileMarker (trim line) with
  | some path =>
    simp only [ha, Option.some_inj] at h
    subst h
    exact headerPath_of_stripPrefix (by decide) hline ha
  | none =>
    cases hd : stripPrefix deleteFileMarker (trim line) with
    | some path =>
      simp only [ha, hd, Option.some_inj] at h
      subst h
      exact headerPath_of_stripPrefix (by decide) hline hd
    | none =>
      cases hu : stripPrefix updateFileMarker (trim line) with
      | some path =>
        simp only [ha, hd, hu, Option.some_inj] at h
        subst h
        exact ⟨headerPath_of_stripPrefix (by decide) hline hu, by simp⟩
      | none => simp [ha, hd, hu] at h

variable {hunks : List Hunk}

theorem headed_concat {h h' : Hunk} (hs : ∀ x ∈ hunks ++ [h], x.Headed)
    (himp : h.Headed → h'.Headed) : ∀ x ∈ hunks ++ [h'], x.Headed := by
  intro x hx
  rcases mem_append.mp hx with hx | hx
  · exact hs x (mem_append_left _ hx)
  · rw [mem_singleton.mp hx]
    exact himp (hs h (by simp))

theorem headed_lineStep {s t : LineState} {line : Str} (hline : '\n' ∉ line)
    (hs : ∀ h ∈ s.hunks, h.Headed) (h : LineStep s line t) : ∀ h ∈ t.hunks, h.Headed := by
  cases h with
  | header _ hh =>
    intro x hx
    rcases mem_append.mp hx with hx | hx
    · exact hs x hx
    · rw [mem_singleton.mp hx]
      exact headed_of_headerHunk hline hh
  | addedLine | emptyContext _ _ | context _ _ | firstLine _ _ | chunkLine _ | eof _ =>
    exact headed_concat hs fun h => h
  | @move hunks path dest =>
    apply headed_concat hs
    rintro ⟨hpath, -⟩
    refine ⟨hpath, ?_⟩
    rintro d ⟨⟩
    exact fun hmem => hline (mem_append_right _ hmem)
  | skip _ => exact hs

theorem headed_of_parseHunks {n : ℕ} {ls : List Str}
    (hls : ∀ l ∈ ls, '\n' ∉ l) (h : parseHunks n [] ls = .ok hunks) :
    ∀ hunk ∈ hunks, hunk.Headed := by
  obtain ⟨place, -, hrun⟩ := @parseHunks_run n ls .outside [] hunks h (.inl rfl) (by simp)
  have hend := hrun.invariant
    (I := fun ls s => (∀ l ∈ ls, '\n' ∉ l) ∧ ∀ h ∈ s.hunks, h.Headed) ?_ ⟨hls, by simp⟩
  · exact hend.2
  · rintro line ls s t ⟨hls, hs⟩ hstep
    exact ⟨fun l hl => hls l (mem_cons_of_mem _ hl),
      headed_lineStep (hls line mem_cons_self) hs hstep⟩

variable {ls patchLines hunkLines : List Str}

theorem checkPatchBoundariesStrict_subset
    (h : checkPatchBoundariesStrict ls = .ok (patchLines, hunkLines)) : hunkLines ⊆ ls := by
  unfold checkPatchBoundariesStrict at h
  cases hc : checkStartAndEndLinesStrict ls.head? ls.getLast? with
  | error e => simp [hc] at h
  | ok _ =>
    simp only [hc, Except.ok.injEq, Prod.mk.injEq] at h
    rw [← h.2]
    exact fun l hl => mem_of_mem_tail (dropLast_subset _ hl)

theorem checkPatchBoundariesLenient_subset
    (h : checkPatchBoundariesLenient ls = .ok (patchLines, hunkLines)) : hunkLines ⊆ ls := by
  unfold checkPatchBoundariesLenient at h
  cases hc : checkPatchBoundariesStrict ls with
  | ok r =>
    simp only [hc] at h
    exact checkPatchBoundariesStrict_subset (h ▸ hc)
  | error e =>
    simp only [hc] at h
    split at h
    · split_ifs at h
      intro l hl
      exact mem_of_mem_tail (dropLast_subset _ (checkPatchBoundariesStrict_subset h hl))
    · cases h

variable {args : ApplyPatchArgs}

/-- The paths of a parsed patch can stand in the headers of another one. -/
theorem headed_of_parsePatch {text : Str}
    (h : parsePatch text = .ok args) : ∀ hunk ∈ args.hunks, hunk.Headed := by
  simp only [parsePatch, parsePatchText] at h
  rcases hb : checkPatchBoundariesLenient (lines (trim text)) with e | ⟨patchLines, hunkLines⟩
  · simp [hb] at h
  · cases hp : parseHunks 2 [] hunkLines with
    | error e => simp [hb, hp] at h
    | ok hunks =>
      simp only [hb, hp, Except.ok.injEq] at h
      subst h
      apply headed_of_parseHunks _ hp
      exact fun l hl => not_mem_of_mem_lines (checkPatchBoundariesLenient_subset hb hl)

theorem headed_of_maybeParseApplyPatch {query : BashQuery} {argv : List Str}
    (h : maybeParseApplyPatch query argv = .body args) :
    ∀ hunk ∈ args.hunks, hunk.Headed := by
  have hdirect {body : Str} (h : parseDirect body = .body args) :
      ∀ hunk ∈ args.hunks, hunk.Headed := by
    unfold parseDirect at h
    cases hp : parsePatch body with
    | error e => simp [hp] at h
    | ok source =>
      simp only [hp, MaybeApplyPatch.body.injEq] at h
      exact h ▸ headed_of_parsePatch hp
  have hscript (h : parseScript query argv = .body args) : ∀ hunk ∈ args.hunks, hunk.Headed := by
    unfold parseScript at h
    rcases hs : parseShellScript argv with _ | ⟨shell, script⟩
    · simp [hs] at h
    · simp only [hs] at h
      rcases he : extractApplyPatchFromShell query shell script with e | ⟨body, workdir⟩
      · cases e <;> simp [he] at h
      · simp only [he] at h
        cases hp : parsePatch body with
        | error e => simp [hp] at h
        | ok source =>
          simp only [hp, MaybeApplyPatch.body.injEq] at h
          subst h
          have hsource := headed_of_parsePatch hp
          exact hsource
  unfold maybeParseApplyPatch at h
  split at h
  · split_ifs at h
    · exact hdirect h
    · exact hscript h
  · exact hscript h

def markLine (i : ℕ) : Str := replicate (i + 1) 'x'

variable (w : List ℕ)

def markText : Str := joinLines (w.map markLine ++ [[]])

/-- The hunk with the same header that leaves the mark `i`. -/
def Hunk.marked (i : ℕ) : Hunk → HunkText
  | .addFile path _ => .addFile path (markText [i])
  | .deleteFile path => .deleteFile path
  | .updateFile path movePath _ => .updateFile path movePath [⟨none, [.add (markLine i)], false⟩]

def markedDoc (i : ℕ) : List Hunk → List HunkText
  | [] => []
  | hunk :: hunks => hunk.marked i :: markedDoc (i + 1) hunks

theorem not_mem_markLine (i : ℕ) : '\n' ∉ markLine i := by
  simp [markLine]

theorem not_mem_markLines : ∀ l ∈ w.map markLine ++ [[]], '\n' ∉ l := by
  intro l hl
  rcases mem_append.mp hl with hl | hl
  · obtain ⟨i, -, rfl⟩ := mem_map.mp hl
    exact not_mem_markLine i
  · simp [mem_singleton.mp hl]

theorem splitOn_markText : (markText w).splitOn '\n' = w.map markLine ++ [[]] :=
  splitOn_joinLines _ (by simp) (not_mem_markLines w)

theorem markText_injective : Function.Injective markText := by
  intro w w' h
  have hlines : w.map markLine = w'.map markLine := by
    have hsplit := congrArg (splitOn '\n') h
    rw [splitOn_markText, splitOn_markText] at hsplit
    exact append_cancel_right hsplit
  apply map_injective_iff.mpr _ hlines
  intro i j hij
  simpa [markLine] using congrArg length hij

theorem dropEmptyEnd_concat_nil (ls : List Str) : dropEmptyEnd (ls ++ [[]]) = ls := by
  simp [dropEmptyEnd]

theorem getLast?_markLines : (w.map markLine).getLast? ≠ some [] := by
  intro h
  obtain ⟨i, -, hi⟩ := mem_map.mp (mem_of_getLast? h)
  simp [markLine] at hi

/-- Adding a line to a text of marks adds its mark. -/
theorem newText_markText (path : Str) (i : ℕ) :
    newText (markText w) path [⟨none, [], [markLine i], false⟩] = .ok (markText (w ++ [i])) := by
  have hindex : insertionIndex (w.map markLine) = (w.map markLine).length :=
    if_neg (getLast?_markLines w)
  have hreps : computeReplacements (w.map markLine) path [⟨none, [], [markLine i], false⟩] =
      .ok [⟨(w.map markLine).length, 0, [markLine i]⟩] := by
    rw [← hindex]
    rfl
  have happly : applyReplacements (w.map markLine) [⟨(w.map markLine).length, 0, [markLine i]⟩] =
      some ((w ++ [i]).map markLine) := by
    rw [applyReplacements_eq (pairwise_singleton _ _) (by simp)]
    simp only [Splice.applyBackward, foldr_cons, foldr_nil, Splice.Edit.apply,
      Splice.Edit.stop, Nat.add_zero, take_length, drop_length, append_nil,
      map_append, map_cons, map_nil]
  simp only [newText, splitOn_markText, dropEmptyEnd_concat_nil, hreps, happly, Option.getD_some]
  rw [if_neg (getLast?_markLines _)]
  rfl

theorem lifts_marked (home : Option Str) (cwd : AbsolutePathBuf) (i : ℕ) (hunk : Hunk) :
    ((hunk.act home cwd).mark i).Lifts markText ((hunk.marked i).hunk.step home cwd) := by
  cases hunk with
  | addFile path contents => exact .put
  | deleteFile path => exact .del
  | updateFile path movePath chunks =>
    refine .edit fun w => ?_
    exact congrArg Except.toOption (newText_markText w _ i)

theorem lifts_markedDoc (home : Option Str) (cwd : AbsolutePathBuf) (i : ℕ) (hunks : List Hunk) :
    Forall₂ (Step.Lifts markText) (marks i (hunks.map (Hunk.act home cwd)))
      (((markedDoc i hunks).map hunk).map (Hunk.step home cwd)) := by
  induction hunks generalizing i with
  | nil => exact .nil
  | cons hunk hunks ih => exact .cons (lifts_marked home cwd i hunk) (ih (i + 1))

theorem act_markedDoc (home : Option Str) (cwd : AbsolutePathBuf) (i : ℕ) (hunks : List Hunk) :
    ((markedDoc i hunks).map hunk).map (Hunk.act home cwd) = hunks.map (Hunk.act home cwd) := by
  induction hunks generalizing i with
  | nil => rfl
  | cons hunk hunks ih =>
    have hact : (hunk.marked i).hunk.act home cwd = hunk.act home cwd := by cases hunk <;> rfl
    rw [markedDoc, map_cons, map_cons, ih, hact, map_cons]

theorem markText_singleton (i : ℕ) : markText [i] = markLine i ++ ['\n'] := rfl

theorem readable_marked {hunk : Hunk} (h : hunk.Headed) (i : ℕ) : (hunk.marked i).Readable := by
  cases hunk with
  | addFile path contents =>
    refine ⟨h, ?_⟩
    rw [addedLines, splitOn_markText]
    simp [markText_singleton]
  | deleteFile path => exact h
  | updateFile path movePath chunks => exact ⟨h.1, by simp, by simp⟩

theorem not_mem_append {m s : Str} (hm : '\n' ∉ m) (hs : '\n' ∉ s) : '\n' ∉ m ++ s := by
  simp [hm, hs]

theorem not_mem_render_marked {hunk : Hunk} (h : hunk.Headed) (i : ℕ) :
    ∀ l ∈ (hunk.marked i).render, '\n' ∉ l := by
  intro l hl
  rcases mem_cons.mp hl with rfl | hl
  · cases hunk with
    | addFile path contents => exact not_mem_append (by decide) h.2.1
    | deleteFile path => exact not_mem_append (by decide) h.2.1
    | updateFile path movePath chunks => exact not_mem_append (by decide) h.1.2.1
  · have hadded : '\n' ∉ '+' :: markLine i :=
      not_mem_append (m := ['+']) (by decide) (not_mem_markLine i)
    cases hunk with
    | addFile path contents =>
      have hlines : addedLines (markText [i]) = [markLine i] := by
        rw [addedLines, splitOn_markText]
        rfl
      obtain rfl : l = '+' :: markLine i := by
        simpa [Hunk.marked, body, hlines] using hl
      exact hadded
    | deleteFile path => simp [Hunk.marked, body] at hl
    | updateFile path movePath chunks =>
      rcases mem_append.mp hl with hl | hl
      · cases movePath with
        | none => simp [moveLines] at hl
        | some dest =>
          obtain rfl : l = moveToMarker ++ dest := by simpa [moveLines] using hl
          exact not_mem_append (by decide) (h.2 dest rfl)
      · obtain rfl | rfl : l = emptyChangeContextMarker ∨ l = '+' :: markLine i := by
          simpa [ChunkText.render, ChunkText.eofLines, contextLine, DiffLine.render] using hl
        · decide
        · exact hadded

theorem mem_markedDoc {i : ℕ} {t : HunkText} (h : t ∈ markedDoc i hunks) :
    ∃ hunk ∈ hunks, ∃ j, t = hunk.marked j := by
  induction hunks generalizing i with
  | nil => cases h
  | cons hunk hunks ih =>
    rcases mem_cons.mp h with rfl | h
    · exact ⟨hunk, mem_cons_self, i, rfl⟩
    · obtain ⟨hunk', hmem, j, rfl⟩ := ih h
      exact ⟨hunk', mem_cons_of_mem _ hmem, j, rfl⟩

/-- The patch with a carriage return before every line feed. -/
def dosText (doc : List HunkText) : Str :=
  joinLines ((beginPatchMarker :: renderHunks doc).map (· ++ ['\r']) ++ [endPatchMarker])

theorem map_stripCr_dos (ls : List Str) : (ls.map (· ++ ['\r'])).map stripCr = ls := by
  rw [map_map]
  conv_rhs => rw [← map_id ls]
  apply map_congr_left
  intro l _
  simp [stripCr]

theorem lines_trim_dosText {doc : List HunkText} (h : ∀ l ∈ renderHunks doc, '\n' ∉ l) :
    lines (trim (dosText doc)) = renderPatch doc := by
  have hsplit := lines_trim_joinLines '*' 'h' (beginPatchMarker.tail ++ ['\r'])
    endPatchMarker.dropLast [] ((renderHunks doc).map (· ++ ['\r'])) (by decide) (by decide)
    (by simp [Blank]) ?_
  · rw [append_nil] at hsplit
    exact hsplit.trans (congrArg (· ++ [endPatchMarker])
      (map_stripCr_dos (beginPatchMarker :: renderHunks doc)))
  · intro l hl
    rcases mem_append.mp hl with hl | hl
    · rcases mem_cons.mp hl with rfl | hl
      · decide
      · obtain ⟨k, hk, rfl⟩ := mem_map.mp hl
        exact not_mem_append (h k hk) (by decide)
    · rw [mem_singleton.mp hl]
      decide

/-- The marked patch with the headers of a parsed one. -/
theorem parsePatch_markedDoc (h : ∀ hunk ∈ hunks, hunk.Headed) (i : ℕ) :
    parsePatch (dosText (markedDoc i hunks)) =
      .ok ⟨joinLines (renderPatch (markedDoc i hunks)), (markedDoc i hunks).map hunk, none⟩ := by
  have hread : ∀ t ∈ markedDoc i hunks, t.Readable := by
    intro t ht
    obtain ⟨hunk, hmem, j, rfl⟩ := mem_markedDoc ht
    exact readable_marked (h hunk hmem) j
  have hlines : ∀ l ∈ renderHunks (markedDoc i hunks), '\n' ∉ l := by
    intro l hl
    obtain ⟨t, ht, hl⟩ := mem_flatMap.mp hl
    obtain ⟨hunk, hmem, j, rfl⟩ := mem_markedDoc ht
    exact not_mem_render_marked (h hunk hmem) j l hl
  rw [parsePatch, parsePatchText, lines_trim_dosText hlines]
  simp only [checkPatchBoundariesLenient, checkPatchBoundariesStrict_renderPatch,
    parseHunks_render _ hread]
  rfl

end CodexRs.ApplyPatch
