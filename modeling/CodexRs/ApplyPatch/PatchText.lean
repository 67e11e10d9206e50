import CodexRs.ApplyPatch.RoundTrip

/-!
# The text of a rendered patch

Splitting the trimmed text of a rendered patch gives its lines back.
-/
namespace CodexRs.ApplyPatch
open Text List

def finalLineFeed (lf : Bool) : Str := if lf then ['\n'] else []

variable (w : Wrapping) (doc : List HunkText)

def renderText (lf : Bool) : Str :=
  joinLines (w.wrap (renderPatch doc)) ++ finalLineFeed lf

theorem blank_finalLineFeed (lf : Bool) : Blank (finalLineFeed lf) := by
  cases lf <;> decide

theorem PlainLine.append {m s : Str} (hm : PlainLine m) (hs : PlainLine s) :
    PlainLine (m ++ s) := by
  constructor
  · simp [hm.1, hs.1]
  · rw [getLast?_append]
    cases h : s.getLast? with
    | none => simpa using hm.2
    | some c => simpa [h] using hs.2

variable {path : PathBuf}

theorem HeaderPath.plainLine (h : HeaderPath path) : PlainLine path := by
  obtain ⟨m, c, rfl, hc⟩ := h.concat
  refine ⟨h.2.1, ?_⟩
  intro hcr
  rw [getLast?_concat, Option.some.injEq] at hcr
  subst c
  exact absurd hc (by decide)

theorem PlainPath.headerPath (h : PlainPath path) : HeaderPath path := by
  refine ⟨h.1, h.2.1, ?_⟩
  rw [← h.2.2, trim, trimEnd_trimEnd]

theorem PlainPath.plainLine (h : PlainPath path) : PlainLine path := h.headerPath.plainLine

theorem DiffLine.plainLine_render {d : DiffLine} (h : ∀ l ∈ d.old ++ d.new, PlainLine l) :
    PlainLine d.render := by
  cases d with
  | context text => exact PlainLine.append (m := [' ']) (by decide) (h text (by simp [old]))
  | add text => exact PlainLine.append (m := ['+']) (by decide) (h text (by simp [new]))
  | remove text => exact PlainLine.append (m := ['-']) (by decide) (h text (by simp [old]))

theorem ChunkText.plainLine_render {c : ChunkText} (h : c.chunk.Renderable) :
    ∀ l ∈ c.render, PlainLine l := by
  obtain ⟨-, hlines, hcontext⟩ := h
  intro l hl
  simp only [render, mem_cons, mem_append, mem_map] at hl
  rcases hl with rfl | ⟨d, hd, rfl⟩ | hl
  · cases hc : c.context with
    | none => decide
    | some context => exact PlainLine.append (by decide) (hcontext context (by simp [chunk, hc]))
  · apply DiffLine.plainLine_render
    intro l hl
    apply hlines
    rw [mem_append] at hl ⊢
    exact hl.imp (fun h => mem_flatMap.mpr ⟨d, hd, h⟩)
      (fun h => mem_flatMap.mpr ⟨d, hd, h⟩)
  · have he : l = eofMarker := by
      unfold eofLines at hl
      split at hl
      · simpa using hl
      · simp at hl
    rw [he]
    decide

theorem HunkText.plainLine_render {t : HunkText} (h : t.Writable) :
    ∀ l ∈ t.render, PlainLine l := by
  intro l hl
  cases t with
  | addFile path contents =>
    simp only [render, body, mem_cons, mem_map] at hl
    rcases hl with rfl | ⟨m, hm, rfl⟩
    · exact PlainLine.append (by decide) h.1.plainLine
    · exact PlainLine.append (m := ['+']) (by decide) (h.2.2 m hm)
  | deleteFile path =>
    simp only [render, body, mem_singleton] at hl
    rw [hl]
    exact PlainLine.append (by decide) (HeaderPath.plainLine h)
  | updateFile path movePath chunks =>
    simp only [render, body, mem_cons, mem_append, mem_flatMap] at hl
    rcases hl with rfl | hl | ⟨c, hc, hl⟩
    · exact PlainLine.append (by decide) h.1.plainLine
    · cases movePath with
      | none => simp [moveLines] at hl
      | some dest =>
        simp only [moveLines, mem_singleton] at hl
        rw [hl]
        exact PlainLine.append (by decide) (h.2.1 dest rfl)
    · exact ChunkText.plainLine_render (h.2.2.2 c hc) l hl

theorem plainLine_renderPatch {doc : List HunkText} (hdoc : ∀ t ∈ doc, t.Writable) :
    ∀ l ∈ renderPatch doc, PlainLine l := by
  intro l hl
  simp only [renderPatch, renderHunks, mem_append, mem_cons, mem_flatMap,
    not_mem_nil, or_false] at hl
  rcases hl with (rfl | ⟨t, ht, hl⟩) | rfl
  · decide
  · exact HunkText.plainLine_render (hdoc t ht) l hl
  · decide

/-- Trimming and splitting undoes joining, whatever whitespace follows the text. -/
theorem lines_trim_joinLines (a b : Char) (first last w : Str) (ls : List Str)
    (ha : isWhitespace a = false) (hb : isWhitespace b = false) (hw : Blank w)
    (hls : ∀ l ∈ (a :: first) :: ls ++ [last ++ [b]], '\n' ∉ l) :
    lines (trim (joinLines ((a :: first) :: ls ++ [last ++ [b]]) ++ w)) =
      ((a :: first) :: ls).map stripCr ++ [last ++ [b]] := by
  obtain ⟨m, hm⟩ := joinLines_concat (a :: first) ls (last ++ [b])
  have hcons : joinLines ((a :: first) :: ls ++ [last ++ [b]]) =
      a :: (first ++ '\n' :: joinLines (ls ++ [last ++ [b]])) := by
    rw [joinLines_cons_concat, cons_append]
  have hend : ∃ m, a :: (first ++ '\n' :: joinLines (ls ++ [last ++ [b]])) = m ++ [b] :=
    ⟨m ++ '\n' :: last, by rw [← hcons, hm]; simp⟩
  rw [hcons, trim_append_of_blank _ _ hw, trim_eq_self ha hb hend, ← hcons,
    lines_joinLines _ _ (by simp) hls]

theorem map_stripCr_of_plain {ls : List Str} (h : ∀ l ∈ ls, PlainLine l) : ls.map stripCr = ls := by
  conv_rhs => rw [← map_id ls]
  exact map_congr_left fun l hl => stripCr_eq_self (h l hl).2

theorem lines_renderText (hw : w.Valid) (doc : List HunkText)
    (hdoc : ∀ t ∈ doc, t.Writable) (lf : Bool) :
    lines (trim (renderText w doc lf)) = w.wrap (renderPatch doc) := by
  have hplain := plainLine_renderPatch hdoc
  cases w with
  | plain =>
    have hbody := lines_trim_joinLines '*' 'h' beginPatchMarker.tail endPatchMarker.dropLast _
      (renderHunks doc) (by decide) (by decide) (blank_finalLineFeed lf) fun l hl => (hplain l hl).1
    exact hbody.trans (congrArg (· ++ [endPatchMarker])
      (map_stripCr_of_plain fun l hl => hplain l (mem_append_left _ hl)))
  | heredoc start =>
    have hstart : ∃ first, start = '<' :: first ∧ PlainLine start := by
      simp only [Wrapping.Valid, heredocStarts, mem_cons, not_mem_nil, or_false] at hw
      rcases hw with rfl | rfl | rfl <;> exact ⟨_, rfl, by decide⟩
    obtain ⟨first, hfirst, hs⟩ := hstart
    subst hfirst
    have hwrapped : ∀ l ∈ ('<' :: first) :: renderPatch doc ++ ["EOF".toList], PlainLine l := by
      intro l hl
      simp only [mem_append, mem_cons, not_mem_nil, or_false] at hl
      rcases hl with (rfl | hl) | rfl
      · exact hs
      · exact hplain l hl
      · decide
    have hbody := lines_trim_joinLines '<' 'F' first ['E', 'O'] _ (renderPatch doc) (by decide)
      (by decide) (blank_finalLineFeed lf) fun l hl => (hwrapped l hl).1
    exact hbody.trans (congrArg (· ++ ["EOF".toList])
      (map_stripCr_of_plain fun l hl => hwrapped l (mem_append_left _ hl)))

theorem checkPatchBoundariesStrict_renderPatch :
    checkPatchBoundariesStrict (renderPatch doc) = .ok (renderPatch doc, renderHunks doc) := by
  have hmarkers : checkStartAndEndLinesStrict (some beginPatchMarker) (some endPatchMarker) =
      .ok () := by decide
  have hlast : (renderPatch doc).getLast? = some endPatchMarker := getLast?_concat
  have hhead : (renderPatch doc).head? = some beginPatchMarker := by simp [renderPatch]
  rw [checkPatchBoundariesStrict, hhead, hlast, hmarkers]
  simp [renderPatch]

theorem checkPatchBoundariesStrict_heredoc (start : Str) (hs : start ∈ heredocStarts)
    (ls : List Str) :
    checkPatchBoundariesStrict (start :: ls) = .error (.invalidPatchError firstLineMessage) := by
  have hne : trim start ≠ beginPatchMarker := by
    revert start
    decide
  have hlast : ∃ last, (start :: ls).getLast? = some last :=
    ⟨_, rfl⟩
  obtain ⟨last, hlast⟩ := hlast
  rw [checkPatchBoundariesStrict, hlast, checkStartAndEndLinesStrict]
  simp [hne]

theorem checkPatchBoundariesLenient_wrap (hw : w.Valid) (doc : List HunkText) :
    checkPatchBoundariesLenient (w.wrap (renderPatch doc)) =
      .ok (renderPatch doc, renderHunks doc) := by
  cases w with
  | plain =>
    rw [Wrapping.wrap, checkPatchBoundariesLenient, checkPatchBoundariesStrict_renderPatch]
  | heredoc start =>
    have hlen : 4 ≤ (start :: renderPatch doc ++ ["EOF".toList]).length := by
      simp [renderPatch]
    have hlast : (start :: renderPatch doc ++ ["EOF".toList]).getLast? = some "EOF".toList :=
      getLast?_concat
    have hinner : (start :: renderPatch doc ++ ["EOF".toList]).tail.dropLast =
        renderPatch doc := by
      rw [cons_append, tail_cons, dropLast_concat]
    have hguard : start ∈ heredocStarts ∧ "EOF".toList.isSuffixOf "EOF".toList ∧
        4 ≤ (start :: renderPatch doc ++ ["EOF".toList]).length := ⟨hw, by decide, hlen⟩
    rw [Wrapping.wrap, checkPatchBoundariesLenient, cons_append,
      checkPatchBoundariesStrict_heredoc start hw, ← cons_append, hlast]
    simp only [cons_append, head?_cons]
    rw [← cons_append, if_pos hguard, hinner, checkPatchBoundariesStrict_renderPatch]

/-- Every writable document is read back from each of its texts. -/
theorem parsePatch_of_writable (hdoc : ∀ t ∈ doc, t.Writable)
    (w : Wrapping) (hw : w.Valid) (lf : Bool) :
    parsePatch (renderText w doc lf) =
      .ok ⟨joinLines (renderPatch doc), doc.map HunkText.hunk, none⟩ := by
  rw [parsePatch, parsePatchText, lines_renderText w hw doc hdoc lf]
  simp only [checkPatchBoundariesLenient_wrap w hw doc,
    parseHunks_render doc fun t ht => (hdoc t ht).readable]
  rfl

theorem HunkText.writable_of_renderable (t : HunkText) (h : t.hunk.Renderable) : t.Writable := by
  cases t with
  | addFile path contents => exact ⟨h.1.headerPath, h.2⟩
  | deleteFile path => exact PlainPath.headerPath h
  | updateFile path movePath chunks =>
    obtain ⟨hp, hm, hne, hcs⟩ := h
    refine ⟨hp.headerPath, fun dest hd => (hm dest hd).plainLine, ?_, ?_⟩
    · simpa using hne
    · exact fun c hc => hcs c.chunk (mem_map_of_mem hc)

/-- Every list of hunks has a rendering, and each of its renderings, with or without a
here-document around it, is read back as that list. -/
theorem parsePatch_renderText (hunks : List Hunk) (hr : ∀ h ∈ hunks, h.Renderable)
    (w : Wrapping) (hw : w.Valid) (lf : Bool) :
    (∃ doc : List HunkText, doc.map HunkText.hunk = hunks) ∧
      ∀ doc : List HunkText, doc.map HunkText.hunk = hunks →
        parsePatch (renderText w doc lf) = .ok ⟨joinLines (renderPatch doc), hunks, none⟩ := by
  constructor
  · refine ⟨hunks.map Hunk.text, ?_⟩
    rw [map_map, map_congr_left fun h _ => h.hunk_text, map_id']
  · intro doc hdoc
    rw [parsePatch_of_writable doc _ w hw lf, hdoc]
    intro t ht
    exact t.writable_of_renderable (hr _ (hdoc ▸ mem_map_of_mem ht))

/-- A patch that adds, deletes, and renames with an update at the end of the file. -/
def sampleHunks : List Hunk :=
  [.addFile "a".toList "x\n".toList, .deleteFile "b".toList,
    .updateFile "c".toList (some "d".toList) [⟨some "f".toList, [[], ['u']], [[], ['v']], true⟩]]

def sampleDoc : List HunkText :=
  [.addFile "a".toList "x\n".toList, .deleteFile "b".toList,
    .updateFile "c".toList (some "d".toList)
      [⟨some "f".toList, [.context [], .remove ['u'], .add ['v']], true⟩]]

theorem parsePatch_renderText_sample :
    (∀ h ∈ sampleHunks, h.Renderable) ∧ sampleDoc.map HunkText.hunk = sampleHunks ∧
      parsePatch (renderText (.heredoc "<<'EOF'".toList) sampleDoc true) =
        .ok ⟨joinLines (renderPatch sampleDoc), sampleHunks, none⟩ := by
  have hr : ∀ h ∈ sampleHunks, h.Renderable := by decide +kernel
  have hdoc : sampleDoc.map HunkText.hunk = sampleHunks := by decide +kernel
  exact ⟨hr, hdoc,
    (parsePatch_renderText sampleHunks hr _ (by decide +kernel) true).2 sampleDoc hdoc⟩

end CodexRs.ApplyPatch
