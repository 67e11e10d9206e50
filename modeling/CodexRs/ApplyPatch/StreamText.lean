import CodexRs.ApplyPatch.BatchRuns
import CodexRs.ApplyPatch.StreamSync

/-!
# Streaming and batch parsing of one text

A text is handled line by line, and what follows the end marker is ignored. The streaming parser
reads a text as the batch parser does in strict mode unless a line drifts or it is indented at the
start or before the end marker.
-/
namespace CodexRs.ApplyPatch
open Text Machine StreamingPatchParser List

namespace StreamingPatchParser
variable {p q : StreamingPatchParser} {line : Str}

/-- The parser fed with a whole text and then finished. -/
def feed (p : StreamingPatchParser) (text : Str) : Except ParseError (List Hunk) :=
  match text.foldlM pushChar p with
  | .error e => .error e
  | .ok p => p.finish

theorem foldlM_pushDelta (deltas : List Str) (p : StreamingPatchParser) :
    deltas.foldlM pushDelta p = deltas.flatten.foldlM pushChar p := by
  induction deltas generalizing p with
  | nil => rfl
  | cons delta deltas ih =>
    rw [flatten_cons, foldlM_append]
    exact congrArg _ (funext ih)

theorem parseDeltas_eq_feed (deltas : List Str) : parseDeltas deltas = feed new deltas.flatten := by
  rw [parseDeltas, foldlM_pushDelta]
  rfl

theorem processLine_lineBuffer (h : p.processLine line = .ok q) : q.lineBuffer = p.lineBuffer := by
  have houtside (hm : p.mode = .startedPatch ∨ p.mode = .addFile ∨ p.mode = .deleteFile) :
      q.lineBuffer = p.lineBuffer := by
    rcases processLine_outside_cases hm h with ⟨-, rfl⟩ | ⟨hunk, -, rfl⟩ |
      ⟨-, hs, path, contents, text, -, -, -, rfl⟩ <;> rfl
  cases hm : p.mode with
  | notStarted =>
    simp only [processLine, hm] at h
    split_ifs at h
    cases h
    rfl
  | startedPatch => exact houtside (.inl hm)
  | addFile => exact houtside (.inr (.inl hm))
  | deleteFile => exact houtside (.inr (.inr hm))
  | updateFile n =>
    rcases processLine_update_cases hm h with ⟨-, rfl⟩ | ⟨hunk, -, rfl⟩ |
      ⟨-, -, hs, path, movePath, chunks, movePath', chunks', -, rfl, -⟩ <;> rfl
  | endedPatch =>
    simp only [processLine, hm] at h
    cases h
    rfl

theorem nextLine_lineBuffer (h : p.nextLine line = .ok q) : q.lineBuffer = [] :=
  processLine_lineBuffer h

theorem run_lineBuffer {ls : List Str} (h : Run StreamStep p ls q) (hp : p.lineBuffer = []) :
    q.lineBuffer = [] :=
  h.invariant (I := fun _ p => p.lineBuffer = []) (fun _ _ _ _ _ h => nextLine_lineBuffer h) hp

theorem foldlM_pushChar_of_not_mem (h : '\n' ∉ line) (p : StreamingPatchParser) :
    line.foldlM pushChar p = .ok { p with lineBuffer := p.lineBuffer ++ line } := by
  induction line generalizing p with
  | nil => simp [pure, Except.pure]
  | cons c line ih =>
    rw [mem_cons, not_or] at h
    rw [foldlM_cons, pushChar, if_neg (Ne.symm h.1)]
    refine (ih h.2 _).trans ?_
    simp

theorem feed_of_not_mem (h : '\n' ∉ line) (hp : p.lineBuffer = []) :
    p.feed line = { p with lineBuffer := line }.finish := by
  rw [feed, foldlM_pushChar_of_not_mem h, hp]
  rfl

theorem feed_cons (p : StreamingPatchParser) (c : Char) (rest : Str) : p.feed (c :: rest) =
      match p.pushChar c with
      | .error e => .error e
      | .ok q => q.feed rest := by
  rw [feed, foldlM_cons]
  cases p.pushChar c <;> rfl

theorem feed_line (h : '\n' ∉ line) (hp : p.lineBuffer = []) (rest : Str) :
    p.feed (line ++ '\n' :: rest) =
      match p.nextLine (stripCr line) with
      | .error e => .error e
      | .ok q => q.feed rest := by
  have hbuf : line.foldlM pushChar p = .ok { p with lineBuffer := line } := by
    rw [foldlM_pushChar_of_not_mem h, hp, List.nil_append]
  have happend : p.feed (line ++ '\n' :: rest) =
      { p with lineBuffer := line }.feed ('\n' :: rest) := by
    rw [feed, foldlM_append, hbuf]
    rfl
  rw [happend, feed_cons, pushChar]
  rfl

/-- A text is accepted when its lines are read and what follows them is accepted. -/
theorem feed_joinLines {ls : List Str} (hls : ∀ l ∈ ls, '\n' ∉ l) (hp : p.lineBuffer = [])
    (last : Str) (out : List Hunk) :
    p.feed (joinLines (ls ++ [last])) = .ok out ↔
      ∃ q, Run StreamStep p (ls.map stripCr) q ∧ q.feed last = .ok out := by
  induction ls generalizing p with
  | nil =>
    constructor
    · intro h
      exact ⟨p, .nil p, h⟩
    · rintro ⟨q, ⟨⟩, h⟩
      exact h
  | cons l ls ih =>
    rw [joinLines_cons_concat, feed_line (hls l (by simp)) hp]
    cases hn : p.nextLine (stripCr l) with
    | error e =>
      constructor
      · intro h
        cases h
      · rintro ⟨q, _ | ⟨h, -⟩, -⟩
        rw [StreamStep, hn] at h
        cases h
    | ok r =>
      have hr := nextLine_lineBuffer hn
      rw [ih (fun k hk => hls k (by simp [hk])) hr]
      constructor
      · rintro ⟨q, hrun, hq⟩
        exact ⟨q, .cons hn hrun, hq⟩
      · rintro ⟨q, _ | ⟨h, hrun⟩, hq⟩
        rw [StreamStep, hn, Except.ok.injEq] at h
        subst h
        exact ⟨q, hrun, hq⟩

/-- Whitespace behind the end marker changes nothing. -/
theorem feed_ended {w : Str} (hm : p.mode = .endedPatch) (hb : Blank p.lineBuffer) (hw : Blank w) :
    p.feed w = .ok p.hunks := by
  induction w generalizing p with
  | nil =>
    have hne : trim p.lineBuffer ≠ endPatchMarker := by
      rw [trim_eq_nil.mpr hb]
      decide
    change p.finish = _
    rw [finish, finishLine]
    by_cases hbuf : p.lineBuffer.isEmpty
    · simp [hbuf, hm]
    · simp [hbuf, hne, processLine, hm]
  | cons c w ih =>
    have hwc : isWhitespace c = true := hw c (by simp)
    have hw' : Blank w := fun d hd => hw d (by simp [hd])
    by_cases hc : c = '\n'
    · have hpush : p.pushChar c =
          .ok { p with lineBuffer := [], lineNumber := p.lineNumber + 1 } := by
        rw [pushChar, if_pos hc, nextLine, processLine]
        simp [hm]
      rw [feed_cons, hpush]
      exact ih hm (by simp [Blank]) hw'
    · rw [feed_cons, pushChar, if_neg hc]
      refine ih hm ?_ hw'
      intro d hd
      rcases mem_append.mp hd with h | h
      · exact hb d h
      · rw [mem_singleton.mp h, hwc]

end StreamingPatchParser

variable (text : Str)

/-- The lines between the two markers. -/
def hunkLines : List Str := (lines (trim text)).tail.dropLast

/-- The line of the end marker, as the batch parser sees it. -/
def endLine : Str := (lines (trim text)).getLast?.getD []

/-- It does not follow an update hunk, or is not ended by a line feed, or is not indented. -/
def EndRecognized : Prop :=
  (hunkLines text).foldl Place.next .outside = .outside ∨ '\n' ∉ trailing text ∨
    trimStart (endLine text) = endLine text

instance (text : Str) : Decidable (EndRecognized text) := inferInstanceAs (Decidable (_ ∨ _ ∨ _))

def StreamsAlike : Prop :=
  '\n' ∉ leading text ∧ NoDrift .outside (hunkLines text) ∧ EndRecognized text

instance (text : Str) : Decidable (StreamsAlike text) := inferInstanceAs (Decidable (_ ∧ _ ∧ _))

section
variable {p q r : StreamingPatchParser} {t : LineState} {e w : Str} {out : List Hunk}

/-- An update hunk is being read and only whitespace has arrived or is still to come. -/
def AwaitsLine (n : ℕ) (w : Str) (p : StreamingPatchParser) : Prop :=
  Blank w ∧ Blank p.lineBuffer ∧ p.mode = .updateFile n

theorem AwaitsLine.pushChar {n : ℕ} {c : Char} (h : AwaitsLine n (c :: w) p)
    (hq : p.pushChar c = .ok q) : AwaitsLine n w q := by
  obtain ⟨hw, hb, hm⟩ := h
  refine ⟨fun d hd => hw d (by simp [hd]), ?_⟩
  by_cases hc : c = '\n'
  · rw [StreamingPatchParser.pushChar, if_pos hc] at hq
    have hblank : Blank (stripCr p.lineBuffer) := by
      rwa [← trim_eq_nil, trim_stripCr, trim_eq_nil]
    refine ⟨?_, (processLine_blank (by exact hm) hblank hq).1⟩
    rw [nextLine_lineBuffer hq]
    exact fun d hd => absurd hd (by simp)
  · rw [StreamingPatchParser.pushChar, if_neg hc] at hq
    cases hq
    exact ⟨forall_mem_append.mpr ⟨hb, forall_mem_singleton.mpr (hw c (by simp))⟩, hm⟩

/-- Whitespace cannot end a patch while an update hunk is read. -/
theorem feed_update_ne_ok {n : ℕ} (hp : AwaitsLine n w p) : p.feed w ≠ .ok out := by
  intro h
  unfold feed at h
  cases hf : w.foldlM pushChar p with
  | error e => simp [hf] at h
  | ok q =>
    obtain ⟨-, hbq, hmq⟩ := (foldlM_eq_ok_iff.mp hf).invariant
      (fun c w p q h hq => h.pushChar hq) hp
    have hne : trim q.lineBuffer ≠ endPatchMarker := by
      rw [trim_eq_nil.mpr hbq]
      decide
    simp only [hf, finish, finishLine] at h
    by_cases hbuf : q.lineBuffer.isEmpty
    · simp [hbuf, hmq] at h
    · simp only [hbuf, hne] at h
      cases hl : processLine
          { q with lineBuffer := [], lineNumber := q.lineNumber + 1 } q.lineBuffer with
      | error e => simp [hl] at h
      | ok r =>
        have hr := (processLine_blank (by exact hmq) hbq hl).1
        simp [hl, hr] at h

/-- A final line without line feed that is the end marker closes the patch. -/
theorem feed_end_of_not_mem (hp : p.lineBuffer = []) (he : trim e = endPatchMarker)
    (hnl : '\n' ∉ e) :
    p.feed e = match ensureUpdateHunkIsNotEmpty
        { p with lineBuffer := [], lineNumber := p.lineNumber + 1 } endPatchMarker with
      | .error err => .error err
      | .ok () => .ok p.hunks := by
  have hne : e.isEmpty = false := by
    cases e with
    | nil => cases he
    | cons c e => rfl
  rw [feed_of_not_mem hnl hp, finish, finishLine]
  simp only [hne, he]
  cases ensureUpdateHunkIsNotEmpty
      { p with lineBuffer := [], lineNumber := p.lineNumber + 1 } endPatchMarker with
  | error err => rfl
  | ok u => rfl

theorem processLine_end_cases {x : Str} (hf : Follows t p.mode) (hx : trim x = endPatchMarker)
    (h : p.processLine x = .ok r) :
    (t.place = .outside ∨ trimEnd x = endPatchMarker) ∧ r = { p with mode := .endedPatch } ∨
      t.place ≠ .outside ∧ trimEnd x ≠ endPatchMarker ∧ ∃ n, r.mode = .updateFile n := by
  by_cases hplace : t.place = .outside
  · refine .inl ⟨.inl hplace, ?_⟩
    rcases processLine_outside_cases (hf.outside hplace) h with ⟨-, rfl⟩ | ⟨hunk, hh, -⟩ |
      ⟨-, hs, path, contents, text, -, rfl, -⟩
    · rfl
    · rw [hx] at hh
      cases hh
    · exact absurd hx (trimEnd_diffLine_ne_end rfl)
  · obtain ⟨n, hm⟩ := hf.update hplace
    rcases processLine_update_cases hm h with ⟨hend, rfl⟩ | ⟨hunk, hh, -⟩ |
      ⟨-, hne, hs, path, movePath, chunks, movePath', chunks', -, rfl, -⟩
    · exact .inl ⟨.inr hend, rfl⟩
    · obtain ⟨c, s, hs, -⟩ := headerHunk_start hh
      obtain ⟨w, -, hw⟩ := trimEnd_spec x
      rw [hs] at hw
      rw [hw, cons_append, trim_cons (by decide), ← cons_append, ← hw] at hx
      rw [hx] at hh
      cases hh
    · exact .inr ⟨hplace, hne, n, hm⟩

theorem trimEnd_eq_end_iff (he : trim e = endPatchMarker) :
    trimEnd e = endPatchMarker ↔ trimStart e = e := by
  constructor
  · intro h
    obtain ⟨w, -, hw⟩ := trimEnd_spec e
    rw [h, endPatchMarker, cons_append] at hw
    rw [hw, trimStart_cons_of_not (by decide)]
  · intro h
    rwa [trim, h] at he

/-- With a line feed behind it, the marker and the blanks before that are a line. -/
theorem exists_end_line (he : trim e = endPatchMarker) (hw : Blank w) (hmem : '\n' ∈ w) :
    ∃ w₀ w₁, w = w₀ ++ '\n' :: w₁ ∧ '\n' ∉ w₀ ∧ Blank w₁ ∧
      trim (stripCr (e ++ w₀)) = endPatchMarker ∧ trimEnd (stripCr (e ++ w₀)) = trimEnd e := by
  obtain ⟨w₀, w₁, rfl, hw₀⟩ := eq_append_cons_of_mem hmem
  have hb₀ : Blank w₀ := fun c hc => hw c (by simp [hc])
  refine ⟨w₀, w₁, rfl, hw₀, fun c hc => hw c (by simp [hc]), ?_, ?_⟩
  · rw [trim_stripCr, trim_append_of_blank _ _ hb₀, he]
  · rw [trimEnd_stripCr, trimEnd_append_of_blank _ _ hb₀]

/-- The marker in a line of its own ends the patch unless it is an indented line of an
update hunk. -/
theorem feed_end_cases (hf : Follows t q.mode) (hq : q.lineBuffer = [])
    (he : trim e = endPatchMarker) (hnl : '\n' ∉ e) (hw : Blank w) (h : q.feed (e ++ w) = .ok out) :
    out = q.hunks ∧ (t.place = .outside ∨ '\n' ∉ w ∨ trimStart e = e) := by
  by_cases hmem : '\n' ∈ w
  · obtain ⟨w₀, w₁, rfl, hw₀, hb₁, hx, hxe⟩ := exists_end_line he hw hmem
    rw [← append_assoc, feed_line (by simp [hnl, hw₀]) hq] at h
    cases hr : q.nextLine (stripCr (e ++ w₀)) with
    | error err => simp [hr] at h
    | ok r =>
      have hbuf := nextLine_lineBuffer hr
      simp only [hr] at h
      rcases processLine_end_cases (by exact hf) hx hr with ⟨hcond, hr⟩ | ⟨-, -, n, hm⟩
      · rw [feed_ended (by rw [hr]) (by simp [hbuf, Blank]) hb₁] at h
        cases h
        refine ⟨by rw [hr], hcond.imp id fun h => .inr ?_⟩
        rwa [hxe, trimEnd_eq_end_iff he] at h
      · exact absurd h (feed_update_ne_ok ⟨hb₁, by simp [hbuf, Blank], hm⟩)
  · rw [feed_end_of_not_mem hq (by rw [trim_append_of_blank _ _ hw, he]) (by simp [hnl, hmem])] at h
    split at h
    · cases h
    · cases h
      exact ⟨rfl, .inr (.inl hmem)⟩

theorem processLine_end {x : Str} (hf : Follows t p.mode) (hc : LastComplete p.hunks)
    (hx : trim x = endPatchMarker) (hcond : t.place = .outside ∨ trimEnd x = endPatchMarker) :
    p.processLine x = .ok { p with mode := .endedPatch } := by
  have hhandle : p.handleHunkHeadersAndEndPatch endPatchMarker =
      .ok (some { p with mode := .endedPatch }) := by
    rw [handle_end, ensure_ok hc]
  by_cases hplace : t.place = .outside
  · rcases hf.outside hplace with hm | hm | hm <;> simp [processLine, hm, hx, hhandle]
  · obtain ⟨n, hm⟩ := hf.update hplace
    simp [processLine, hm, hcond.resolve_left hplace, hhandle]

theorem feed_end_ok (hf : Follows t q.mode) (hc : LastComplete q.hunks) (hq : q.lineBuffer = [])
    (he : trim e = endPatchMarker) (hnl : '\n' ∉ e) (hw : Blank w)
    (hcond : t.place = .outside ∨ '\n' ∉ w ∨ trimStart e = e) :
    q.feed (e ++ w) = .ok q.hunks := by
  by_cases hmem : '\n' ∈ w
  · obtain ⟨w₀, w₁, rfl, hw₀, hb₁, hx, hxe⟩ := exists_end_line he hw hmem
    have hends : t.place = .outside ∨ trimEnd (stripCr (e ++ w₀)) = endPatchMarker := by
      rw [hxe, trimEnd_eq_end_iff he]
      exact hcond.imp id fun h => h.resolve_left (not_not_intro hmem)
    have hnext := processLine_end (p := { q with lineBuffer := [], lineNumber := q.lineNumber + 1 })
      (by exact hf) (by exact hc) hx hends
    rw [← append_assoc, feed_line (by simp [hnl, hw₀]) hq, nextLine, hnext]
    exact feed_ended rfl (by simp [Blank]) hb₁
  · rw [feed_end_of_not_mem hq (by rw [trim_append_of_blank _ _ hw, he]) (by simp [hnl, hmem]),
      ensure_ok (by exact hc)]

end

theorem checkStartAndEndLinesStrict_ok {first last : Option Str}
    (h : checkStartAndEndLinesStrict first last = .ok ()) :
    first.map trim = some beginPatchMarker ∧ last.map trim = some endPatchMarker := by
  unfold checkStartAndEndLinesStrict at h
  split at h
  · rename_i a b ha hb
    split_ifs at h with hm
    rw [ha, hb, hm.1, hm.2]
    exact ⟨rfl, rfl⟩
  · split_ifs at h
  · cases h

theorem strict_text {text : Str} {args : ApplyPatchArgs}
    (h : parsePatchText text .strict = .ok args) :
    ∃ f ms e, trim text = joinLines (f :: ms ++ [e]) ∧ (∀ l ∈ f :: ms ++ [e], '\n' ∉ l) ∧
      lines (trim text) = stripCr f :: ms.map stripCr ++ [e] ∧
      trim f = beginPatchMarker ∧ trim e = endPatchMarker ∧
      parseHunks 2 [] (ms.map stripCr) = .ok args.hunks := by
  obtain ⟨ls, last, hjoin, hls⟩ := exists_joinLines (trim text)
  simp only [parsePatchText, checkPatchBoundariesStrict] at h
  cases hc : checkStartAndEndLinesStrict (lines (trim text)).head? (lines (trim text)).getLast? with
  | error e => simp [hc] at h
  | ok u =>
    obtain ⟨hfirst, hend⟩ := checkStartAndEndLinesStrict_ok hc
    simp only [hc] at h
    cases hp : parseHunks 2 [] (lines (trim text)).tail.dropLast with
    | error e => simp [hp] at h
    | ok hunks =>
      simp only [hp, Except.ok.injEq] at h
      subst h
      have hlast : last ≠ [] := by
        rintro rfl
        cases ls with
        | nil =>
          rw [hjoin] at hfirst
          cases hfirst
        | cons l ls =>
          obtain ⟨m, hm⟩ := joinLines_concat l ls []
          have hidem : trimEnd (trim text) = trim text := by rw [trim, trimEnd_trimEnd]
          rw [hjoin, hm, trimEnd_append_of_blank m ['\n'] (by decide)] at hidem
          have := congrArg length hidem
          obtain ⟨w, -, hw⟩ := trimEnd_spec m
          have hlen := congrArg length hw
          simp only [length_append, length_cons] at this hlen
          omega
      have hlines := lines_joinLines ls last hlast hls
      rw [← hjoin] at hlines
      cases ls with
      | nil =>
        rw [hlines] at hfirst hend
        simp only [map_nil, nil_append, head?_cons, getLast?_singleton] at hfirst hend
        rw [hfirst] at hend
        exact absurd hend (by decide)
      | cons f ms =>
        rw [hlines] at hfirst hend hp
        refine ⟨f, ms, last, hjoin, hls, hlines, ?_, ?_, ?_⟩
        · simpa [trim_stripCr] using hfirst
        · rw [getLast?_concat] at hend
          simpa using hend
        · simpa using hp

theorem run_place {s t : LineState} {ls : List Str} (h : Run LineStep s ls t) :
    t.place = ls.foldl Place.next s.place := by
  induction h with
  | nil => rfl
  | cons hstep _ ih => rw [ih, hstep.place_next, foldl_cons]

theorem feed_new_of_mem {u rest : Str} {out : List Hunk} (hu : Blank u) (hmem : '\n' ∈ u) :
    new.feed (u ++ rest) ≠ .ok out := by
  obtain ⟨u₀, u₁, rfl, hu₀⟩ := eq_append_cons_of_mem hmem
  have hblank : trim (stripCr u₀) = [] := by
    rw [trim_stripCr, trim_eq_nil]
    exact fun c hc => hu c (by simp [hc])
  have hne : trim (stripCr u₀) ≠ beginPatchMarker := by
    rw [hblank]
    decide
  have hfirst : new.nextLine (stripCr u₀) = .error (.invalidPatchError firstLineMessage) := by
    simp [nextLine, processLine, new, hne]
  rw [append_assoc, cons_append, feed_line hu₀ rfl, hfirst]
  intro h
  cases h

theorem nextLine_new {l : Str} (h : trim l = beginPatchMarker) :
    ∃ p, new.nextLine l = .ok p ∧ Tracks ⟨[], .outside⟩ p := by
  refine ⟨⟨[], .startedPatch, [], 1⟩, ?_, ?_, rfl⟩
  · simp [nextLine, processLine, new, h]
  · simp [Follows]

/-- However the text is cut into deltas, the streaming parser returns the same hunks exactly when
the text streams alike. -/
theorem parseDeltas_eq_ok_iff {text : Str} {args : ApplyPatchArgs}
    (h : parsePatchText text .strict = .ok args) {deltas : List Str}
    (hdeltas : deltas.flatten = text) :
    parseDeltas deltas = .ok args.hunks ↔ StreamsAlike text := by
  obtain ⟨f, ms, e, hjoin, hnl, hlines, hbegin, hend, hparse⟩ := strict_text h
  have hhunks : hunkLines text = ms.map stripCr := by simp [hunkLines, hlines]
  have hlast : endLine text = e := by rw [endLine, hlines, getLast?_concat]; rfl
  obtain ⟨place, hcomplete, hrun⟩ := parseHunks_run hparse (.inl rfl) (fun hp => absurd rfl hp)
  have hplace : place = (hunkLines text).foldl Place.next .outside := by
    rw [hhunks]
    exact run_place hrun
  have htext : text = leading text ++ joinLines (f :: ms ++ [e ++ trailing text]) := by
    rw [joinLines_append, ← hjoin, ← append_assoc]
    exact trim_spec text
  have hnle : '\n' ∉ e := hnl e (by simp)
  rw [parseDeltas_eq_feed, hdeltas, StreamsAlike, EndRecognized, ← hplace, hhunks, hlast]
  by_cases hu : '\n' ∈ leading text
  · constructor
    · intro hok
      rw [htext] at hok
      exact absurd hok (feed_new_of_mem (blank_leading text) hu)
    · exact fun hs => absurd hu hs.1
  · have hcons : text = joinLines ((leading text ++ f) :: ms ++ [e ++ trailing text]) := by
      conv_lhs => rw [htext]
      rw [joinLines_cons_concat, joinLines_cons_concat, append_assoc]
    have hnl' : ∀ l ∈ (leading text ++ f) :: ms, '\n' ∉ l := by
      intro l hl
      rcases mem_cons.mp hl with rfl | hl
      · simp [hu, hnl f (by simp)]
      · exact hnl l (by simp [hl])
    obtain ⟨p, hp, htracks⟩ := nextLine_new (l := stripCr (leading text ++ f))
      (by rw [trim_stripCr, trim_blank_append _ _ (blank_leading text), hbegin])
    rw [hcons, feed_joinLines hnl' rfl, ← hcons]
    constructor
    · rintro ⟨q, _ | ⟨hfirst, hrest⟩, hok⟩
      rw [StreamStep, hp, Except.ok.injEq] at hfirst
      subst hfirst
      have hbuf := run_lineBuffer hrest (nextLine_lineBuffer hp)
      obtain ⟨hfollows, hnodrift⟩ := noDrift_of_run hrun hrest htracks
      obtain ⟨hout, hcond⟩ := feed_end_cases hfollows hbuf hend hnle (blank_trailing text) hok
      exact ⟨hu, hnodrift hout.symm, hcond⟩
    · rintro ⟨-, hnodrift, hcond⟩
      obtain ⟨q, hrest, htq⟩ := run_of_noDrift hrun htracks hnodrift
      have hbuf := run_lineBuffer hrest (nextLine_lineBuffer hp)
      refine ⟨q, .cons hp hrest, ?_⟩
      rw [feed_end_ok htq.1 (hcomplete.lastComplete htq) hbuf hend hnle (blank_trailing text) hcond,
        htq.2]

/-- A patch whose context line follows its header, cut in the middle of a line. -/
def plainDeltas : List Str :=
  ["*** Begin Patch\n*** Upd".toList, "ate File: a\n@@\n-x\n+y\n*** End Patch\n".toList]

def plainArgs : ApplyPatchArgs :=
  ⟨"*** Begin Patch\n*** Update File: a\n@@\n-x\n+y\n*** End Patch".toList,
    [.updateFile ['a'] none [⟨none, [['x']], [['y']], false⟩]], none⟩

theorem parseDeltas_plainDeltas :
    parsePatchText plainDeltas.flatten .strict = .ok plainArgs ∧
      parseDeltas plainDeltas = .ok plainArgs.hunks := by
  have h : parsePatchText plainDeltas.flatten .strict = .ok plainArgs := by decide +kernel
  exact ⟨h, (parseDeltas_eq_ok_iff h rfl).mpr (by decide +kernel)⟩

/-- The same patch with an empty line before its first chunk. -/
def driftingPatch : Str :=
  "*** Begin Patch\n*** Update File: a\n\n@@\n-x\n+y\n*** End Patch".toList

def driftingArgs : ApplyPatchArgs :=
  ⟨driftingPatch, [.updateFile ['a'] none [⟨none, [['x']], [['y']], false⟩]], none⟩

/-- The batch parser skips the empty line; the streaming parser makes a chunk of it. -/
theorem parseDeltas_driftingPatch :
    parsePatchText driftingPatch .strict = .ok driftingArgs ∧
      parseDeltas [driftingPatch] = .ok [.updateFile ['a'] none
        [⟨none, [[]], [[]], false⟩, ⟨none, [['x']], [['y']], false⟩]] ∧
      parseDeltas [driftingPatch] ≠ .ok driftingArgs.hunks := by
  refine ⟨by decide +kernel, by decide +kernel, by decide +kernel⟩

end CodexRs.ApplyPatch
