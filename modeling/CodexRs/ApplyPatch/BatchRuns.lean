import CodexRs.ApplyPatch.Streaming
import CodexRs.Library.Run

/-!
# Accepted patches as runs of line steps

A state holds the hunks read so far and the place of the next line in the last of them. For each
loop of the batch parser: if it succeeds, the lines it used are a run of line steps to the hunks it
returned.
-/
namespace CodexRs.ApplyPatch
open Text Machine UpdateFileChunk

/-- Where a line stands: between hunks or in an added file, or in an update hunk before
its first chunk, in a chunk, or behind one. -/
inductive Place where
  | outside
  | beforeChunk
  | inChunk
  | afterChunk
deriving DecidableEq

/-- The place behind a line that an update hunk skips. -/
def Place.skip : Place → Place
  | .inChunk => .afterChunk
  | place => place

def Hunk.place : Hunk → Place
  | .updateFile _ _ _ => .beforeChunk
  | _ => .outside

/-- The hunk that a trimmed header line opens. -/
def headerHunk (trimmed : Str) : Option Hunk :=
  match stripPrefix addFileMarker trimmed with
  | some path => some (.addFile path [])
  | none => match stripPrefix deleteFileMarker trimmed with
    | some path => some (.deleteFile path)
    | none => match stripPrefix updateFileMarker trimmed with
      | some path => some (.updateFile path none [])
      | none => none

/-- The line is one of a chunk: empty, or marked as context, added or removed. -/
def isDiffLine : Str → Bool
  | [] => true
  | c :: _ => c ∈ [' ', '+', '-']

structure LineState where
  hunks : List Hunk
  place : Place

/-- The last hunk is an update to which nothing needs to be added. -/
def LineState.Closed (s : LineState) : Prop :=
  s.place ≠ .outside ∧ ∃ hs path movePath chunks,
    s.hunks = hs ++ [.updateFile path movePath chunks] ∧ chunks ≠ [] ∧
      lastChunkIsEmpty chunks = false

def LineState.Complete (s : LineState) : Prop := s.place = .outside ∨ s.Closed

def Skipped (place : Place) (line : Str) : Prop :=
  place ≠ .outside ∧ Blank line ∧ (place = .inChunk → isDiffLine line = false)

inductive LineStep : LineState → Str → LineState → Prop
  | header {s line hunk} :
      s.place = .outside ∨ s.Closed ∧ startsWith line ['*'] = true →
      headerHunk (trim line) = some hunk →
      LineStep s line ⟨s.hunks ++ [hunk], hunk.place⟩
  | addedLine {hs path contents text} :
      LineStep ⟨hs ++ [.addFile path contents], .outside⟩ ('+' :: text)
        ⟨hs ++ [.addFile path (contents ++ text ++ ['\n'])], .outside⟩
  | move {hs path dest} :
      LineStep ⟨hs ++ [.updateFile path none []], .beforeChunk⟩ (moveToMarker ++ dest)
        ⟨hs ++ [.updateFile path (some dest) []], .beforeChunk⟩
  | skip {hs path movePath chunks place line} : Skipped place line →
      LineStep ⟨hs ++ [.updateFile path movePath chunks], place⟩ line
        ⟨hs ++ [.updateFile path movePath chunks], place.skip⟩
  | emptyContext {hs path movePath chunks place} :
      place ≠ .outside → lastChunkIsEmpty chunks = false →
      LineStep ⟨hs ++ [.updateFile path movePath chunks], place⟩ emptyChangeContextMarker
        ⟨hs ++ [.updateFile path movePath (chunks ++ [.opened none])], .inChunk⟩
  | context {hs path movePath chunks place text} :
      place ≠ .outside → lastChunkIsEmpty chunks = false →
      LineStep ⟨hs ++ [.updateFile path movePath chunks], place⟩ (changeContextMarker ++ text)
        ⟨hs ++ [.updateFile path movePath (chunks ++ [.opened (some text)])], .inChunk⟩
  | firstLine {hs path movePath chunk line} :
      ¬ Blank line → (UpdateFileChunk.opened none).addLine line = some chunk →
      LineStep ⟨hs ++ [.updateFile path movePath []], .beforeChunk⟩ line
        ⟨hs ++ [.updateFile path movePath [chunk]], .inChunk⟩
  | chunkLine {hs path movePath chunks chunk chunk' line} :
      chunk.addLine line = some chunk' →
      LineStep ⟨hs ++ [.updateFile path movePath (chunks ++ [chunk])], .inChunk⟩ line
        ⟨hs ++ [.updateFile path movePath (chunks ++ [chunk'])], .inChunk⟩
  | eof {hs path movePath chunks chunk} :
      chunk.isEmpty = false →
      LineStep ⟨hs ++ [.updateFile path movePath (chunks ++ [chunk])], .inChunk⟩ eofMarker
        ⟨hs ++ [.updateFile path movePath (chunks ++ [{ chunk with isEndOfFile := true }])],
          .afterChunk⟩

@[simp] theorem lastChunkIsEmpty_concat (chunks : List UpdateFileChunk) (chunk : UpdateFileChunk) :
    lastChunkIsEmpty (chunks ++ [chunk]) = chunk.isEmpty := by
  simp [lastChunkIsEmpty]

theorem addLine_isSome (chunk : UpdateFileChunk) (line : Str) :
    (chunk.addLine line).isSome = isDiffLine line := by
  unfold addLine isDiffLine
  split <;> simp_all

variable {line : Str}

theorem addLine_eq_none {chunk : UpdateFileChunk} :
    chunk.addLine line = none ↔ isDiffLine line = false := by
  rw [← addLine_isSome chunk line]
  simp

variable {chunk chunk' : UpdateFileChunk}

theorem isDiffLine_of_addLine (h : chunk.addLine line = some chunk') : isDiffLine line = true := by
  rw [← addLine_isSome chunk line, h]
  rfl

theorem isEmpty_of_addLine (h : chunk.addLine line = some chunk') : chunk'.isEmpty = false := by
  unfold addLine at h
  split at h <;> cases h <;> simp [isEmpty]

open LineState List

/-- The place behind a chunk, of which the lines `rest` are left unread. -/
def ChunkDone (place : Place) (rest : List Str) : Prop :=
  place = .afterChunk ∨ place = .inChunk ∧ ∀ line ∈ rest.head?, isDiffLine line = false

theorem ChunkDone.head {place : Place} {rest : List Str} (h : ChunkDone place rest)
    (hp : place = .inChunk) : ∀ line ∈ rest.head?, isDiffLine line = false := by
  rcases h with rfl | h
  · cases hp
  · exact h.2

variable {n k m : ℕ} {ls : List Str} {c c' : UpdateFileChunk} {cs cs' : List UpdateFileChunk}
  (hs : List Hunk) (path : PathBuf) (movePath : Option PathBuf)

theorem chunkLines_run (cs : List UpdateFileChunk) (h : chunkLines n c k ls = .ok (c', m))
    (hk : k = 0 ↔ c.isEmpty = true) (hne : k = 0 → ls ≠ []) :
    ∃ used rest place, ls = used ++ rest ∧ m = k + used.length ∧ c'.isEmpty = false ∧
      ChunkDone place rest ∧
      Run LineStep ⟨hs ++ [.updateFile path movePath (cs ++ [c])], .inChunk⟩ used
        ⟨hs ++ [.updateFile path movePath (cs ++ [c'])], place⟩ := by
  induction ls generalizing c k with
  | nil =>
    have hk0 : k ≠ 0 := fun h0 => hne h0 rfl
    cases h
    exact ⟨[], [], .inChunk, rfl, rfl, by simpa [hk0] using hk, .inr ⟨rfl, by simp⟩, .nil _⟩
  | cons line ls ih =>
    rw [chunkLines] at h
    by_cases heof : line = eofMarker
    · split_ifs at h with hk0
      cases h
      have hc : c.isEmpty = false := by simpa [hk0] using hk
      subst heof
      exact ⟨[eofMarker], ls, .afterChunk, rfl, rfl, hc, .inl rfl, .single (.eof hc)⟩
    · rw [if_neg heof] at h
      cases ha : c.addLine line with
      | some d =>
        rw [ha] at h
        have hd := isEmpty_of_addLine ha
        obtain ⟨used, rest, place, hls, hm, hc', hdone, hrun⟩ := ih h (by simp [hd]) (by simp)
        refine ⟨line :: used, rest, place, by rw [hls, cons_append], ?_, hc', hdone,
          .cons (.chunkLine ha) hrun⟩
        simp only [length_cons]
        omega
      | none =>
        rw [ha] at h
        split_ifs at h with hk0
        cases h
        refine ⟨[], line :: ls, .inChunk, rfl, rfl, by simpa [hk0] using hk, .inr ⟨rfl, ?_⟩, .nil _⟩
        simpa using addLine_eq_none.mp ha

theorem chunkHeader_cases {allow : Bool} {context : Option Str} {i : ℕ}
    (h : chunkHeader line n allow = .ok (context, i)) :
    (line = emptyChangeContextMarker ∧ context = none ∧ i = 1) ∨
      (∃ text, line = changeContextMarker ++ text ∧ context = some text ∧ i = 1) ∨
      (allow = true ∧ context = none ∧ i = 0) := by
  unfold chunkHeader at h
  by_cases hempty : line = emptyChangeContextMarker
  · rw [if_pos hempty] at h
    cases h
    exact .inl ⟨hempty, rfl, rfl⟩
  · rw [if_neg hempty] at h
    cases hs : stripPrefix changeContextMarker line with
    | some text =>
      rw [hs] at h
      cases h
      exact .inr (.inl ⟨text, stripPrefix_eq_some.mp hs, rfl, rfl⟩)
    | none =>
      rw [hs] at h
      split_ifs at h with hallow
      cases h
      exact .inr (.inr ⟨hallow, rfl, rfl⟩)

theorem parseUpdateFileChunk_cases {allow : Bool}
    (h : parseUpdateFileChunk (line :: ls) n allow = .ok (c', m)) :
    ∃ context i parsed, chunkHeader line n allow = .ok (context, i) ∧ i < ls.length + 1 ∧
      chunkLines n (.opened context) 0 ((line :: ls).drop i) = .ok (c', parsed) ∧
      m = parsed + i := by
  rw [parseUpdateFileChunk] at h
  cases hh : chunkHeader line n allow with
  | error e => simp [hh] at h
  | ok r =>
    obtain ⟨context, i⟩ := r
    simp only [hh] at h
    split_ifs at h with hlen
    cases hl : chunkLines n (.opened context) 0 ((line :: ls).drop i) with
    | error e => simp [hl] at h
    | ok r =>
      obtain ⟨d, parsed⟩ := r
      simp only [hl] at h
      obtain ⟨rfl, rfl⟩ := h
      exact ⟨context, i, parsed, rfl, by simpa using hlen, hl, rfl⟩

/-- A chunk whose first line has been read goes on with the lines behind it. -/
theorem chunk_run {s : LineState} (cs : List UpdateFileChunk)
    (hstep : LineStep s line ⟨hs ++ [.updateFile path movePath (cs ++ [c])], .inChunk⟩)
    (h : chunkLines n c k ls = .ok (c', m)) (hk : k = 0 ↔ c.isEmpty = true)
    (hne : k = 0 → ls ≠ []) :
    ∃ used rest place', ls = used ++ rest ∧ m = k + used.length ∧ c'.isEmpty = false ∧
      ChunkDone place' rest ∧
      Run LineStep s (line :: used) ⟨hs ++ [.updateFile path movePath (cs ++ [c'])], place'⟩ := by
  obtain ⟨used, rest, place', hls, hm, hc', hdone, hrun⟩ :=
    chunkLines_run hs path movePath cs h hk hne
  exact ⟨used, rest, place', hls, hm, hc', hdone, .cons hstep hrun⟩

variable {place : Place}

/-- One chunk, read from a place where its header or, as the first chunk, its first
line may stand. -/
theorem parseUpdateFileChunk_run
    (h : parseUpdateFileChunk (line :: ls) n cs.isEmpty = .ok (c', m)) (hline : ¬ Blank line)
    (hplace : place ≠ .outside) (hcs : lastChunkIsEmpty cs = false)
    (hfirst : cs = [] → place = .beforeChunk) :
    ∃ used rest place', ls = used ++ rest ∧ m = 1 + used.length ∧ c'.isEmpty = false ∧
      ChunkDone place' rest ∧
      Run LineStep ⟨hs ++ [.updateFile path movePath cs], place⟩ (line :: used)
        ⟨hs ++ [.updateFile path movePath (cs ++ [c'])], place'⟩ := by
  have hopened (context : Option Str) :
      0 = 0 ↔ (opened context).isEmpty = true := by simp [UpdateFileChunk.isEmpty, opened]
  obtain ⟨context, i, parsed, hheader, hi, hl, rfl⟩ := parseUpdateFileChunk_cases h
  rcases chunkHeader_cases hheader with ⟨rfl, rfl, rfl⟩ | ⟨text, rfl, rfl, rfl⟩ | ⟨hnil, rfl, rfl⟩
  · rw [Nat.add_comm parsed]
    have hls : ls ≠ [] := ne_nil_of_length_pos (by omega)
    obtain ⟨used, rest, place', hr⟩ := chunk_run hs path movePath cs
      (.emptyContext hplace hcs) hl (hopened none) fun _ => hls
    exact ⟨used, rest, place', by simpa using hr⟩
  · rw [Nat.add_comm parsed]
    have hls : ls ≠ [] := ne_nil_of_length_pos (by omega)
    obtain ⟨used, rest, place', hr⟩ := chunk_run hs path movePath cs
      (.context hplace hcs) hl (hopened _) fun _ => hls
    exact ⟨used, rest, place', by simpa using hr⟩
  · have hnil : cs = [] := by simpa using hnil
    subst hnil
    rw [hfirst rfl]
    rw [drop_zero, chunkLines] at hl
    by_cases heof : line = eofMarker
    · simp [heof] at hl
    · rw [if_neg heof] at hl
      cases ha : (opened none).addLine line with
      | none => simp [ha] at hl
      | some d =>
        rw [ha] at hl
        exact chunk_run hs path movePath [] (.firstLine hline ha) hl
          (by simp [isEmpty_of_addLine ha]) (by simp)

/-- The place is one from which the chunks `cs` go on with the lines `ls`. -/
def UpdateReady (place : Place) (cs : List UpdateFileChunk) (ls : List Str) : Prop :=
  place ≠ .outside ∧ (cs = [] → place = .beforeChunk) ∧
    (place = .inChunk → ∀ line ∈ ls.head?, isDiffLine line = false)

theorem updateChunks_run (h : updateChunks n cs k ls = .ok (cs', m))
    (hcs : lastChunkIsEmpty cs = false) (hready : UpdateReady place cs ls) :
    ∃ used rest place', ls = used ++ rest ∧ m = k + used.length ∧
      lastChunkIsEmpty cs' = false ∧ place' ≠ .outside ∧
      (∀ line ∈ rest.head?, startsWith line ['*'] = true) ∧
      Run LineStep ⟨hs ++ [.updateFile path movePath cs], place⟩ used
        ⟨hs ++ [.updateFile path movePath cs'], place'⟩ := by
  obtain ⟨hplace, hfirst, hin⟩ := hready
  induction cs, k, ls using updateChunks.induct n generalizing place with
  | case1 cs k =>
    rw [updateChunks] at h
    cases h
    exact ⟨[], [], place, rfl, rfl, hcs, hplace, by simp, .nil _⟩
  | case2 cs k line ls hblank ih =>
    rw [updateChunks, if_pos hblank] at h
    have hskip : Skipped place line := ⟨hplace, trim_eq_nil.mp hblank, fun hp => hin hp line rfl⟩
    obtain ⟨used, rest, place', hls, hm, hr⟩ := @ih place.skip h hcs
      (by cases place <;> simp_all [Place.skip]) (fun hc => by rw [hfirst hc]; rfl)
      (by cases place <;> simp [Place.skip])
    exact ⟨line :: used, rest, place', by rw [hls, cons_append],
      by simp only [length_cons]; omega, hr.1, hr.2.1, hr.2.2.1, .cons (.skip hskip) hr.2.2.2⟩
  | case3 cs k line ls hblank hstar =>
    rw [updateChunks, if_neg hblank, if_pos hstar] at h
    cases h
    exact ⟨[], line :: ls, place, rfl, rfl, hcs, hplace, by simpa using hstar, .nil _⟩
  | case4 cs k line ls hblank hstar e he =>
    rw [updateChunks, if_neg hblank, if_neg hstar, he] at h
    cases h
  | case5 cs k line ls hblank hstar c i hc ih =>
    rw [updateChunks, if_neg hblank, if_neg hstar, hc] at h
    obtain ⟨used, rest, place', hls, hm, hc', hdone, hrun⟩ :=
      parseUpdateFileChunk_run hs path movePath hc (fun hb => hblank (trim_eq_nil.mpr hb)) hplace
        hcs hfirst
    have hdrop : ls.drop (i - 1) = rest := by rw [hm, hls]; simp
    simp only [hdrop] at h ih
    obtain ⟨used', rest', place'', hls', hm', hr⟩ := @ih place' h (by simp [hc'])
      (by rcases hdone with hd | hd <;> simp [hd]) (by simp) hdone.head
    refine ⟨line :: used ++ used', rest', place'', ?_, ?_, hr.1, hr.2.1, hr.2.2.1,
      hrun.append hr.2.2.2⟩
    · rw [hls, hls', append_assoc, cons_append]
    · simp only [length_cons, length_append]
      omega

theorem addLines_run {contents contents' : Str} (h : addLines contents k ls = (contents', m)) :
    ∃ used rest, ls = used ++ rest ∧ m = k + used.length ∧
      Run LineStep ⟨hs ++ [Hunk.addFile path contents], .outside⟩ used
        ⟨hs ++ [Hunk.addFile path contents'], .outside⟩ := by
  induction ls generalizing contents k with
  | nil =>
    cases h
    exact ⟨[], [], rfl, rfl, .nil _⟩
  | cons line ls ih =>
    rw [addLines] at h
    cases hp : stripPrefix ['+'] line with
    | none =>
      rw [hp] at h
      cases h
      exact ⟨[], line :: ls, rfl, rfl, .nil _⟩
    | some text =>
      rw [hp] at h
      obtain ⟨used, rest, hls, hm, hrun⟩ := ih h
      rw [stripPrefix_eq_some.mp hp]
      refine ⟨('+' :: text) :: used, rest, by rw [hls]; rfl, ?_, .cons .addedLine hrun⟩
      simp only [length_cons]
      omega

/-- The lines behind the header of an update hunk. -/
theorem parseUpdateHunk_run {hunk : Hunk} (h : parseUpdateHunk path ls n = .ok (hunk, m)) :
    ∃ used rest place, ls = used ++ rest ∧ m = 1 + used.length ∧ Closed ⟨hs ++ [hunk], place⟩ ∧
      (∀ line ∈ rest.head?, startsWith line ['*'] = true) ∧
      Run LineStep ⟨hs ++ [.updateFile path none []], .beforeChunk⟩ used ⟨hs ++ [hunk], place⟩ := by
  have hready (ls : List Str) : UpdateReady .beforeChunk [] ls := ⟨by decide, by simp, by simp⟩
  unfold parseUpdateHunk at h
  cases hm : moveLine ls with
  | none =>
    simp only [hm, Option.isSome_none, Bool.false_eq_true, if_false, drop_zero] at h
    cases hu : updateChunks n [] (1 + 0) ls with
    | error e => simp [hu] at h
    | ok r =>
      obtain ⟨chunks, parsed⟩ := r
      simp only [hu] at h
      split_ifs at h with hne
      cases h
      obtain ⟨used, rest, place, hls, hlen, hlast, hplace, hrest, hrun⟩ :=
        updateChunks_run hs path none hu rfl (hready ls)
      exact ⟨used, rest, place, hls, by omega,
        ⟨hplace, hs, path, none, chunks, rfl, by simpa using hne, hlast⟩, hrest, hrun⟩
  | some dest =>
    cases ls with
    | nil => simp [moveLine] at hm
    | cons line ls =>
      simp only [hm, Option.isSome_some, if_true, drop_one, tail_cons] at h
      have hline : line = moveToMarker ++ dest := stripPrefix_eq_some.mp hm
      cases hu : updateChunks n [] (1 + 1) ls with
      | error e => simp [hu] at h
      | ok r =>
        obtain ⟨chunks, parsed⟩ := r
        simp only [hu] at h
        split_ifs at h with hne
        cases h
        obtain ⟨used, rest, place, hls, hlen, hlast, hplace, hrest, hrun⟩ :=
          updateChunks_run hs path (some dest) hu rfl (hready ls)
        rw [hline]
        refine ⟨(moveToMarker ++ dest) :: used, rest, place, by rw [hls]; rfl, ?_,
          ⟨hplace, hs, path, some dest, chunks, rfl, by simpa using hne, hlast⟩, hrest,
          .cons .move hrun⟩
        simp only [length_cons]
        omega

/-- One hunk, read from a state at which a hunk may start. -/
theorem parseOneHunk_run {first : Str} {hunk : Hunk} {s : LineState}
    (h : parseOneHunk first ls n = .ok (hunk, m))
    (hs : s.place = .outside ∨ s.Closed ∧ startsWith first ['*'] = true) :
    ∃ used rest place, ls = used ++ rest ∧ m = 1 + used.length ∧
      Complete ⟨s.hunks ++ [hunk], place⟩ ∧
      (place ≠ .outside → ∀ line ∈ rest.head?, startsWith line ['*'] = true) ∧
      Run LineStep s (first :: used) ⟨s.hunks ++ [hunk], place⟩ := by
  unfold parseOneHunk at h
  cases ha : stripPrefix addFileMarker (trim first) with
  | some path =>
    simp only [ha] at h
    cases hl : addLines [] 1 ls with
    | mk contents parsed =>
      simp only [hl] at h
      cases h
      obtain ⟨used, rest, hls, hm, hrun⟩ := addLines_run s.hunks path hl
      exact ⟨used, rest, .outside, hls, hm, .inl rfl, by simp,
        .cons (.header hs (by simp [headerHunk, ha])) hrun⟩
  | none =>
    simp only [ha] at h
    cases hd : stripPrefix deleteFileMarker (trim first) with
    | some path =>
      simp only [hd] at h
      cases h
      exact ⟨[], ls, .outside, rfl, rfl, .inl rfl, by simp,
        .single (.header hs (by simp [headerHunk, ha, hd]))⟩
    | none =>
      simp only [hd] at h
      cases hu : stripPrefix updateFileMarker (trim first) with
      | none => simp [hu] at h
      | some path =>
        simp only [hu] at h
        obtain ⟨used, rest, place, hls, hm, hclosed, hrest, hrun⟩ :=
          parseUpdateHunk_run s.hunks path h
        exact ⟨used, rest, place, hls, hm, .inr hclosed, fun _ => hrest,
          .cons (.header hs (by simp [headerHunk, ha, hd, hu])) hrun⟩

/-- What the batch parser accepts is read line by line with the same hunks. -/
theorem parseHunks_run {hunks out : List Hunk}
    (h : parseHunks n hunks ls = .ok out) (hs : Complete ⟨hunks, place⟩)
    (hfirst : place ≠ .outside → ∀ line ∈ ls.head?, startsWith line ['*'] = true) :
    ∃ place', Complete ⟨out, place'⟩ ∧ Run LineStep ⟨hunks, place⟩ ls ⟨out, place'⟩ := by
  induction n, hunks, ls using parseHunks.induct generalizing place with
  | case1 n hunks =>
    rw [parseHunks] at h
    cases h
    exact ⟨place, hs, .nil _⟩
  | case2 n hunks first ls e he =>
    rw [parseHunks, he] at h
    cases h
  | case3 n hunks first ls hunk i hi ih =>
    rw [parseHunks, hi] at h
    have hstart : place = .outside ∨
        Closed ⟨hunks, place⟩ ∧ startsWith first ['*'] = true := by
      by_cases hp : place = .outside
      · exact .inl hp
      · exact .inr ⟨hs.resolve_left hp, hfirst hp first rfl⟩
    obtain ⟨used, rest, place', hls, hm, hcomplete, hrest, hrun⟩ :=
      parseOneHunk_run (s := ⟨hunks, place⟩) hi hstart
    have hdrop : ls.drop (i - 1) = rest := by rw [hm, hls]; simp
    simp only [hdrop] at h ih
    obtain ⟨place'', hcomplete', hrun'⟩ := ih h hcomplete hrest
    refine ⟨place'', hcomplete', ?_⟩
    rw [hls]
    exact hrun.append hrun'

end CodexRs.ApplyPatch
