import Mathlib.Data.List.DropRight

/-!
# Text as a list of Unicode scalar values

A line is what precedes a line feed, less one carriage return; a last line without a line feed is
dropped when it is empty.
-/
namespace CodexRs.Text
open List

abbrev Str := List Char

instance decidableMemTexts (s : Str) (texts : List Str) : Decidable (s ∈ texts) :=
  List.instDecidableMemOfLawfulBEq s texts

def toAsciiLowercase (s : Str) : Str := s.map Char.toLower

def eqIgnoreAsciiCase (s t : Str) : Bool := toAsciiLowercase s = toAsciiLowercase t

def isWhitespace (c : Char) : Bool :=
  let n := c.toNat
  (9 ≤ n && n ≤ 13) || n == 0x20 || n == 0x85 || n == 0xA0 || n == 0x1680 ||
    (0x2000 ≤ n && n ≤ 0x200A) || n == 0x2028 || n == 0x2029 || n == 0x202F ||
    n == 0x205F || n == 0x3000

def trimStart (s : Str) : Str := s.dropWhile isWhitespace
def trimEnd (s : Str) : Str := s.rdropWhile isWhitespace
def trim (s : Str) : Str := trimEnd (trimStart s)

/-- What trimming cuts off before and behind a text. -/
def leading (s : Str) : Str := s.takeWhile isWhitespace
def trailing (s : Str) : Str := (trimStart s).rtakeWhile isWhitespace

/-- The text is empty or consists of whitespace only. -/
def Blank (s : Str) : Prop := ∀ c ∈ s, isWhitespace c = true

instance (s : Str) : Decidable (Blank s) := List.decidableBAll (isWhitespace · = true) s

def stripPrefix : Str → Str → Option Str
  | [], s => some s
  | _ :: _, [] => none
  | p :: ps, c :: cs => if p = c then stripPrefix ps cs else none

def startsWith (s p : Str) : Bool := (stripPrefix p s).isSome

def stripCr (s : Str) : Str := if s.getLast? = some '\r' then s.dropLast else s

/-- The final piece of a split text, which no line feed ends. -/
def lastLine : Option Str → List Str
  | none | some [] => []
  | some s => [s]

def lines (s : Str) : List Str :=
  (s.splitOn '\n').dropLast.map stripCr ++ lastLine (s.splitOn '\n').getLast?

/-- Pieces put back together with a line feed between neighbours. -/
def joinLines : List Str → Str
  | [] => []
  | [l] => l
  | l :: ls => l ++ '\n' :: joinLines ls

theorem stripPrefix_eq_some {p s t : Str} : stripPrefix p s = some t ↔ s = p ++ t := by
  induction p generalizing s with
  | nil => simp [stripPrefix]
  | cons a p ih =>
    cases s with
    | nil => simp [stripPrefix]
    | cons c s =>
      by_cases h : a = c
      · subst c; simp [stripPrefix, ih]
      · simp [stripPrefix, h, Ne.symm h]

@[simp] theorem stripPrefix_append (p t : Str) : stripPrefix p (p ++ t) = some t :=
  stripPrefix_eq_some.mpr rfl

theorem stripPrefix_eq_none {p s : Str} : stripPrefix p s = none ↔ ∀ t, s ≠ p ++ t := by
  rw [Option.eq_none_iff_forall_ne_some]
  exact forall_congr' fun t => not_congr stripPrefix_eq_some

theorem startsWith_iff {s p : Str} : startsWith s p = true ↔ ∃ t, s = p ++ t := by
  rw [startsWith, Option.isSome_iff_exists]
  exact exists_congr fun t => stripPrefix_eq_some

@[simp] theorem startsWith_singleton (a c : Char) (s : Str) :
    startsWith (c :: s) [a] = decide (a = c) := by
  by_cases h : a = c <;> simp [startsWith, stripPrefix, h]

variable {s : Str}

theorem trimEnd_eq_self (c : Char) (hc : isWhitespace c = false) : trimEnd (s ++ [c]) = s ++ [c] :=
  rdropWhile_concat_neg _ _ _ (by simp [hc])

@[simp] theorem trimEnd_nil : trimEnd [] = [] := rfl

theorem trimEnd_append_of_blank (s w : Str) (hw : Blank w) : trimEnd (s ++ w) = trimEnd s := by
  induction w using reverseRecOn with
  | nil => simp
  | append_singleton w c ih =>
    have hc : isWhitespace c = true := hw c (by simp)
    rw [← append_assoc, trimEnd, rdropWhile_concat_pos _ _ _ hc]
    exact ih fun d hd => hw d (by simp [hd])

theorem trimEnd_eq_nil : trimEnd s = [] ↔ Blank s := rdropWhile_eq_nil_iff

@[simp] theorem trimEnd_trimEnd (s : Str) : trimEnd (trimEnd s) = trimEnd s :=
  rdropWhile_idempotent _ _

theorem trimStart_eq_nil : trimStart s = [] ↔ Blank s := by
  simp [trimStart, Blank]

theorem trimStart_append_of_blank (w s : Str) (hw : Blank w) :
    trimStart (w ++ s) = trimStart s := by
  rw [trimStart, dropWhile_append_of_pos hw]
  rfl

variable {c : Char}

theorem trimStart_cons_of_not (hc : isWhitespace c = false) (s : Str) :
    trimStart (c :: s) = c :: s := by
  rw [trimStart, dropWhile_cons_of_neg (by simp [hc])]

theorem trimEnd_spec (s : Str) : ∃ w, Blank w ∧ s = trimEnd s ++ w :=
  ⟨s.rtakeWhile isWhitespace, fun _ h => mem_rtakeWhile_imp h, rdropWhile_append_rtakeWhile.symm⟩

theorem trimStart_spec (s : Str) : ∃ w, Blank w ∧ s = w ++ trimStart s :=
  ⟨s.takeWhile isWhitespace, fun _ h => mem_takeWhile_imp h, takeWhile_append_dropWhile.symm⟩

theorem trim_spec (s : Str) : s = leading s ++ trim s ++ trailing s := by
  rw [trim, leading, trailing, trimEnd, append_assoc, rdropWhile_append_rtakeWhile,
    trimStart, takeWhile_append_dropWhile]

theorem blank_leading (s : Str) : Blank (leading s) := fun _ h => mem_takeWhile_imp h

theorem blank_trailing (s : Str) : Blank (trailing s) := fun _ h => mem_rtakeWhile_imp h

theorem trim_eq_self {c d : Char} (hc : isWhitespace c = false)
    (hd : isWhitespace d = false) (hs : ∃ m, c :: s = m ++ [d]) : trim (c :: s) = c :: s := by
  obtain ⟨m, hm⟩ := hs
  rw [trim, trimStart_cons_of_not hc, hm, trimEnd_eq_self d hd]

theorem trim_eq_nil : trim s = [] ↔ Blank s := by
  rw [trim, trimEnd_eq_nil]
  constructor
  · intro h
    obtain ⟨w, hw, hs⟩ := trimStart_spec s
    rw [hs]
    exact fun c hc => (mem_append.mp hc).elim (hw c) (h c)
  · intro h
    rw [trimStart_eq_nil.mpr h]
    exact fun c hc => absurd hc (by simp)

theorem trim_append_of_blank (s w : Str) (hw : Blank w) : trim (s ++ w) = trim s := by
  by_cases hs : Blank s
  · rw [trim_eq_nil.mpr hs, trim_eq_nil]
    exact fun c hc => (mem_append.mp hc).elim (hs c) (hw c)
  · have hne : trimStart s ≠ [] := fun h => hs (trimStart_eq_nil.mp h)
    have hstart : trimStart (s ++ w) = trimStart s ++ w := by
      rw [trimStart, List.dropWhile_append, if_neg (by rw [List.isEmpty_iff]; exact hne)]
      rfl
    rw [trim, hstart, trimEnd_append_of_blank _ _ hw, trim]

theorem trim_blank_append (w s : Str) (hw : Blank w) : trim (w ++ s) = trim s := by
  rw [trim, trimStart_append_of_blank w s hw, trim]

theorem trimEnd_append (s t : Str) :
    trimEnd (s ++ t) = if Blank t then trimEnd s else s ++ trimEnd t := by
  by_cases ht : Blank t
  · rw [if_pos ht, trimEnd_append_of_blank s t ht]
  · obtain ⟨w, hw, hs⟩ := trimEnd_spec t
    have hne : trimEnd t ≠ [] := fun h => ht (trimEnd_eq_nil.mp h)
    have hlast : isWhitespace ((trimEnd t).getLast hne) = false :=
      eq_false_of_ne_true (rdropWhile_last_not isWhitespace t hne)
    rw [if_neg ht, hs, ← append_assoc, trimEnd_append_of_blank _ _ hw,
      trimEnd_append_of_blank _ _ hw, trimEnd_trimEnd, ← dropLast_append_getLast hne,
      ← append_assoc, trimEnd_eq_self _ hlast]

theorem trimEnd_cons (hc : isWhitespace c = false) (s : Str) :
    trimEnd (c :: s) = c :: trimEnd s := by
  have h := trimEnd_append [c] s
  have hsingle : trimEnd [c] = [c] := trimEnd_eq_self (s := []) c hc
  by_cases hs : Blank s
  · rw [if_pos hs, hsingle] at h
    rw [trimEnd_eq_nil.mpr hs]
    exact h
  · rw [if_neg hs] at h
    exact h

theorem trim_cons (hc : isWhitespace c = false) (s : Str) : trim (c :: s) = trimEnd (c :: s) := by
  rw [trim, trimStart_cons_of_not hc]

theorem not_blank_cons (hc : isWhitespace c = false) (s : Str) : ¬ Blank (c :: s) := by
  intro hb
  rw [hb c (by simp)] at hc
  cases hc

theorem stripCr_eq_self (h : s.getLast? ≠ some '\r') : stripCr s = s := if_neg h

theorem stripCr_spec (s : Str) : ∃ w, Blank w ∧ s = stripCr s ++ w := by
  by_cases h : s.getLast? = some '\r'
  · obtain ⟨m, rfl⟩ := getLast?_eq_some_iff.mp h
    refine ⟨['\r'], by decide, ?_⟩
    rw [stripCr, if_pos h, dropLast_concat]
  · exact ⟨[], by decide, by rw [stripCr_eq_self h, append_nil]⟩

theorem trim_stripCr (s : Str) : trim (stripCr s) = trim s := by
  obtain ⟨w, hw, hs⟩ := stripCr_spec s
  rw [← trim_append_of_blank (stripCr s) w hw, ← hs]

theorem trimEnd_stripCr (s : Str) : trimEnd (stripCr s) = trimEnd s := by
  obtain ⟨w, hw, hs⟩ := stripCr_spec s
  rw [← trimEnd_append_of_blank (stripCr s) w hw, ← hs]

theorem not_mem_of_mem_splitOn {a : Char} {s l : Str} (h : l ∈ s.splitOn a) : a ∉ l := by
  induction s generalizing l with
  | nil =>
    rw [splitOn_nil, mem_singleton] at h
    simp [h]
  | cons c s ih =>
    rw [splitOn_cons_eq_if_modifyHead] at h
    split_ifs at h with hc
    · rcases mem_cons.mp h with rfl | h
      · simp
      · exact ih h
    · cases hs : s.splitOn a with
      | nil => simp [hs] at h
      | cons k ks =>
        rw [hs] at ih
        rw [hs] at h
        rcases mem_cons.mp h with rfl | h
        · simp only [beq_iff_eq] at hc
          simp [Ne.symm hc, ih (mem_cons_self)]
        · exact ih (mem_cons_of_mem _ h)

theorem not_mem_of_mem_lines {s l : Str} (h : l ∈ lines s) : '\n' ∉ l := by
  rcases mem_append.mp h with h | h
  · obtain ⟨k, hk, rfl⟩ := mem_map.mp h
    have hnl := not_mem_of_mem_splitOn (dropLast_subset _ hk)
    intro hmem
    obtain ⟨w, -, hw⟩ := stripCr_spec k
    exact hnl (hw ▸ mem_append_left _ hmem)
  · cases hs : (s.splitOn '\n').getLast? with
    | none => simp [hs, lastLine] at h
    | some k =>
      cases k with
      | nil => simp [hs, lastLine] at h
      | cons c k =>
        obtain rfl : l = c :: k := by simpa [hs, lastLine] using h
        exact not_mem_of_mem_splitOn (mem_of_getLast? hs)

variable (ls : List Str)

theorem splitOn_joinLines (hne : ls ≠ []) (hls : ∀ l ∈ ls, '\n' ∉ l) :
    (joinLines ls).splitOn '\n' = ls := by
  induction ls with
  | nil => exact absurd rfl hne
  | cons l ls ih =>
    cases ls with
    | nil => exact splitOn_eq_singleton (hls l (by simp))
    | cons m ls =>
      rw [joinLines, splitOn_append_cons_self_of_not_mem (hls l (by simp)),
        ih (by simp) fun k hk => hls k (by simp [hk])]
      simp

theorem joinLines_cons (l : Str) {ks : List Str} (h : ks ≠ []) :
    joinLines (l :: ks) = l ++ '\n' :: joinLines ks := by
  rw [joinLines]
  exact h

theorem joinLines_cons_concat (l : Str) (ls : List Str) (last : Str) :
    joinLines (l :: ls ++ [last]) = l ++ '\n' :: joinLines (ls ++ [last]) :=
  joinLines_cons l (by simp)

/-- Every text is a list of pieces without line feeds, joined. -/
theorem exists_joinLines (s : Str) :
    ∃ ls last, s = joinLines (ls ++ [last]) ∧ ∀ l ∈ ls ++ [last], '\n' ∉ l := by
  induction s with
  | nil => exact ⟨[], [], rfl, by simp⟩
  | cons c s ih =>
    obtain ⟨ls, last, hs, hls⟩ := ih
    by_cases hc : c = '\n'
    · refine ⟨[] :: ls, last, ?_, by simpa using hls⟩
      rw [joinLines_cons_concat, ← hs, hc]
      rfl
    · cases ls with
      | nil =>
        refine ⟨[], c :: last, by rw [hs]; rfl, ?_⟩
        simp [Ne.symm hc, hls]
      | cons l ls =>
        refine ⟨(c :: l) :: ls, last, ?_, ?_⟩
        · rw [hs, joinLines_cons_concat, joinLines_cons_concat, cons_append]
        · simp only [cons_append, mem_cons, forall_eq_or_imp] at hls ⊢
          exact ⟨by simp [Ne.symm hc, hls.1], hls.2⟩

theorem lines_joinLines (last : Str) (hlast : last ≠ []) (hls : ∀ l ∈ ls ++ [last], '\n' ∉ l) :
    lines (joinLines (ls ++ [last])) = ls.map stripCr ++ [last] := by
  rw [lines, splitOn_joinLines _ (by simp) hls]
  cases last with
  | nil => exact absurd rfl hlast
  | cons c last => simp [lastLine]

theorem joinLines_append (last w : Str) :
    joinLines (ls ++ [last ++ w]) = joinLines (ls ++ [last]) ++ w := by
  induction ls with
  | nil => rfl
  | cons l ls ih => rw [joinLines_cons_concat, joinLines_cons_concat, ih]; simp

/-- The last piece ends the text, after a line feed unless it is the only one. -/
theorem joinLines_concat (l : Str) (ls : List Str) (last : Str) :
    ∃ m, joinLines (l :: ls ++ [last]) = m ++ '\n' :: last := by
  induction ls generalizing l with
  | nil => exact ⟨l, rfl⟩
  | cons k ls ih =>
    obtain ⟨m, hm⟩ := ih k
    refine ⟨l ++ '\n' :: m, ?_⟩
    rw [joinLines_cons_concat, hm]
    simp

end CodexRs.Text
