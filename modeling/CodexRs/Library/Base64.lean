import Mathlib
import CodexRs.Library.Text

/-!
# Decoding base64 into limited space

What is relied on is stated apart from any implementation.
-/
namespace CodexRs.Base64
open Text List Option

inductive DecodeSliceError where
  | decodeError
  | outputSliceTooSmall

structure Engine where
  decode : Str → Option (List UInt8)
  decodedLenEstimate : ℕ → ℕ
  decodeSlice : Str → ℕ → Except DecodeSliceError (List UInt8)

def utf8Length (s : Str) : ℕ := (s.map Char.utf8Size).sum

/-- The estimate is an upper bound, and text that fits the slice is decoded. -/
structure Engine.Lawful (e : Engine) : Prop where
  estimate : ∀ text bytes, e.decode text = some bytes →
    bytes.length ≤ e.decodedLenEstimate (utf8Length text)
  fits : ∀ text bytes n, e.decode text = some bytes → bytes.length ≤ n →
    e.decodeSlice text n = .ok bytes

/-- No more is written than the slice has room for. -/
def Engine.Bounded (e : Engine) : Prop :=
  ∀ text n bytes, e.decodeSlice text n = .ok bytes → bytes.length ≤ n

def sextet (c : Char) : Option ℕ :=
  if 'A' ≤ c ∧ c ≤ 'Z' then some (c.toNat - 'A'.toNat)
  else if 'a' ≤ c ∧ c ≤ 'z' then some (c.toNat - 'a'.toNat + 26)
  else if '0' ≤ c ∧ c ≤ '9' then some (c.toNat - '0'.toNat + 52)
  else if c = '+' then some 62
  else if c = '/' then some 63
  else none

/-- The bytes of a quantum with its padding; bits that padding stands for must be zero. -/
def quantum (a b c d : Char) : Option (List UInt8) :=
  match sextet a, sextet b, sextet c, sextet d with
  | some w, some x, some y, some z =>
    some [.ofNat (w * 4 + x / 16), .ofNat (x % 16 * 16 + y / 4), .ofNat (y % 4 * 64 + z)]
  | _, _, _, _ => none

def paddedQuantum (a b c d : Char) : Option (List UInt8) :=
  match sextet a, sextet b, sextet c, d with
  | some w, some x, some y, '=' =>
    if y % 4 = 0 then some [.ofNat (w * 4 + x / 16), .ofNat (x % 16 * 16 + y / 4)] else none
  | some w, some x, none, '=' =>
    if c = '=' ∧ x % 16 = 0 then some [.ofNat (w * 4 + x / 16)] else none
  | _, _, _, _ => none

def decodeStandard : Str → Option (List UInt8)
  | [] => some []
  | [a, b, c, d] => (quantum a b c d).or (paddedQuantum a b c d)
  | a :: b :: c :: d :: rest =>
    match quantum a b c d, decodeStandard rest with
    | some bytes, some more => some (bytes ++ more)
    | _, _ => none
  | _ => none

def standard : Engine where
  decode := decodeStandard
  decodedLenEstimate n := (n / 4 + if n % 4 = 0 then 0 else 1) * 3
  decodeSlice text n :=
    match decodeStandard text with
    | some bytes => if bytes.length ≤ n then .ok bytes else .error .outputSliceTooSmall
    | none => .error .decodeError

variable {bytes : List UInt8}

theorem length_quantum {a b c d : Char} (h : quantum a b c d = some bytes) : bytes.length = 3 := by
  unfold quantum at h
  split at h
  · cases h
    rfl
  · cases h

theorem length_paddedQuantum {a b c d : Char}
    (h : paddedQuantum a b c d = some bytes) : bytes.length ≤ 3 := by
  unfold paddedQuantum at h
  split at h
  · split_ifs at h
    cases h
    simp
  · split_ifs at h
    cases h
    simp
  · cases h

theorem length_decodeStandard {text : Str}
    (h : decodeStandard text = some bytes) : 4 * bytes.length ≤ 3 * text.length := by
  fun_induction decodeStandard text generalizing bytes with
  | case1 =>
    cases h
    rfl
  | case2 a b c d =>
    cases hq : quantum a b c d with
    | some q =>
      rw [hq, some_or, Option.some.injEq] at h
      rw [← h, length_quantum hq]
      rfl
    | none =>
      rw [hq] at h
      have hle := length_paddedQuantum h
      simp only [length_cons]
      omega
  | case3 a b c d rest _ q more hmore hq ih =>
    cases h
    have hrest := ih hmore
    rw [length_append, length_quantum hq]
    simp only [length_cons]
    omega
  | case4 => cases h
  | case5 => cases h

theorem length_le_utf8Length (text : Str) : text.length ≤ utf8Length text := by
  induction text with
  | nil => rfl
  | cons c text ih =>
    have hpos : 0 < c.utf8Size := Char.utf8Size_pos c
    simp only [utf8Length, map_cons, sum_cons, length_cons] at ih ⊢
    omega

theorem standard_lawful : standard.Lawful where
  estimate text bytes h := by
    have hbytes := length_decodeStandard h
    have htext := length_le_utf8Length text
    simp only [standard]
    split_ifs <;> omega
  fits text bytes n h hn := by
    have hdecode : decodeStandard text = some bytes := h
    simp only [standard, hdecode, if_pos hn]

theorem standard_bounded : standard.Bounded := by
  intro text n bytes h
  simp only [standard] at h
  split at h
  · split_ifs at h with hle
    cases h
    exact hle
  · cases h

end CodexRs.Base64
