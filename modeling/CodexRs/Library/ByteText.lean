import CodexRs.Library.Base64

/-!
# Byte positions in a text

A position counts the bytes of the UTF-8 encoding before it. Taking a text apart where a character
is cut fails.
-/
namespace CodexRs.ByteText
open CodexRs.Text CodexRs.Base64 List Option

/-- The parts of a text before and behind a position. -/
def splitAtByte : Str → ℕ → Option (Str × Str)
  | s, 0 => some ([], s)
  | [], _ + 1 => none
  | c :: s, p + 1 =>
    if c.utf8Size ≤ p + 1 then
      (splitAtByte s (p + 1 - c.utf8Size)).map fun parts => (c :: parts.1, parts.2)
    else none

def isCharBoundary (s : Str) (p : ℕ) : Bool := (splitAtByte s p).isSome

/-- What is before a range, in it and behind it. -/
def splitRange (s : Str) (start stop : ℕ) : Option (Str × Str × Str) := do
  let parts ← splitAtByte s stop
  let inner ← splitAtByte parts.1 start
  return (inner.1, inner.2, parts.2)

def slice (s : Str) (start stop : ℕ) : Option Str := (splitRange s start stop).map (·.2.1)

def replaceRange (s : Str) (start stop : ℕ) (new : Str) : Option Str :=
  (splitRange s start stop).map fun r => r.1 ++ new ++ r.2.2

@[simp] theorem utf8Length_nil : utf8Length [] = 0 := rfl

@[simp] theorem utf8Length_cons (c : Char) (s : Str) :
    utf8Length (c :: s) = c.utf8Size + utf8Length s := by
  simp [utf8Length]

@[simp] theorem utf8Length_append (s t : Str) :
    utf8Length (s ++ t) = utf8Length s + utf8Length t := by
  simp [utf8Length]

variable {s : Str}

theorem utf8Length_eq_zero : utf8Length s = 0 ↔ s = [] := by
  cases s with
  | nil => simp
  | cons c s =>
    have hpos := Char.utf8Size_pos c
    simp only [utf8Length_cons, reduceCtorEq, iff_false]
    omega

variable {p : ℕ}

theorem splitAtByte_eq_some {x y : Str} :
    splitAtByte s p = some (x, y) ↔ s = x ++ y ∧ utf8Length x = p := by
  induction s generalizing p x with
  | nil =>
    cases p with
    | zero => simp [splitAtByte, utf8Length_eq_zero]; tauto
    | succ p =>
      simp only [splitAtByte, reduceCtorEq, false_iff, not_and]
      intro h
      have hx : x = [] := (append_eq_nil_iff.mp h.symm).1
      simp [hx]
  | cons c s ih =>
    cases p with
    | zero =>
      simp only [splitAtByte, Option.some.injEq, Prod.mk.injEq, utf8Length_eq_zero]
      constructor
      · rintro ⟨rfl, rfl⟩
        exact ⟨rfl, rfl⟩
      · rintro ⟨h, rfl⟩
        exact ⟨rfl, h⟩
    | succ p =>
      simp only [splitAtByte, ite_none_right_eq_some, map_eq_some_iff, Prod.mk.injEq]
      constructor
      · rintro ⟨hle, ⟨x', y'⟩, hsplit, rfl, rfl⟩
        obtain ⟨rfl, hlen⟩ := ih.mp hsplit
        refine ⟨rfl, ?_⟩
        rw [utf8Length_cons, hlen]
        omega
      · rintro ⟨h, hlen⟩
        cases x with
        | nil => simp at hlen
        | cons d x =>
          obtain ⟨rfl, rfl⟩ := cons.inj h
          rw [utf8Length_cons] at hlen
          refine ⟨by omega, (x, y), ih.mpr ⟨rfl, by omega⟩, rfl, rfl⟩

/-- A text is cut between two characters. -/
def Boundary (s : Str) (p : ℕ) : Prop := ∃ x y, s = x ++ y ∧ utf8Length x = p

theorem isCharBoundary_iff : isCharBoundary s p = true ↔ Boundary s p := by
  simp only [isCharBoundary, isSome_iff_exists, Prod.exists, splitAtByte_eq_some, Boundary]

instance (s : Str) (p : ℕ) : Decidable (Boundary s p) := decidable_of_iff _ isCharBoundary_iff

theorem boundary_zero (s : Str) : Boundary s 0 := ⟨[], s, rfl, rfl⟩

theorem boundary_length (s : Str) : Boundary s (utf8Length s) := ⟨s, [], by simp, rfl⟩

theorem Boundary.le (h : Boundary s p) : p ≤ utf8Length s := by
  obtain ⟨x, y, rfl, rfl⟩ := h
  simp

variable {p q : ℕ}

/-- Two boundaries in order cut the text into three parts. -/
theorem Boundary.parts (hp : Boundary s p) (hq : Boundary s q) (hle : p ≤ q) :
    ∃ x y z, s = x ++ y ++ z ∧ utf8Length x = p ∧ utf8Length (x ++ y) = q := by
  obtain ⟨x, u, rfl, rfl⟩ := hp
  obtain ⟨w, z, hs, rfl⟩ := hq
  obtain ⟨y, rfl, rfl⟩ | ⟨y, rfl, rfl⟩ := append_eq_append_iff.mp hs
  · exact ⟨x, y, z, by simp, rfl, rfl⟩
  · have hy : y = [] := utf8Length_eq_zero.mp (by simp at hle; omega)
    subst hy
    exact ⟨w, [], u, by simp, by simp, by simp⟩

theorem splitRange_eq_some {x y z : Str} : splitRange s p q = some (x, y, z) ↔
    s = x ++ y ++ z ∧ utf8Length x = p ∧ utf8Length (x ++ y) = q := by
  simp only [splitRange, Option.bind_eq_bind, Option.bind_eq_some_iff, Prod.exists,
    splitAtByte_eq_some, Option.pure_def, Option.some.injEq, Prod.mk.injEq]
  constructor
  · rintro ⟨w, z, ⟨rfl, hq⟩, x, y, ⟨rfl, hp⟩, rfl, rfl, rfl⟩
    exact ⟨rfl, hp, hq⟩
  · rintro ⟨rfl, hp, hq⟩
    exact ⟨x ++ y, z, ⟨rfl, hq⟩, x, y, ⟨rfl, hp⟩, rfl, rfl, rfl⟩

theorem slice_eq_some {y : Str} : slice s p q = some y ↔
      ∃ x z, s = x ++ y ++ z ∧ utf8Length x = p ∧ utf8Length (x ++ y) = q := by
  simp [slice, splitRange_eq_some]

theorem replaceRange_eq_some {s t new : Str} : replaceRange s p q new = some t ↔
      ∃ x y z, s = x ++ y ++ z ∧ utf8Length x = p ∧ utf8Length (x ++ y) = q ∧
        t = x ++ new ++ z := by
  simp [replaceRange, splitRange_eq_some, and_assoc, eq_comm (a := t)]

/-! ## Positions in a part of the text -/

theorem boundary_append_left {x z : Str} (hp : p ≤ utf8Length x) :
    Boundary (x ++ z) p ↔ Boundary x p := by
  constructor
  · intro h
    obtain ⟨u, v, w, hs, hu, huv⟩ := h.parts ⟨x, z, rfl, rfl⟩ hp
    have hx : splitAtByte (x ++ z) (utf8Length x) = some (u ++ v, w) :=
      splitAtByte_eq_some.mpr ⟨hs, huv⟩
    rw [splitAtByte_eq_some.mpr ⟨rfl, rfl⟩] at hx
    obtain ⟨hx, -⟩ := Prod.mk.inj (Option.some.inj hx)
    exact ⟨u, v, hx, hu⟩
  · rintro ⟨u, v, rfl, rfl⟩
    exact ⟨u, v ++ z, by simp, rfl⟩

theorem boundary_append_right {x z : Str} :
    Boundary (x ++ z) (utf8Length x + p) ↔ Boundary z p := by
  constructor
  · intro h
    obtain ⟨u, v, w, hs, hu, huv⟩ := Boundary.parts ⟨x, z, rfl, rfl⟩ h (by omega)
    have hx : splitAtByte (x ++ z) (utf8Length x) = some (u, v ++ w) :=
      splitAtByte_eq_some.mpr ⟨by rw [hs, append_assoc], hu⟩
    rw [splitAtByte_eq_some.mpr ⟨rfl, rfl⟩] at hx
    obtain ⟨-, hz⟩ := Prod.mk.inj (Option.some.inj hx)
    refine ⟨v, w, hz, ?_⟩
    rw [utf8Length_append] at huv
    omega
  · rintro ⟨u, v, rfl, rfl⟩
    exact ⟨x ++ u, v, by simp, by simp⟩

theorem slice_append_left {x z y : Str} (h : slice x p q = some y) :
    slice (x ++ z) p q = some y := by
  obtain ⟨u, w, rfl, hp, hq⟩ := slice_eq_some.mp h
  exact slice_eq_some.mpr ⟨u, w ++ z, by simp, hp, hq⟩

theorem exists_slice (hp : Boundary s p) (hq : Boundary s q) (hle : p ≤ q) :
    ∃ y, slice s p q = some y := by
  obtain ⟨x, y, z, hs, hx, hy⟩ := hp.parts hq hle
  exact ⟨y, slice_eq_some.mpr ⟨x, z, hs, hx, hy⟩⟩

end CodexRs.ByteText
