import CodexRs.Library.Table

/-!
# Values that arrive out of order

A value is released when all the numbers before its own have been.
-/
namespace CodexRs.Reorder
open AList List Table

variable {β : Type*}

/-- The number released last, and the values that wait for the numbers before them. -/
structure Buffer (β : Type*) where
  last : ℕ
  pending : AList fun _ : ℕ => β

namespace Buffer

def empty : Buffer β := ⟨0, ∅⟩

/-- Releases the values that are next, at most as many as are given. -/
def release : ℕ → Buffer β → List β × Buffer β
  | 0, buffer => ([], buffer)
  | limit + 1, buffer =>
    match buffer.pending.lookup (buffer.last + 1) with
    | none => ([], buffer)
    | some value =>
      let r := release limit ⟨buffer.last + 1, buffer.pending.erase (buffer.last + 1)⟩
      (value :: r.1, r.2)

/-- A number that was passed is ignored, and of two values with one number the first stays. -/
def accept (buffer : Buffer β) (number : ℕ) (value : β) : List β × Buffer β :=
  if number ≤ buffer.last then ([], buffer)
  else
    let pending :=
      if number ∈ buffer.pending then buffer.pending else buffer.pending.insert number value
    release pending.keys.length ⟨buffer.last, pending⟩

end Buffer

/-- The numbers from one up to this one have all arrived. -/
def Complete (arrivals : List (ℕ × β)) (m : ℕ) : Prop :=
  ∀ k, 1 ≤ k → k ≤ m → ∃ value, (k, value) ∈ arrivals

/-- The state of a buffer behind some arrivals, of which some values were released. -/
structure Holds (arrivals : List (ℕ × β)) (released : List β) (buffer : Buffer β) : Prop where
  length : released.length = buffer.last
  released : ∀ p ∈ released.zipIdx 1, (p.2, p.1) ∈ arrivals
  pending : ∀ {k value}, buffer.pending.lookup k = some value → (k, value) ∈ arrivals
  kept : ∀ {k value}, (k, value) ∈ arrivals → buffer.last < k → k ∈ buffer.pending

/-- Nothing that waits could be released. -/
def Settled (buffer : Buffer β) : Prop := buffer.last + 1 ∉ buffer.pending

open Buffer

theorem Holds.empty : Holds [] [] (empty : Buffer β) where
  length := rfl
  released p hp := by simp at hp
  pending h := by simp [Buffer.empty] at h
  kept h := by simp at h

theorem settled_empty : Settled (empty : Buffer β) := by simp [Settled, empty]

variable {arrivals : List (ℕ × β)} {released : List β} {buffer : Buffer β}

theorem Holds.release_one (h : Holds arrivals released buffer) {value : β}
    (hnext : buffer.pending.lookup (buffer.last + 1) = some value) :
    Holds arrivals (released ++ [value])
      ⟨buffer.last + 1, buffer.pending.erase (buffer.last + 1)⟩ where
  length := by simp [h.length]
  released p hp := by
    rw [zipIdx_append, mem_append] at hp
    rcases hp with hp | hp
    · exact h.released p hp
    · obtain rfl : p = (value, buffer.last + 1) := by
        simpa [h.length, Nat.add_comm] using hp
      exact h.pending hnext
  pending hk := h.pending (lookup_of_lookup_erase hk).2
  kept {k v} hk hlt := by
    have hlt' : buffer.last + 1 < k := hlt
    have hmem := h.kept hk (Nat.lt_of_succ_lt hlt')
    rw [mem_erase]
    exact ⟨Nat.ne_of_gt hlt', hmem⟩

theorem Holds.release (h : Holds arrivals released buffer) (limit : ℕ) :
    Holds arrivals (released ++ (buffer.release limit).1) (buffer.release limit).2 := by
  induction limit generalizing buffer released with
  | zero => simpa [release] using h
  | succ limit ih =>
    rw [release]
    cases hnext : buffer.pending.lookup (buffer.last + 1) with
    | none => simpa using h
    | some value => simpa using ih (h.release_one hnext)

/-- As many releases as there are values that wait leave none that could be released. -/
theorem settled_release {limit : ℕ} (h : buffer.pending.keys.length ≤ limit) :
    Settled (buffer.release limit).2 := by
  induction limit generalizing buffer with
  | zero =>
    have hnil : buffer.pending.keys = [] := length_eq_zero_iff.mp (Nat.le_zero.mp h)
    rw [release, Settled, AList.mem_keys, hnil]
    exact not_mem_nil
  | succ limit ih =>
    rw [release]
    cases hnext : buffer.pending.lookup (buffer.last + 1) with
    | none => exact lookup_eq_none.mp hnext
    | some value =>
      have hless := length_keys_erase_lt (mem_keys_of_lookup hnext)
      exact ih (by dsimp only; omega)

theorem Holds.insert (h : Holds arrivals released buffer) {number : ℕ} (value : β) :
    Holds (arrivals ++ [(number, value)]) released
      ⟨buffer.last, if number ∈ buffer.pending then buffer.pending
        else buffer.pending.insert number value⟩ where
  length := h.length
  released p hp := mem_append_left _ (h.released p hp)
  pending {k v} hk := by
    split_ifs at hk with hmem
    · exact mem_append_left _ (h.pending hk)
    · by_cases hkn : k = number
      · subst hkn
        rw [lookup_insert] at hk
        obtain rfl := Option.some.inj hk
        simp
      · rw [lookup_insert_ne hkn] at hk
        exact mem_append_left _ (h.pending hk)
  kept {k v} hk hlt := by
    have hold : (k, v) ∈ arrivals → k ∈ buffer.pending := fun hk => h.kept hk hlt
    rcases mem_append.mp hk with hk | hk
    · split_ifs
      · exact hold hk
      · exact (mem_insert _).mpr (.inr (hold hk))
    · obtain ⟨rfl, -⟩ : k = number ∧ v = value := by simpa using hk
      split_ifs with hmem
      · exact hmem
      · exact (mem_insert _).mpr (.inl rfl)

theorem Holds.accept (h : Holds arrivals released buffer) (hsettled : Settled buffer) (number : ℕ)
    (value : β) :
    Holds (arrivals ++ [(number, value)]) (released ++ (buffer.accept number value).1)
        (buffer.accept number value).2 ∧ Settled (buffer.accept number value).2 := by
  unfold Buffer.accept
  by_cases hpassed : number ≤ buffer.last
  · rw [if_pos hpassed]
    refine ⟨⟨?_, ?_, ?_, ?_⟩, hsettled⟩
    · simpa using h.length
    · intro p hp
      exact mem_append_left _ (h.released p (by simpa using hp))
    · intro k v hk
      exact mem_append_left _ (h.pending hk)
    · intro k v hk hlt
      rcases mem_append.mp hk with hk | hk
      · exact h.kept hk hlt
      · obtain ⟨rfl, -⟩ : k = number ∧ v = value := by simpa using hk
        exact absurd hlt (Nat.not_lt.mpr hpassed)
  · rw [if_neg hpassed]
    exact ⟨(h.insert value).release _, settled_release le_rfl⟩

/-- What waits has some property. -/
def Buffer.All (p : β → Prop) (buffer : Buffer β) : Prop :=
  ∀ {k value}, buffer.pending.lookup k = some value → p value

theorem Buffer.All.release {p : β → Prop} (h : buffer.All p) (limit : ℕ) :
    (∀ value ∈ (buffer.release limit).1, p value) ∧ (buffer.release limit).2.All p := by
  induction limit generalizing buffer with
  | zero => exact ⟨by simp [release], h⟩
  | succ limit ih =>
    rw [release]
    cases hnext : buffer.pending.lookup (buffer.last + 1) with
    | none => exact ⟨by simp, h⟩
    | some value =>
      have hrest : All p ⟨buffer.last + 1, buffer.pending.erase (buffer.last + 1)⟩ :=
        fun hk => h (lookup_of_lookup_erase hk).2
      exact ⟨forall_mem_cons.mpr ⟨h hnext, (ih hrest).1⟩, (ih hrest).2⟩

/-- What is released was waiting or has just arrived. -/
theorem Buffer.All.accept {p : β → Prop} (h : buffer.All p) (number : ℕ) {value : β}
    (hvalue : p value) :
    (∀ other ∈ (buffer.accept number value).1, p other) ∧ (buffer.accept number value).2.All p := by
  unfold Buffer.accept
  split_ifs with hpassed hmem
  · exact ⟨by simp, h⟩
  · exact All.release h _
  · refine All.release (fun {k other} hk => ?_) _
    by_cases hkn : k = number
    · subst hkn
      rw [lookup_insert] at hk
      exact Option.some.inj hk ▸ hvalue
    · rw [lookup_insert_ne hkn] at hk
      exact h hk

/-- The values were released under their numbers. -/
theorem Holds.getElem (h : Holds arrivals released buffer) {i : ℕ} (hi : i < released.length) :
    (i + 1, released[i]) ∈ arrivals := by
  refine h.released (released[i], i + 1) ?_
  rw [mem_zipIdx_iff_le_and_getElem?_sub]
  exact ⟨Nat.le_add_left 1 i, getElem?_eq_getElem hi⟩

/-- What was released is as much as can be. -/
theorem Holds.isGreatest (h : Holds arrivals released buffer) (hsettled : Settled buffer) :
    IsGreatest {m | Complete arrivals m} released.length := by
  constructor
  · intro k hk hle
    have hmem := h.getElem (i := k - 1) (by omega)
    rw [Nat.sub_add_cancel hk] at hmem
    exact ⟨_, hmem⟩
  · intro m hm
    by_contra hlt
    have hlast := h.length
    obtain ⟨value, hvalue⟩ := hm (buffer.last + 1) (by omega) (by omega)
    exact hsettled (h.kept hvalue (Nat.lt_succ_self _))

end CodexRs.Reorder
