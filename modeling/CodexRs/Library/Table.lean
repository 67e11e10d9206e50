import Mathlib

/-!
# Tables with one value for each key

What an update of an association list leaves of the others, and how many keys it has.
-/
namespace CodexRs.Table
open AList List

variable {α : Type*} {β : α → Type*} [DecidableEq α] {s : AList β} {a b : α}

theorem lookup_of_lookup_erase {v : β b} (h : (s.erase a).lookup b = some v) :
    b ≠ a ∧ s.lookup b = some v := by
  by_cases hb : b = a
  · subst hb
    rw [lookup_erase] at h
    cases h
  · rw [lookup_erase_ne hb] at h
    exact ⟨hb, h⟩

@[grind =] theorem lookup_erase_eq_ite (s : AList β) (a b : α) :
    (s.erase a).lookup b = if b = a then none else s.lookup b := by
  split_ifs with h
  · rw [h, lookup_erase]
  · exact lookup_erase_ne h

@[grind =] theorem lookup_insert_eq_ite {γ : Type*} (s : AList fun _ : α => γ) (a b : α) (v : γ) :
    (s.insert a v).lookup b = if b = a then some v else s.lookup b := by
  split_ifs with h
  · rw [h, lookup_insert]
  · exact lookup_insert_ne h

theorem insert_spec (s : AList β) (a : α) (v : β a) : (s.insert a v).lookup a = some v ∧
    ∀ b, b ≠ a → s.lookup b = (s.insert a v).lookup b :=
  ⟨lookup_insert _, fun _ hb => (lookup_insert_ne hb).symm⟩

theorem erase_spec (s : AList β) (a : α) : (s.erase a).lookup a = none ∧
    ∀ b, b ≠ a → s.lookup b = (s.erase a).lookup b :=
  ⟨lookup_erase _ _, fun _ hb => (lookup_erase_ne hb).symm⟩

theorem lookup_of_lookup_foldl_erase {keys : List α} {v : β b}
    (h : (keys.foldl (fun s a => s.erase a) s).lookup b = some v) : s.lookup b = some v := by
  induction keys generalizing s with
  | nil => exact h
  | cons a keys ih => exact (lookup_of_lookup_erase (ih h)).2

theorem mem_keys_of_lookup {v : β a} (h : s.lookup a = some v) : a ∈ s.keys := by
  apply AList.mem_keys.mpr
  apply AList.lookup_isSome.mp
  rw [h]
  rfl

theorem length_keys_erase_le (s : AList β) (a : α) : (s.erase a).keys.length ≤ s.keys.length := by
  rw [keys_erase]
  exact length_erase_le

theorem length_keys_erase_lt (ha : a ∈ s.keys) : (s.erase a).keys.length < s.keys.length := by
  have hpos := length_pos_of_mem ha
  rw [keys_erase, length_erase_of_mem ha]
  omega

theorem length_keys_insert_le (s : AList β) (a : α) (v : β a) :
    (s.insert a v).keys.length ≤ s.keys.length + 1 := by
  rw [keys_insert]
  exact Nat.succ_le_succ length_erase_le

theorem length_keys_insert_of_mem (ha : a ∈ s.keys) (v : β a) :
    (s.insert a v).keys.length = s.keys.length := by
  have hpos := length_pos_of_mem ha
  rw [keys_insert, length_cons, length_erase_of_mem ha]
  omega

theorem erase_insert_self (s : AList β) (a : α) (v : β a) : (s.insert a v).erase a = s.erase a := by
  simp [erase]

theorem erase_insert_comm (h : b ≠ a) (s : AList β) (v : β b) :
    (s.insert b v).erase a = (s.erase a).insert b v := by
  ext1
  have hne : a ≠ (⟨b, v⟩ : Sigma β).1 := h.symm
  simp only [erase, entries_insert]
  rw [kerase_cons_ne hne, kerase_comm]

theorem erase_of_notMem (h : a ∉ s) : s.erase a = s := by
  ext1
  exact kerase_of_notMem_keys h

theorem mem_entries_of_lookup {v : β a} (h : s.lookup a = some v) : ⟨a, v⟩ ∈ s.entries :=
  mem_lookup_iff.mp h

variable {γ : Type*} (f : γ → ℕ)

/-- The sum of a size over the values of a table. -/
def total (s : AList fun _ : α => γ) : ℕ := (s.entries.map fun entry => f entry.2).sum

theorem total_insert (s : AList fun _ : α => γ) (a : α) (v : γ) :
    total f (s.insert a v) = f v + total f (s.erase a) := by
  simp [total, erase]

theorem sum_map_kerase (entries : List (Sigma fun _ : α => γ)) (a : α) :
    (entries.map fun entry => f entry.2).sum =
      (entries.dlookup a).elim 0 f + ((entries.kerase a).map fun entry => f entry.2).sum := by
  induction entries with
  | nil => rfl
  | cons entry entries ih =>
    obtain ⟨b, v⟩ := entry
    by_cases hb : a = b
    · subst hb
      simp
    · have hlookup : (⟨b, v⟩ :: entries : List (Sigma fun _ : α => γ)).dlookup a =
          entries.dlookup a := dlookup_cons_ne _ _ hb
      rw [kerase_cons_ne hb, hlookup]
      simp only [map_cons, sum_cons]
      omega

theorem total_erase (s : AList fun _ : α => γ) (a : α) :
    total f s = (s.lookup a).elim 0 f + total f (s.erase a) :=
  sum_map_kerase f s.entries a

end CodexRs.Table
