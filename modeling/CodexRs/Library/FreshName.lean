import Mathlib.Data.List.Nodup
import Mathlib.Data.List.Perm.Subperm
import Mathlib.Data.Set.Function

/-!
# The first name that is not taken

Names are tried one after another until one is not among those in use.
-/
namespace CodexRs.FreshName
variable {α : Type*} [DecidableEq α] (name : ℕ → α) (used : List α)

/-- The first attempt, from the given one on, whose name is free. -/
def firstFresh : ℕ → ℕ → Option ℕ
  | 0, _ => none
  | fuel + 1, attempt =>
    if name attempt ∈ used then firstFresh fuel (attempt + 1) else some attempt

/-- The attempts that are made. -/
def tried : ℕ → ℕ → List ℕ
  | 0, _ => []
  | fuel + 1, attempt =>
    attempt :: if name attempt ∈ used then tried fuel (attempt + 1) else []

variable {name used} {fuel attempt k : ℕ}

theorem not_mem_used_of_firstFresh (h : firstFresh name used fuel attempt = some k) :
    name k ∉ used := by
  induction fuel generalizing attempt with
  | zero => cases h
  | succ fuel ih =>
    rw [firstFresh] at h
    split_ifs at h with hused
    · exact ih h
    · cases h
      exact hused

/-- A search that finds nothing has tried every attempt, and every name was taken. -/
theorem tried_of_firstFresh_eq_none (h : firstFresh name used fuel attempt = none) :
    tried name used fuel attempt = List.range' attempt fuel ∧
      ∀ k ∈ tried name used fuel attempt, name k ∈ used := by
  induction fuel generalizing attempt with
  | zero => exact ⟨rfl, by simp [tried]⟩
  | succ fuel ih =>
    rw [firstFresh] at h
    split_ifs at h with hused
    obtain ⟨hrange, hall⟩ := ih h
    rw [tried, if_pos hused, hrange]
    refine ⟨rfl, fun k hk => ?_⟩
    rcases List.mem_cons.mp hk with rfl | hk
    · exact hused
    · exact hall k (hrange ▸ hk)

/-- One attempt more than there are names in use is enough. -/
theorem firstFresh_isSome (hfuel : used.length < fuel)
    (hinj : Set.InjOn name {k | k ∈ tried name used fuel attempt}) :
    (firstFresh name used fuel attempt).isSome = true := by
  by_contra hnone
  rw [Option.not_isSome_iff_eq_none] at hnone
  obtain ⟨hrange, hall⟩ := tried_of_firstFresh_eq_none hnone
  have hnodup : ((tried name used fuel attempt).map name).Nodup := by
    apply List.Nodup.map_on
    · intro a ha b hb hab
      exact hinj ha hb hab
    · rw [hrange]
      exact List.nodup_range'
  have hsub : (tried name used fuel attempt).map name ⊆ used := by
    intro x hx
    obtain ⟨k, hk, rfl⟩ := List.mem_map.mp hx
    exact hall k hk
  have hlength := (hnodup.subperm hsub).length_le
  rw [List.length_map, hrange, List.length_range'] at hlength
  omega

end CodexRs.FreshName
