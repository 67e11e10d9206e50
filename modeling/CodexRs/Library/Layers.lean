import Mathlib.Data.List.Basic

/-!
# Layers over a tree

A layer covers a place of a tree and everything below it; the last one put down is visible.
-/
namespace CodexRs.Layers

structure Layer (α κ : Type*) where
  place : List α
  kind : κ

variable {α κ : Type*} [DecidableEq α] {layers lower upper : List (Layer α κ)} {target : List α}
  {kind : κ}

def visible (layers : List (Layer α κ)) (target : List α) : Option κ :=
  (layers.filter fun layer => decide (layer.place <+: target)).getLast?.map Layer.kind

@[simp] theorem visible_nil : visible ([] : List (Layer α κ)) target = none := rfl

theorem visible_append :
    visible (lower ++ upper) target = (visible upper target).or (visible lower target) := by
  rw [visible, List.filter_append, List.getLast?_append, visible, visible]
  cases (upper.filter fun layer => decide (layer.place <+: target)).getLast? <;> simp

theorem visible_singleton (layer : Layer α κ) :
    visible [layer] target = if layer.place <+: target then some layer.kind else none := by
  by_cases h : layer.place <+: target <;> simp [visible, h]

theorem visible_eq_none_iff :
    visible layers target = none ↔ ∀ layer ∈ layers, ¬ layer.place <+: target := by
  simp [visible]

theorem exists_of_visible (h : visible layers target = some kind) :
    ∃ layer ∈ layers, layer.place <+: target ∧ layer.kind = kind := by
  obtain ⟨layer, hlast, rfl⟩ := Option.map_eq_some_iff.mp h
  have hmem := List.mem_of_getLast? hlast
  rw [List.mem_filter, decide_eq_true_iff] at hmem
  exact ⟨layer, hmem.1, hmem.2, rfl⟩

end CodexRs.Layers
