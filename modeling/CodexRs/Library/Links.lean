import Mathlib.Data.List.Basic

/-!
# Calls and their outputs

A sequence is answered if every output names a call before it.
-/
namespace CodexRs.Links
open List

inductive Link (ι : Type*) where
  | call (id : ι)
  | output (id : ι)

variable {α ι : Type*}

def Answered (links : List (Link ι)) : Prop :=
  ∀ pre id post, links = pre ++ .output id :: post → .call id ∈ pre

/-- No group has both calls and outputs. -/
def Separate (f : α → List (Link ι)) : Prop :=
  ∀ a id id', .output id ∈ f a → .call id' ∉ f a

variable {f : α → List (Link ι)}

/-- An element of a flattened list stands in one of the groups. -/
theorem flatMap_eq_append_cons {l : List α} {p q : List (Link ι)}
    {x : Link ι} (h : l.flatMap f = p ++ x :: q) :
    ∃ pre a post u, l = pre ++ a :: post ∧ x ∈ f a ∧ p = pre.flatMap f ++ u := by
  induction l generalizing p with
  | nil => simp at h
  | cons a l ih =>
    rw [flatMap_cons, append_eq_append_iff] at h
    rcases h with ⟨c, hp, hl⟩ | ⟨c, hf, hx⟩
    · obtain ⟨pre, b, post, u, hsplit, hmem, hc⟩ := ih hl
      exact ⟨a :: pre, b, post, u, by rw [hsplit]; rfl, hmem,
        by rw [hp, hc, flatMap_cons, append_assoc]⟩
    · cases c with
      | nil =>
        obtain ⟨pre, b, post, u, hsplit, hmem, hc⟩ := ih (p := []) hx.symm
        refine ⟨a :: pre, b, post, u, by rw [hsplit]; rfl, hmem, ?_⟩
        rw [flatMap_cons, append_assoc, ← hc, hf]
        simp
      | cons y c =>
        rw [cons_append, cons.injEq] at hx
        exact ⟨[], a, l, p, rfl, by rw [hf, hx.1]; simp, rfl⟩

theorem answered_flatMap_iff (hf : Separate f) (l : List α) :
    Answered (l.flatMap f) ↔ ∀ pre a post, l = pre ++ a :: post → ∀ id, .output id ∈ f a →
      ∃ b ∈ pre, .call id ∈ f b := by
  constructor
  · intro h pre a post hl id hid
    obtain ⟨u, v, hsplit⟩ := append_of_mem hid
    have hcall := h (pre.flatMap f ++ u) id (v ++ post.flatMap f) (by simp [hl, hsplit])
    rcases mem_append.mp hcall with hpre | hu
    · exact mem_flatMap.mp hpre
    · exact absurd (by rw [hsplit]; exact mem_append_left _ hu) (hf a id id hid)
  · intro h p id q hl
    obtain ⟨pre, a, post, u, hsplit, hmem, hp⟩ := flatMap_eq_append_cons hl
    rw [hp]
    exact mem_append_left _ (mem_flatMap.mpr (h pre a post hsplit id hmem))

end CodexRs.Links
