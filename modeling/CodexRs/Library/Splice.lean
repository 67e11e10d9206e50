import Mathlib.Data.List.Induction
import Mathlib.Data.List.Sort

/-!
# Edits of a list

Edits that stay apart replace all their intervals of the original list at once, if they are
applied from the back.
-/
namespace CodexRs.Splice
open List

variable {α : Type*}

structure Edit (α : Type*) where
  start : ℕ
  oldLen : ℕ
  newItems : List α
deriving DecidableEq

namespace Edit

def stop (e : Edit α) : ℕ := e.start + e.oldLen

def apply (e : Edit α) (l : List α) : List α := l.take e.start ++ e.newItems ++ l.drop e.stop

/-- The later edit `e` lies behind `d` or before it. An insertion at the very start of `d` would be
applied inside it. -/
def Apart (d e : Edit α) : Prop := d.stop ≤ e.start ∨ e.start < d.start ∧ e.stop ≤ d.start

instance (d e : Edit α) : Decidable (d.Apart e) := inferInstanceAs (Decidable (_ ∨ _))

/-- Edits in the order of their intervals. -/
def Before (d e : Edit α) : Prop := d.stop ≤ e.start

end Edit

def applyBackward (l : List α) (es : List (Edit α)) : List α := es.foldr Edit.apply l

/-- The items of `l` from position `pos` on, with every interval replaced. -/
def spliceFrom (l : List α) : ℕ → List (Edit α) → List α
  | pos, [] => l.drop pos
  | pos, e :: es => (l.take e.start).drop pos ++ e.newItems ++ spliceFrom l e.stop es

/-- The last item left of `l`, or put in behind what is left, by edits that are listed from the
back. -/
def lastItem (l : List α) : List (Edit α) → Option α
  | [] => l.getLast?
  | e :: es =>
    if e.stop < l.length then l.getLast?
    else e.newItems.getLast?.or (lastItem (l.take e.start) es)

/-- Edits sorted by their starts; those with equal starts keep their order. -/
def sortEdits (es : List (Edit α)) : List (Edit α) :=
  es.insertionSort fun d e => d.start ≤ e.start

variable {es : List (Edit α)}

variable {e : Edit α}

theorem mem_sortEdits : e ∈ sortEdits es ↔ e ∈ es := mem_insertionSort _

/-- A new edit that stays apart from ordered later ones is inserted in order. -/
theorem before_orderedInsert (hes : es.Pairwise Edit.Before) (he : ∀ d ∈ es, e.Apart d) :
    (es.orderedInsert (fun d e => d.start ≤ e.start) e).Pairwise Edit.Before := by
  induction es with
  | nil => simp
  | cons d es ih =>
    rw [pairwise_cons] at hes
    have hd := he d (by simp)
    by_cases hle : e.start ≤ d.start
    · have hed : e.stop ≤ d.start := by
        rcases hd with h | h
        · exact h
        · omega
      rw [orderedInsert_cons_of_le _ es hle]
      apply Pairwise.cons
      · intro f hf
        rcases mem_cons.mp hf with rfl | hf
        · exact hed
        · have := hes.1 f hf
          simp only [Edit.Before, Edit.stop] at this hed ⊢
          omega
      · exact pairwise_cons.mpr hes
    · have hde : d.stop ≤ e.start := by
        rcases hd with h | h
        · simp only [Edit.stop] at h
          omega
        · exact h.2
      rw [orderedInsert_of_not_le _ es hle]
      apply Pairwise.cons
      · intro f hf
        rcases (mem_orderedInsert _).mp hf with rfl | hf
        · exact hde
        · exact hes.1 f hf
      · exact ih hes.2 fun f hf => he f (by simp [hf])

theorem sortEdits_before (h : es.Pairwise Edit.Apart) : (sortEdits es).Pairwise Edit.Before := by
  induction es with
  | nil => simp [sortEdits]
  | cons e es ih =>
    rw [pairwise_cons] at h
    apply before_orderedInsert (ih h.2)
    intro d hd
    exact h.1 d (mem_sortEdits.mp hd)

variable {l : List α}

/-- Ordered edits leave everything before them in place, and behind that the intervals
are replaced. -/
theorem applyBackward_spec (hes : es.Pairwise Edit.Before) (hl : ∀ e ∈ es, e.stop ≤ l.length)
    {pos : ℕ} (hpos : ∀ e ∈ es, pos ≤ e.start) : (applyBackward l es).take pos = l.take pos ∧
      (applyBackward l es).drop pos = spliceFrom l pos es := by
  induction es generalizing pos with
  | nil => exact ⟨rfl, rfl⟩
  | cons e es ih =>
    rw [pairwise_cons] at hes
    obtain ⟨htake, hdrop⟩ := ih hes.2 (fun d hd => hl d (by simp [hd])) hes.1
    have hp : pos ≤ e.start := hpos e (by simp)
    have hstop : e.start ≤ e.stop := Nat.le_add_right _ _
    have hlen : e.start ≤ l.length := hstop.trans (hl e (by simp))
    have hbefore : (applyBackward l es).take e.start = l.take e.start := by
      have := congrArg (take e.start) htake
      rwa [take_take, take_take, min_eq_left hstop] at this
    have happly : applyBackward l (e :: es) =
        l.take e.start ++ (e.newItems ++ spliceFrom l e.stop es) := by
      rw [← hbefore, ← hdrop, ← append_assoc]
      rfl
    have htl : pos ≤ (l.take e.start).length := by
      rw [length_take]
      omega
    constructor
    · rw [happly, take_append_of_le_length htl, take_take, min_eq_left hp]
    · rw [happly, drop_append_of_le_length htl, spliceFrom, append_assoc]

theorem applyBackward_eq_spliceFrom (hes : es.Pairwise Edit.Before)
    (hl : ∀ e ∈ es, e.stop ≤ l.length) : applyBackward l es = spliceFrom l 0 es := by
  rw [← (applyBackward_spec hes hl fun _ _ => Nat.zero_le _).2, drop_zero]

theorem spliceFrom_concat (hes : ∀ d ∈ es, d.Before e) (pos : ℕ) : spliceFrom l pos (es ++ [e]) =
      spliceFrom (l.take e.start) pos es ++ e.newItems ++ l.drop e.stop := by
  induction es generalizing pos with
  | nil => rfl
  | cons d es ih =>
    have hd : d.start ≤ e.start := (Nat.le_add_right _ _).trans (hes d mem_cons_self)
    rw [cons_append, spliceFrom, spliceFrom, ih fun d hd => hes d (mem_cons_of_mem _ hd),
      take_take, min_eq_left hd]
    simp only [append_assoc]

theorem getLast?_spliceFrom (hes : es.Pairwise Edit.Before) (hl : ∀ e ∈ es, e.stop ≤ l.length) :
    (spliceFrom l 0 es).getLast? = lastItem l es.reverse := by
  induction es using reverseRecOn generalizing l with
  | nil => rfl
  | append_singleton es e ih =>
    rw [pairwise_append] at hes
    have hbefore : ∀ d ∈ es, d.Before e := fun d hd => hes.2.2 d hd e mem_cons_self
    have hstart : e.start ≤ l.length :=
      (Nat.le_add_right _ _).trans (hl e (mem_append_right _ mem_cons_self))
    have hrest : (spliceFrom (l.take e.start) 0 es).getLast? =
        lastItem (l.take e.start) es.reverse := by
      apply ih hes.1
      intro d hd
      rw [length_take, min_eq_left hstart]
      exact hbefore d hd
    rw [spliceFrom_concat hbefore, getLast?_append, getLast?_append, hrest, getLast?_drop,
      reverse_append, reverse_singleton, singleton_append, lastItem]
    split_ifs with hle hlt hlt
    · omega
    · rfl
    · cases hlast : l.getLast? with
      | none => rw [getLast?_eq_none_iff.mp hlast] at hlt; cases hlt
      | some item => rfl
    · omega

theorem insertIdx_length_append (before after : List α) (a : α) :
    (before ++ after).insertIdx before.length a = before ++ a :: after := by
  induction before with
  | nil => simp
  | cons b before ih => simp [ih]

variable (f : α → Option α)

/-- Items inserted behind others, from the last to the first, at the positions the others have
in the original list. -/
theorem foldr_insertIdx (before l : List α) :
    ((l.zipIdx before.length).filterMap fun p => (f p.1).map (p.2, ·)).foldr
        (fun p l => l.insertIdx (p.1 + 1) p.2) (before ++ l) =
      before ++ l.flatMap fun a => a :: (f a).toList := by
  induction l generalizing before with
  | nil => simp
  | cons a l ih =>
    have hrest := ih (before ++ [a])
    rw [length_append, length_singleton, append_assoc, singleton_append] at hrest
    rw [zipIdx_cons, filterMap_cons]
    cases hf : f a with
    | none => simpa [hf] using hrest
    | some b =>
      simp only [Option.map_some, foldr_cons, hrest]
      have hinsert := insertIdx_length_append (before ++ [a])
        (l.flatMap fun a => a :: (f a).toList) b
      simpa [hf] using hinsert

theorem foldl_insertIdx_eq_flatMap (l : List α) :
    (l.zipIdx.filterMap fun p => (f p.1).map (p.2, ·)).reverse.foldl
        (fun l p => l.insertIdx (p.1 + 1) p.2) l =
      l.flatMap fun a => a :: (f a).toList := by
  rw [foldl_reverse]
  exact foldr_insertIdx f [] l

end CodexRs.Splice
