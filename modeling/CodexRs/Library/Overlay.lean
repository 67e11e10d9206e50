import Mathlib.Data.List.Induction
import Mathlib.Data.List.Nodup

/-!
# Previewed and executed changes of a map

Running a plan computes each change from the map at that point, a preview computes all of them
from the initial map and keeps one for each source. A map between contents carries runs and
previews along, and an injective one reflects that they agree.
-/
namespace CodexRs.Overlay

section
open Function List Option

variable {P C : Type*}

/-- A step without its contents. -/
inductive Act (P : Type*) where
  | put (p : P)
  | del (p : P)
  | edit (p : P) (dest : Option P)

namespace Act

def source : Act P → P
  | .put p => p
  | .del p => p
  | .edit p _ => p

def touched : Act P → List P
  | .put p => [p]
  | .del p => [p]
  | .edit p dest => p :: dest.toList

/-- The step computes its change from the entry of its source. -/
def isEdit : Act P → Bool
  | .edit _ _ => true
  | _ => false

theorem source_mem_touched (a : Act P) : a.source ∈ a.touched := by
  cases a <;> simp [source, touched]

end Act

inductive Step (P C : Type*) where
  | put (p : P) (c : C)
  | del (p : P)
  | edit (p : P) (dest : Option P) (f : C → Option C)

/-- What a step does to the map; the entry it starts from is not named. -/
inductive Change (P C : Type*) where
  | put (c : C)
  | del
  | edit (dest : Option P) (c : C)

namespace Step

def act : Step P C → Act P
  | .put p _ => .put p
  | .del p => .del p
  | .edit p dest _ => .edit p dest

abbrev source (st : Step P C) : P := st.act.source

/-- The change a step makes to a map, if it can be made. -/
def change (m : P → Option C) : Step P C → Option (Change P C)
  | .put _ c => some (.put c)
  | .del p => (m p).map fun _ => .del
  | .edit p dest f => ((m p).bind f).map (.edit dest)

end Step

namespace Change

def touched (p : P) : Change P C → List P
  | .put _ => [p]
  | .del => [p]
  | .edit dest _ => p :: dest.toList

/-- The entries after the change: an edit that moves its entry leaves none behind. -/
def Holds (p : P) (m : P → Option C) : Change P C → Prop
  | .put c => m p = some c
  | .del => m p = none
  | .edit none c => m p = some c
  | .edit (some q) c => m q = some c ∧ m p = none

variable [DecidableEq P]

/-- The change made to the entry at `p`; a moved entry is written before it is removed. -/
def write (p : P) (m : P → Option C) : Change P C → P → Option C
  | .put c => update m p (some c)
  | .del => update m p none
  | .edit none c => update m p (some c)
  | .edit (some q) c => update (update m q (some c)) p none

variable {ch : Change P C}

theorem write_of_not_mem {p q : P} (m : P → Option C) (h : q ∉ ch.touched p) :
    ch.write p m q = m q := by
  cases ch with
  | put c | del => exact update_of_ne (by simpa [touched] using h) _ _
  | edit dest c =>
    cases dest with
    | none => exact update_of_ne (by simpa [touched] using h) _ _
    | some d =>
      obtain ⟨hp, hd⟩ : q ≠ p ∧ q ≠ d := by simpa [touched] using h
      rw [write, update_of_ne hp, update_of_ne hd]

/-- A change does what it says unless it moves an entry onto itself. -/
theorem holds_write {p : P} (m : P → Option C) (h : (ch.touched p).Nodup) :
    ch.Holds p (ch.write p m) := by
  cases ch with
  | put c => exact update_self p _ m
  | del => exact update_self p _ m
  | edit dest c =>
    cases dest with
    | none => exact update_self p _ m
    | some d =>
      have hd : d ≠ p := by
        intro hd
        simp [touched, hd] at h
      refine ⟨?_, update_self p _ _⟩
      rw [write, update_of_ne hd, update_self]

omit [DecidableEq P] in
theorem Holds.congr {p : P} {m m' : P → Option C} (h : ch.Holds p m)
    (heq : ∀ q ∈ ch.touched p, m' q = m q) : ch.Holds p m' := by
  cases ch with
  | put c => rwa [Holds, heq p (by simp [touched])]
  | del => rwa [Holds, heq p (by simp [touched])]
  | edit dest c =>
    cases dest with
    | none => rwa [Holds, heq p (by simp [touched])]
    | some d => rwa [Holds, heq p (by simp [touched]), heq d (by simp [touched])]

end Change

variable {st : Step P C} {m : P → Option C} {ch : Change P C}

theorem Step.touched_change (h : st.change m = some ch) :
    ch.touched st.source = st.act.touched := by
  cases st with
  | put p c =>
    cases h
    rfl
  | del p | edit p dest f =>
    obtain ⟨c, -, rfl⟩ := map_eq_some_iff.mp h
    rfl

variable {m m' : P → Option C}

/-- Two maps give a step the same change, for an edit if they agree on its source. -/
theorem Step.change_unique {ch ch' : Change P C}
    (h : st.change m = some ch) (h' : st.change m' = some ch')
    (heq : st.act.isEdit = true → m' st.source = m st.source) : ch' = ch := by
  cases st with
  | put p c =>
    cases h
    cases h'
    rfl
  | del p =>
    obtain ⟨c, -, rfl⟩ := map_eq_some_iff.mp h
    obtain ⟨c', -, rfl⟩ := map_eq_some_iff.mp h'
    rfl
  | edit p dest f =>
    have hp : m' p = m p := heq rfl
    rw [change, hp] at h'
    exact some_inj.mp (h'.symm.trans h)

variable [DecidableEq P]

def Step.run (m : P → Option C) (st : Step P C) : Option (P → Option C) :=
  (st.change m).map fun ch => ch.write st.source m

/-- The steps one after the other, each on the map the last one left. -/
def run (m : P → Option C) (steps : List (Step P C)) : Option (P → Option C) :=
  steps.foldlM Step.run m

def Step.record (m : P → Option C) (changes : P → Option (Change P C)) (st : Step P C) :
    Option (P → Option (Change P C)) :=
  (st.change m).map fun ch => update changes st.source (some ch)

/-- The changes of all steps to the initial map; a later one replaces an earlier one of the same
source. -/
def preview (m : P → Option C) (steps : List (Step P C)) : Option (P → Option (Change P C)) :=
  steps.foldlM (Step.record m) fun _ => none

/-- The map `m'` is `m` overlaid with the changes. -/
structure Overlaid (m : P → Option C) (changes : P → Option (Change P C)) (m' : P → Option C) :
    Prop where
  holds : ∀ p ch, changes p = some ch → ch.Holds p m'
  frame : ∀ q, (∀ p ch, changes p = some ch → q ∉ ch.touched p) → m' q = m q

variable {pre post : List (Step P C)}

theorem run_append :
    run m (pre ++ post) = some m' ↔ ∃ m₁, run m pre = some m₁ ∧ run m₁ post = some m' := by
  rw [run, foldlM_append]
  exact bind_eq_some_iff

variable {steps : List (Step P C)}

theorem run_cons (h : run m (st :: steps) = some m') :
    ∃ ch, st.change m = some ch ∧ run (ch.write st.source m) steps = some m' := by
  obtain ⟨m₁, hst, hrest⟩ := bind_eq_some_iff.mp h
  obtain ⟨ch, hch, rfl⟩ := map_eq_some_iff.mp hst
  exact ⟨ch, hch, hrest⟩

/-- A run through one of its steps: the map before the step and its change there. -/
theorem run_split (h : run m (pre ++ st :: post) = some m') :
    ∃ m₁ ch, run m pre = some m₁ ∧ st.change m₁ = some ch ∧
      run (ch.write st.source m₁) post = some m' := by
  obtain ⟨m₁, hpre, hrest⟩ := run_append.mp h
  obtain ⟨ch, hch, hpost⟩ := run_cons hrest
  exact ⟨m₁, ch, hpre, hch, hpost⟩

theorem run_frame {q : P}
    (h : run m steps = some m') (hq : ∀ st ∈ steps, q ∉ st.act.touched) : m' q = m q := by
  induction steps generalizing m with
  | nil =>
    cases h
    rfl
  | cons st steps ih =>
    obtain ⟨ch, hch, hpost⟩ := run_cons h
    rw [ih hpost fun st' hst' => hq st' (mem_cons_of_mem _ hst')]
    apply ch.write_of_not_mem
    rw [Step.touched_change hch]
    exact hq st mem_cons_self

variable {changes : P → Option (Change P C)}

theorem preview_concat (h : preview m (steps ++ [st]) = some changes) :
    ∃ before ch, preview m steps = some before ∧ st.change m = some ch ∧
      changes = update before st.source (some ch) := by
  rw [preview, foldlM_append] at h
  obtain ⟨before, hbefore, h⟩ := bind_eq_some_iff.mp h
  simp only [foldlM_cons, foldlM_nil, bind_eq_bind, Option.pure_def,
    bind_fun_some] at h
  obtain ⟨ch, hch, rfl⟩ := map_eq_some_iff.mp h
  exact ⟨before, ch, hbefore, hch, rfl⟩

/-- A step is kept in the preview when no later step has its source. -/
theorem preview_kept (h : preview m (pre ++ st :: post) = some changes)
    (hpost : ∀ k ∈ post, k.source ≠ st.source) :
    ∃ ch, st.change m = some ch ∧ changes st.source = some ch := by
  induction post using reverseRecOn generalizing changes with
  | nil =>
    obtain ⟨before, ch, -, hch, rfl⟩ := preview_concat h
    exact ⟨ch, hch, update_self _ _ _⟩
  | append_singleton post k ih =>
    rw [← cons_append, ← append_assoc] at h
    obtain ⟨before, ch', hbefore, -, rfl⟩ := preview_concat h
    obtain ⟨ch, hch, hkept⟩ := ih hbefore fun k hk => hpost k (mem_append_left _ hk)
    refine ⟨ch, hch, ?_⟩
    rw [update_of_ne (hpost k (by simp)).symm, hkept]

/-- Every change in the preview is that of the last step with its source. -/
theorem exists_kept {p : P} (h : preview m steps = some changes) (hp : changes p = some ch) :
    ∃ pre st post, steps = pre ++ st :: post ∧ st.source = p ∧
      (∀ k ∈ post, k.source ≠ p) ∧ st.change m = some ch := by
  induction steps using reverseRecOn generalizing changes with
  | nil =>
    cases h
    cases hp
  | append_singleton steps st ih =>
    obtain ⟨before, ch', hbefore, hch', rfl⟩ := preview_concat h
    by_cases hst : p = st.source
    · subst hst
      rw [update_self] at hp
      cases hp
      exact ⟨steps, st, [], rfl, rfl, by simp, hch'⟩
    · rw [update_of_ne hst] at hp
      obtain ⟨pre, k, post, rfl, hk, hpost, hch⟩ := ih hbefore hp
      exact ⟨pre, k, post ++ [st], by simp, hk,
        forall_mem_append.mpr ⟨hpost, forall_mem_singleton.mpr (Ne.symm hst)⟩, hch⟩

end

open Change Option Step

variable {P C D : Type*} (g : C → D)

def Change.map : Change P C → Change P D
  | .put c => .put (g c)
  | .del => .del
  | .edit dest c => .edit dest (g c)

def lift (m : P → Option C) : P → Option D := fun p => (m p).map g

/-- The step does to the images of contents what another one does to the contents. -/
inductive Step.Lifts : Step P C → Step P D → Prop
  | put {p c} : Lifts (.put p c) (.put p (g c))
  | del {p} : Lifts (.del p) (.del p)
  | edit {p dest f f'} : (∀ c, f' (g c) = (f c).map g) → Lifts (.edit p dest f) (.edit p dest f')

variable {g}

theorem Step.Lifts.act_eq {st : Step P C} {st' : Step P D} (h : st.Lifts g st') :
    st'.act = st.act := by
  cases h <;> rfl

theorem Step.Lifts.change_lift {st : Step P C} {st' : Step P D} (h : st.Lifts g st')
    (m : P → Option C) : st'.change (lift g m) = (st.change m).map (map g) := by
  cases h with
  | put => rfl
  | @del p =>
    simp only [change, lift]
    cases m p <;> rfl
  | @edit p dest f f' hf =>
    simp only [change, lift]
    cases m p with
    | none => rfl
    | some c =>
      simp only [map_some, bind_some, hf]
      cases f c <;> rfl

theorem holds_lift (hg : Function.Injective g) {p : P} {m : P → Option C} {ch : Change P C}
    (h : (ch.map g).Holds p (lift g m)) : ch.Holds p m := by
  have hsome {q : P} {c : C} (h : lift g m q = some (g c)) : m q = some c := map_injective hg h
  have hnone {q : P} (h : lift g m q = none) : m q = none := map_eq_none_iff.mp h
  cases ch with
  | put c => exact hsome h
  | del => exact hnone h
  | edit dest c =>
    cases dest with
    | none => exact hsome h
    | some q => exact ⟨hsome h.1, hnone h.2⟩

theorem touched_map (p : P) (ch : Change P C) : (ch.map g).touched p = ch.touched p := by
  cases ch <;> rfl

theorem overlaid_lift (hg : Function.Injective g) {m m' : P → Option C}
    {changes : P → Option (Change P C)}
    (h : Overlaid (lift g m) (lift (map g) changes) (lift g m')) :
    Overlaid m changes m' where
  holds p ch hp := holds_lift hg (h.holds p _ (by rw [lift, hp]; rfl))
  frame q hq := by
    apply map_injective hg
    apply h.frame q
    intro p ch' hp
    obtain ⟨ch, hch, rfl⟩ := map_eq_some_iff.mp hp
    rw [touched_map]
    exact hq p ch hch

variable [DecidableEq P]

theorem lift_update (m : P → Option C) (p : P) (v : Option C) :
    lift g (Function.update m p v) = Function.update (lift g m) p (v.map g) := by
  funext q
  by_cases h : q = p
  · subst q
    simp [lift]
  · simp [lift, h]

theorem write_map (p : P) (m : P → Option C) (ch : Change P C) :
    (ch.map g).write p (lift g m) = lift g (ch.write p m) := by
  cases ch with
  | put c => exact (lift_update m p (some c)).symm
  | del => exact (lift_update m p none).symm
  | edit dest c =>
    cases dest with
    | none => exact (lift_update m p (some c)).symm
    | some q => simp [map, write, lift_update]

variable {steps' : List (Step P D)} {steps : List (Step P C)}

theorem run_lift (h : List.Forall₂ (Lifts g) steps steps') (m : P → Option C) :
    run (lift g m) steps' = (run m steps).map (lift g) := by
  induction h generalizing m with
  | nil => rfl
  | @cons st st' steps steps' hst _ ih =>
    rw [run, List.foldlM_cons, Step.run, hst.change_lift, run, List.foldlM_cons, Step.run]
    cases st.change m with
    | none => rfl
    | some ch =>
      simp only [map_some, source, hst.act_eq, write_map]
      exact ih _

theorem preview_lift (h : List.Forall₂ (Lifts g) steps steps') (m : P → Option C) :
    preview (lift g m) steps' = (preview m steps).map (lift (map g)) := by
  have hfold : ∀ changes : P → Option (Change P C),
      steps'.foldlM (Step.record (lift g m)) (lift (map g) changes) =
        (steps.foldlM (Step.record m) changes).map (lift (map g)) := by
    induction h with
    | nil => exact fun changes => rfl
    | @cons st st' steps steps' hst _ ih =>
      intro changes
      rw [List.foldlM_cons, Step.record, hst.change_lift, List.foldlM_cons, Step.record]
      cases st.change m with
      | none => rfl
      | some ch =>
        simp only [map_some, bind_eq_bind, bind_some]
        rw [← ih, lift_update, source, hst.act_eq]
        rfl
  exact hfold fun _ => none

end CodexRs.Overlay
