import CodexRs.Library.Lists
import CodexRs.Library.Overlay

/-!
# Safe and unsafe plans

In a safe plan a step that is not shown leaves no trace, and one that is shown has the last word
on what it touches. If every step leaves a mark of its own in what it writes, the marks tell which
step had the last word on an entry.
-/
namespace CodexRs.Overlay
open Act List Option Step

variable {P C : Type*}

def Overridden (a : Act P) (post : List (Act P)) : Prop := ∃ k ∈ post, k.source = a.source

/-- What a step shown in the preview asks of the steps before and behind it. -/
def ShownSafe (pre : List (Act P)) (a : Act P) (post : List (Act P)) : Prop :=
  (∀ p ∈ a.touched, ∀ k ∈ post, p ∉ k.touched) ∧ a.touched.Nodup ∧
    (a.isEdit = true → ∀ k ∈ pre, a.source ∉ k.touched)

def HiddenSafe (a : Act P) (post : List (Act P)) : Prop :=
  ∀ p ∈ a.touched, ∃ k ∈ post, p ∈ k.touched

def StepSafe (pre : List (Act P)) (a : Act P) (post : List (Act P)) : Prop :=
  (Overridden a post → HiddenSafe a post) ∧ (¬ Overridden a post → ShownSafe pre a post)

def SafeFrom (pre : List (Act P)) : List (Act P) → Prop
  | [] => True
  | a :: post => StepSafe pre a post ∧ SafeFrom (pre ++ [a]) post

/-- Every step is safe where it stands in the plan. -/
def Safe (plan : List (Act P)) : Prop := SafeFrom [] plan

theorem safeFrom_iff {pre plan : List (Act P)} :
    SafeFrom pre plan ↔ ∀ mid a post, plan = mid ++ a :: post → StepSafe (pre ++ mid) a post := by
  induction plan generalizing pre with
  | nil => simp [SafeFrom]
  | cons b plan ih =>
    rw [SafeFrom, ih]
    constructor
    · rintro ⟨hb, hplan⟩ mid a post h
      cases mid with
      | nil =>
        cases h
        rwa [append_nil]
      | cons c mid =>
        obtain ⟨rfl, hmid⟩ := cons.inj h
        simpa using hplan mid a post hmid
    · intro h
      refine ⟨by simpa using h [] b plan rfl, ?_⟩
      rintro mid a post rfl
      simpa using h (b :: mid) a post rfl

variable {st : Step P C}

theorem Safe.step {pre post : List (Step P C)} (h : Safe ((pre ++ st :: post).map act)) :
    StepSafe (pre.map act) st.act (post.map act) := by
  have hsafe := safeFrom_iff.mp h (pre.map act) st.act (post.map act) (by simp)
  rwa [List.nil_append] at hsafe

theorem not_overridden {post : List (Step P C)}
    (h : ∀ k ∈ post, k.source ≠ st.source) : ¬ Overridden st.act (post.map act) := by
  rintro ⟨a, ha, heq⟩
  obtain ⟨k, hk, rfl⟩ := mem_map.mp ha
  exact h k hk heq

/-- The step of an act whose contents do not matter. -/
def Act.blank : Act P → Step P Unit
  | .put p => .put p ()
  | .del p => .del p
  | .edit p dest => .edit p dest some

variable {m : P → Option C} {u : P → Option Unit} {steps : List (Step P C)}

theorem blank_change {ch : Change P C} (h : st.change m = some ch)
    (hu : (m st.source).isSome = true → (u st.source).isSome = true) :
    st.act.blank.change u = some (ch.map fun _ => ()) := by
  cases st with
  | put p c =>
    cases h
    rfl
  | del p =>
    obtain ⟨c, hc, rfl⟩ := map_eq_some_iff.mp h
    obtain ⟨v, hup⟩ := isSome_iff_exists.mp (hu (isSome_of_eq_some hc))
    exact map_eq_some_iff.mpr ⟨v, hup, rfl⟩
  | edit p dest f =>
    obtain ⟨d, hd, rfl⟩ := map_eq_some_iff.mp h
    obtain ⟨c, hc, -⟩ := bind_eq_some_iff.mp hd
    obtain ⟨v, hup⟩ := isSome_iff_exists.mp (hu (isSome_of_eq_some hc))
    exact map_eq_some_iff.mpr ⟨v, bind_eq_some_iff.mpr ⟨v, hup, rfl⟩, rfl⟩

/-- The step of an act that leaves the mark `i` at the end of what it writes. -/
def Act.mark (i : ℕ) : Act P → Step P (List ℕ)
  | .put p => .put p [i]
  | .del p => .del p
  | .edit p dest => .edit p dest fun w => some (w ++ [i])

def marks (i : ℕ) : List (Act P) → List (Step P (List ℕ))
  | [] => []
  | a :: plan => a.mark i :: marks (i + 1) plan

/-- No entry, or one whose last mark is `i`. -/
def Bears (i : ℕ) (v : Option (List ℕ)) : Prop := v = none ∨ ∃ w, v = some (w ++ [i])

section
variable {i j : ℕ} {a : Act P} {plan pre post : List (Act P)} {m m' : P → Option (List ℕ)}
  {ch : Change P (List ℕ)} {q : P} {v : Option (List ℕ)}

theorem Bears.unique (hi : Bears i v) (hj : Bears j v) (hv : v ≠ none) : i = j := by
  obtain ⟨w, hw⟩ := hi.resolve_left hv
  obtain ⟨w', hw'⟩ := hj.resolve_left hv
  have heq : w ++ [i] = w' ++ [j] := some_inj.mp (hw.symm.trans hw')
  exact singleton_inj.mp (append_inj' heq rfl).2

@[simp] theorem act_mark (i : ℕ) (a : Act P) : (a.mark i).act = a := by
  cases a <;> rfl

@[simp] theorem source_mark (i : ℕ) (a : Act P) : (a.mark i).source = a.source := by
  rw [Step.source, act_mark]

theorem map_act_marks (i : ℕ) (plan : List (Act P)) : (marks i plan).map act = plan := by
  induction plan generalizing i with
  | nil => rfl
  | cons a plan ih => rw [marks, map_cons, ih, act_mark]

theorem marks_append (i : ℕ) (pre post : List (Act P)) :
    marks i (pre ++ post) = marks i pre ++ marks (i + pre.length) post := by
  induction pre generalizing i with
  | nil => rfl
  | cons a pre ih =>
    rw [cons_append, marks, ih, marks, cons_append, length_cons, Nat.add_assoc, Nat.add_comm 1]

theorem marks_split {spre spost : List (Step P (List ℕ))} {st : Step P (List ℕ)}
    (h : marks i plan = spre ++ st :: spost) :
    ∃ pre a post, plan = pre ++ a :: post ∧ st = a.mark (i + pre.length) ∧
      spost.map act = post := by
  induction spre generalizing i plan with
  | nil =>
    cases plan with
    | nil => cases h
    | cons a plan =>
      obtain ⟨rfl, rfl⟩ := cons.inj h
      exact ⟨[], a, plan, rfl, rfl, map_act_marks _ _⟩
  | cons k spre ih =>
    cases plan with
    | nil => cases h
    | cons b plan =>
      obtain ⟨-, hrest⟩ := cons.inj h
      obtain ⟨pre, a, post, rfl, rfl, hpost⟩ := ih hrest
      refine ⟨b :: pre, a, post, rfl, ?_, hpost⟩
      rw [length_cons, Nat.add_assoc, Nat.add_comm 1]

theorem bears_holds (h : (a.mark i).change m = some ch) (hh : ch.Holds a.source m')
    (hq : q ∈ a.touched) : Bears i (m' q) ∧ (q ≠ a.source → m' q ≠ none) := by
  cases a with
  | put p =>
    cases h
    obtain rfl : q = p := by simpa [touched] using hq
    exact ⟨.inr ⟨[], hh⟩, fun hne => absurd rfl hne⟩
  | del p =>
    obtain ⟨c, -, rfl⟩ := map_eq_some_iff.mp h
    obtain rfl : q = p := by simpa [touched] using hq
    exact ⟨.inl hh, fun hne => absurd rfl hne⟩
  | edit p dest =>
    obtain ⟨d, hd, rfl⟩ := map_eq_some_iff.mp h
    obtain ⟨w, -, hw⟩ := bind_eq_some_iff.mp hd
    cases hw
    cases dest with
    | none =>
      obtain rfl : q = p := by simpa [touched] using hq
      exact ⟨.inr ⟨w, hh⟩, fun hne => absurd rfl hne⟩
    | some d =>
      by_cases hqp : q = p
      · subst q
        exact ⟨.inl hh.2, fun hne => absurd rfl hne⟩
      · obtain rfl : q = d := by simpa [touched, hqp] using hq
        exact ⟨.inr ⟨w, hh.1⟩, fun _ => by rw [hh.1]; simp⟩

theorem Change.Holds.edit_unique {C : Type*} {m : P → Option C} {p : P} {dest : Option P}
    {c c' : C} (h : (Change.edit dest c).Holds p m) (h' : (Change.edit dest c').Holds p m) :
    c = c' := by
  cases dest with
  | none => exact some_inj.mp (h.symm.trans h')
  | some q => exact some_inj.mp (h.1.symm.trans h'.1)

/-- A change that holds does not move an entry onto itself. -/
theorem nodup_touched_of_holds (hch : (a.mark i).change m = some ch)
    (hholds : ch.Holds a.source m') : a.touched.Nodup := by
  cases a with
  | put p => exact nodup_singleton p
  | del p => exact nodup_singleton p
  | edit p dest =>
    cases dest with
    | none => exact nodup_singleton p
    | some d =>
      obtain ⟨c, -, rfl⟩ := map_eq_some_iff.mp hch
      have hne : p ≠ d := by
        rintro rfl
        exact some_ne_none _ (hholds.1.symm.trans hholds.2)
      simpa [touched] using hne

theorem lifts_blank (i : ℕ) (plan : List (Act P)) :
    Forall₂ (Lifts fun _ => ()) (marks i plan) (plan.map blank) := by
  induction plan generalizing i with
  | nil => exact .nil
  | cons a plan ih =>
    refine .cons ?_ (ih _)
    cases a with
    | put p => exact .put
    | del p => exact .del
    | edit p dest => exact .edit fun _ => rfl

theorem change_mark_isSome (h : ∀ a ∈ plan, (m a.source).isSome = true) :
    ∀ st ∈ marks i plan, (st.change m).isSome = true := by
  intro st hst
  obtain ⟨spre, spost, hsplit⟩ := append_of_mem hst
  obtain ⟨pre, a, post, rfl, rfl, -⟩ := marks_split hsplit
  have ha := h a (by simp)
  cases a with
  | put p => rfl
  | del p => simpa [mark, change, Act.source] using ha
  | edit p dest =>
    obtain ⟨w, hw⟩ := isSome_iff_exists.mp ha
    simp [mark, change, show m p = some w from hw]

def touchedPaths (plan : List (Act P)) : List P := plan.flatMap touched

variable [DecidableEq P]

def ground (c : C) (paths : List P) : P → Option C :=
  fun p => if p ∈ paths then some c else none

theorem bears_write (h : (a.mark i).change m = some ch) (hq : q ∈ a.touched) :
    Bears i (ch.write a.source m q) ∧ (q ≠ a.source → ch.write a.source m q ≠ none) := by
  have htouched : ch.touched a.source = a.touched := by simpa using touched_change h
  by_cases hnodup : a.touched.Nodup
  · exact bears_holds h (ch.holds_write m (htouched ▸ hnodup)) hq
  · cases a with
    | put p => simp [touched] at hnodup
    | del p => simp [touched] at hnodup
    | edit p dest =>
      obtain ⟨d, -, rfl⟩ := map_eq_some_iff.mp h
      cases dest with
      | none => simp [touched] at hnodup
      | some d =>
        obtain rfl : p = d := by simpa [touched] using hnodup
        obtain rfl : q = p := by simpa [touched] using hq
        exact ⟨.inl (Function.update_self _ _ _), fun hne => absurd rfl hne⟩

theorem run_frame_marks (h : run m (marks i post) = some m') (hq : ∀ k ∈ post, q ∉ k.touched) :
    m' q = m q := by
  apply run_frame h
  intro st hst
  have hmem : st.act ∈ (marks i post).map act := mem_map_of_mem hst
  rw [map_act_marks] at hmem
  exact hq st.act hmem

/-- The last step that touches an entry leaves its mark there. -/
theorem bears_run (h : run m (marks i (pre ++ a :: post)) = some m') (hq : q ∈ a.touched)
    (hpost : ∀ k ∈ post, q ∉ k.touched) :
    Bears (i + pre.length) (m' q) ∧ (q ≠ a.source → m' q ≠ none) := by
  rw [marks_append] at h
  obtain ⟨m₁, ch, -, hch, hrest⟩ := run_split h
  rw [source_mark] at hrest
  rw [run_frame_marks hrest hpost]
  exact bears_write hch hq

variable {changes : P → Option (Change P (List ℕ))}

theorem exists_shown {p : P}
    (hpreview : preview m (marks i plan) = some changes) (hp : changes p = some ch) :
    ∃ pre a post, plan = pre ++ a :: post ∧ a.source = p ∧ ¬ Overridden a post ∧
      (a.mark (i + pre.length)).change m = some ch := by
  obtain ⟨spre, st, spost, hsplit, rfl, hspost, hch⟩ := exists_kept hpreview hp
  obtain ⟨pre, a, post, rfl, rfl, rfl⟩ := marks_split hsplit
  refine ⟨pre, a, _, rfl, (source_mark _ a).symm, ?_, hch⟩
  simpa using not_overridden hspost

/-- What the preview shows for a step that is not overridden. -/
theorem holds_of_shown (hpreview : preview m (marks i (pre ++ a :: post)) = some changes)
    (hover : ¬ Overridden a post) (hoverlaid : Overlaid m changes m') :
    ∃ ch, (a.mark (i + pre.length)).change m = some ch ∧ ch.Holds a.source m' := by
  rw [marks_append] at hpreview
  have hlast : ∀ k ∈ marks (i + pre.length + 1) post,
      k.source ≠ (a.mark (i + pre.length)).source := by
    intro k hk heq
    have hmem : k.act ∈ (marks (i + pre.length + 1) post).map act := mem_map_of_mem hk
    rw [map_act_marks] at hmem
    exact hover ⟨k.act, hmem, heq.trans (source_mark _ a)⟩
  obtain ⟨ch, hch, hkept⟩ := preview_kept hpreview hlast
  refine ⟨ch, hch, ?_⟩
  simpa using hoverlaid.holds _ ch hkept

/-- The change made by a step that has the last word holds in the end. -/
theorem holds_of_run (h : run m (marks i (pre ++ a :: post)) = some m')
    (hlast : ∀ p ∈ a.touched, ∀ k ∈ post, p ∉ k.touched) (hnodup : a.touched.Nodup) :
    ∃ m₁ ch, run m (marks i pre) = some m₁ ∧ (a.mark (i + pre.length)).change m₁ = some ch ∧
      ch.Holds a.source m' := by
  rw [marks_append] at h
  obtain ⟨m₁, ch, hpre, hch, hrest⟩ := run_split h
  have htouched : ch.touched a.source = a.touched := by simpa using touched_change hch
  rw [source_mark] at hrest
  refine ⟨m₁, ch, hpre, hch, (ch.holds_write m₁ (htouched ▸ hnodup)).congr fun q hq => ?_⟩
  exact run_frame_marks hrest (hlast q (htouched ▸ hq))

/-- A step that the preview does not show must leave no trace. -/
theorem hiddenSafe_of_overlaid {paths : List P}
    (hrun : run (ground [0] paths) (marks 1 (pre ++ a :: post)) = some m')
    (hpreview : preview (ground [0] paths) (marks 1 (pre ++ a :: post)) = some changes)
    (hover : Overridden a post) (hoverlaid : Overlaid (ground [0] paths) changes m') :
    HiddenSafe a post := by
  intro q hq
  by_contra! hlast
  have hne : q ≠ a.source := by
    rintro rfl
    obtain ⟨k, hk, hka⟩ := hover
    exact hlast k hk (hka ▸ k.source_mem_touched)
  obtain ⟨hbears, hsome⟩ := bears_run hrun hq hlast
  by_cases hshown : ∀ p ch, changes p = some ch → q ∉ ch.touched p
  · have hground : Bears 0 (m' q) := by
      rw [hoverlaid.frame q hshown, ground]
      split_ifs
      · exact .inr ⟨[], rfl⟩
      · exact .inl rfl
    have hzero := hground.unique hbears (hsome hne)
    omega
  · apply hshown
    intro p ch hp hmem
    obtain ⟨pre', b, post', hplan, rfl, hover', hch⟩ := exists_shown hpreview hp
    have htouched : ch.touched b.source = b.touched := by simpa using touched_change hch
    have hbears' := (bears_holds hch (hoverlaid.holds _ ch hp) (htouched ▸ hmem)).1
    have hlength := hbears.unique hbears' (hsome hne)
    obtain ⟨-, hrest⟩ := append_inj hplan (by omega)
    obtain ⟨rfl, rfl⟩ := cons.inj hrest
    exact hover' hover

/-- A step whose change holds in the end has the last word on what it touches, unless it is
overridden. -/
theorem last_of_holds {ch : Change P (List ℕ)}
    (hrun : run m (marks i (pre ++ a :: post)) = some m') (hover : ¬ Overridden a post)
    (hch : (a.mark (i + pre.length)).change m = some ch) (hholds : ch.Holds a.source m') :
    ∀ p ∈ a.touched, ∀ k ∈ post, p ∉ k.touched := by
  intro p hp
  by_contra! hlater
  obtain ⟨mid, k, rest, rfl, hk, hrest⟩ := Lists.exists_last hlater
  obtain ⟨hbears, hsome⟩ := bears_holds hch hholds hp
  rw [← cons_append, ← append_assoc] at hrun
  obtain ⟨hbears', hsome'⟩ := bears_run hrun hk hrest
  by_cases hnone : m' p = none
  · have hpa : p = a.source := by
      by_contra hne
      exact hsome hne hnone
    have hpk : p = k.source := by
      by_contra hne
      exact hsome' hne hnone
    exact hover ⟨k, by simp, hpk.symm.trans hpa⟩
  · have hlength := hbears.unique hbears' hnone
    simp only [length_append, length_cons] at hlength
    omega

theorem shownSafe_of_overlaid {paths : List P} (hpaths : a.source ∈ paths)
    (hrun : run (ground [0] paths) (marks 1 (pre ++ a :: post)) = some m')
    (hpreview : preview (ground [0] paths) (marks 1 (pre ++ a :: post)) = some changes)
    (hover : ¬ Overridden a post) (hoverlaid : Overlaid (ground [0] paths) changes m') :
    ShownSafe pre a post := by
  obtain ⟨ch, hch, hholds⟩ := holds_of_shown hpreview hover hoverlaid
  have hlast := last_of_holds hrun hover hch hholds
  have hnodup := nodup_touched_of_holds hch hholds
  refine ⟨hlast, hnodup, fun hedit => ?_⟩
  by_contra! hearlier
  obtain ⟨mid, k, rest, rfl, hk, hrest⟩ := Lists.exists_last hearlier
  obtain ⟨m₁, ch₁, hpre, hch₁, hholds₁⟩ := holds_of_run hrun hlast hnodup
  have hbears := (bears_run hpre hk hrest).1
  cases a with
  | put p => cases hedit
  | del p => cases hedit
  | edit p dest =>
    obtain ⟨c, hc, rfl⟩ := map_eq_some_iff.mp hch
    obtain ⟨c₁, hc₁, rfl⟩ := map_eq_some_iff.mp hch₁
    obtain ⟨w, hw, hcw⟩ := bind_eq_some_iff.mp hc
    obtain ⟨w₁, hw₁, hcw₁⟩ := bind_eq_some_iff.mp hc₁
    cases hcw
    cases hcw₁
    have hsame := append_cancel_right (hholds.edit_unique hholds₁)
    have hground : ground [0] paths p = some [0] := if_pos hpaths
    obtain rfl : w = [0] := some_inj.mp (hw.symm.trans hground)
    have hzero : Bears 0 (m₁ p) := .inr ⟨[], by rw [hw₁, ← hsame]; rfl⟩
    have hlength := hzero.unique hbears (by simp [hw₁])
    omega

theorem safe_of_overlaid (hrun : run (ground [0] (touchedPaths plan)) (marks 1 plan) = some m')
    (hpreview : preview (ground [0] (touchedPaths plan)) (marks 1 plan) = some changes)
    (hoverlaid : Overlaid (ground [0] (touchedPaths plan)) changes m') : Safe plan := by
  apply safeFrom_iff.mpr
  rintro pre a post rfl
  constructor
  · exact fun hover => hiddenSafe_of_overlaid hrun hpreview hover hoverlaid
  · intro hover
    apply shownSafe_of_overlaid _ hrun hpreview hover hoverlaid
    exact mem_flatMap.mpr ⟨a, by simp, a.source_mem_touched⟩

end

variable [DecidableEq P]

instance (a : Act P) (post : List (Act P)) : Decidable (Overridden a post) :=
  inferInstanceAs (Decidable (∃ k ∈ post, k.source = a.source))

instance (pre : List (Act P)) (a : Act P) (post : List (Act P)) :
    Decidable (ShownSafe pre a post) := inferInstanceAs (Decidable (_ ∧ _ ∧ _))

instance (a : Act P) (post : List (Act P)) : Decidable (HiddenSafe a post) :=
  inferInstanceAs (Decidable (∀ p ∈ a.touched, ∃ k ∈ post, p ∈ k.touched))

instance (pre : List (Act P)) (a : Act P) (post : List (Act P)) :
    Decidable (StepSafe pre a post) := inferInstanceAs (Decidable (_ ∧ _))

def SafeFrom.decidable (pre : List (Act P)) : (plan : List (Act P)) → Decidable (SafeFrom pre plan)
  | [] => inferInstanceAs (Decidable True)
  | a :: post =>
    have := SafeFrom.decidable (pre ++ [a]) post
    inferInstanceAs (Decidable (StepSafe pre a post ∧ SafeFrom (pre ++ [a]) post))

instance (plan : List (Act P)) : Decidable (Safe plan) := SafeFrom.decidable [] plan

/-- A safe plan does what its preview shows. -/
theorem overlaid_of_safe {m' : P → Option C} {changes : P → Option (Change P C)}
    (hsafe : Safe (steps.map act))
    (hrun : run m steps = some m') (hpreview : preview m steps = some changes) :
    Overlaid m changes m' where
  holds p ch hp := by
    obtain ⟨pre, st, post, rfl, rfl, hpost, hch⟩ := exists_kept hpreview hp
    obtain ⟨hlast, hnodup, hfresh⟩ := hsafe.step.2 (not_overridden hpost)
    obtain ⟨m₁, ch₁, hpre, hch₁, hrest⟩ := run_split hrun
    have hsource (hedit : st.act.isEdit = true) : m₁ st.source = m st.source :=
      run_frame hpre fun k hk => hfresh hedit k.act (mem_map_of_mem hk)
    obtain rfl : ch₁ = ch := change_unique hch hch₁ hsource
    have htouched := touched_change hch
    apply (ch₁.holds_write m₁ (htouched ▸ hnodup)).congr
    intro q hq
    exact run_frame hrest fun k hk => hlast q (htouched ▸ hq) k.act (mem_map_of_mem hk)
  frame q hq := by
    by_contra hne
    have htouch : ∃ st ∈ steps, q ∈ st.act.touched := by
      by_contra hnone
      exact hne (run_frame hrun fun st hst hmem => hnone ⟨st, hst, hmem⟩)
    obtain ⟨pre, st, post, rfl, hst, hpost⟩ := Lists.exists_last htouch
    by_cases hover : Overridden st.act (post.map act)
    · obtain ⟨a, ha, hqa⟩ := hsafe.step.1 hover q hst
      obtain ⟨k, hk, rfl⟩ := mem_map.mp ha
      exact hpost k hk hqa
    · obtain ⟨ch, hch, hkept⟩ := preview_kept hpreview fun k hk heq =>
        hover ⟨k.act, mem_map_of_mem hk, heq⟩
      apply hq _ _ hkept
      rwa [touched_change hch]

/-- The plan can be carried out on a map that has all entries the plan touches. -/
def Feasible (plan : List (Act P)) : Prop :=
  (run (ground () (touchedPaths plan)) (plan.map blank)).isSome = true

instance (plan : List (Act P)) : Decidable (Feasible plan) :=
  inferInstanceAs (Decidable (_ = true))

theorem isSome_write {ch : Change P C} {q : P} (p : P)
    (h : (m q).isSome = true → (u q).isSome = true) :
    (ch.write p m q).isSome = true → ((ch.map fun _ => ()).write p u q).isSome = true := by
  rcases ch with c | _ | ⟨_ | d, c⟩ <;>
    simp only [Change.write, Change.map, Function.update_apply] <;> split_ifs <;> simp_all

theorem feasible_of_run {m' : P → Option C} (h : run m steps = some m') : Feasible (steps.map act) := by
  have hrun : ∀ (steps : List (Step P C)) (m : P → Option C) (u : P → Option Unit),
      (∀ st ∈ steps, ∀ q ∈ st.act.touched, (m q).isSome = true → (u q).isSome = true) →
      run m steps = some m' → (run u ((steps.map act).map blank)).isSome = true := by
    intro steps
    induction steps with
    | nil => exact fun _ _ _ _ => rfl
    | cons st steps ih =>
      intro m u hu h
      obtain ⟨ch, hch, hpost⟩ := run_cons h
      have hblank := blank_change hch (hu st mem_cons_self _ st.act.source_mem_touched)
      have hsource : st.act.blank.source = st.source := by cases st <;> rfl
      rw [map_cons, map_cons, run, foldlM_cons, Step.run, hblank, hsource]
      apply ih _ _ _ hpost
      intro k hk q hq
      exact isSome_write st.source (hu k (mem_cons_of_mem _ hk) q hq)
  apply hrun steps m _ _ h
  intro st hst q hq _
  have hmem : q ∈ touchedPaths (steps.map act) := mem_flatMap.mpr ⟨st.act, mem_map_of_mem hst, hq⟩
  rw [ground, if_pos hmem]
  rfl

theorem lift_ground {C D : Type*} (g : C → D) (c : C) (paths : List P) :
    lift g (ground c paths) = ground (g c) paths := by
  funext p
  simp only [lift, ground]
  split_ifs <;> rfl

theorem preview_isSome (h : ∀ st ∈ steps, (st.change m).isSome = true) :
    (preview m steps).isSome = true := by
  induction steps using reverseRecOn with
  | nil => rfl
  | append_singleton steps st ih =>
    obtain ⟨changes, hchanges⟩ := isSome_iff_exists.mp
      (ih fun k hk => h k (mem_append_left _ hk))
    obtain ⟨ch, hch⟩ := isSome_iff_exists.mp (h st (by simp))
    rw [preview] at hchanges ⊢
    simp [hchanges, record, hch]

/-- A plan that can be carried out, with contents in which marks can be written, does what its
preview shows only if it is safe. -/
theorem safe_of_lifted {plan : List (Act P)} {g : List ℕ → C} (hg : Function.Injective g)
    (hsteps : Forall₂ (Lifts g) (marks 1 plan) steps) (hfeasible : Feasible plan)
    (h : ∀ m' changes, run (ground (g [0]) (touchedPaths plan)) steps = some m' →
      preview (ground (g [0]) (touchedPaths plan)) steps = some changes →
      Overlaid (ground (g [0]) (touchedPaths plan)) changes m') : Safe plan := by
  have hrun : (run (ground [0] (touchedPaths plan)) (marks 1 plan)).isSome = true := by
    rw [Feasible, ← lift_ground (fun _ => ()) [0], run_lift (lifts_blank 1 plan)] at hfeasible
    simpa using hfeasible
  have hpreview : (preview (ground [0] (touchedPaths plan)) (marks 1 plan)).isSome = true := by
    apply preview_isSome
    apply change_mark_isSome
    intro a ha
    have hmem : a.source ∈ touchedPaths plan := mem_flatMap.mpr ⟨a, ha, a.source_mem_touched⟩
    rw [ground, if_pos hmem]
    rfl
  obtain ⟨m', hm'⟩ := isSome_iff_exists.mp hrun
  obtain ⟨changes, hchanges⟩ := isSome_iff_exists.mp hpreview
  rw [← lift_ground g [0]] at h
  apply safe_of_overlaid hm' hchanges
  apply overlaid_lift hg
  apply h
  · rw [run_lift hsteps, hm', map_some]
  · rw [preview_lift hsteps, hchanges, map_some]

end CodexRs.Overlay
