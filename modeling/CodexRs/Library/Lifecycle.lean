import CodexRs.Library.Run

/-!
# Life cycles

Every id is opened once, used while it is open and closed at most once.
-/
namespace CodexRs.Lifecycle
open Machine Function List

variable {ι : Type*} [DecidableEq ι]

inductive Phase where
  | unseen
  | live
  | gone

inductive Signal (ι : Type*) where
  | opened (id : ι)
  | used (id : ι)
  | closed (id : ι)

def Signal.id : Signal ι → ι
  | .opened i => i
  | .used i => i
  | .closed i => i

inductive Step : (ι → Phase) → Signal ι → (ι → Phase) → Prop
  | opened {s : ι → Phase} {i : ι} : s i = .unseen →
      Step s (.opened i) (Function.update s i .live)
  | used {s : ι → Phase} {i : ι} : s i = .live → Step s (.used i) s
  | closed {s : ι → Phase} {i : ι} : s i = .live →
      Step s (.closed i) (Function.update s i .gone)

/-- What has happened to an id in some phase of its life. -/
def History (i : ι) : Phase → List (Signal ι) → Prop
  | .unseen, trace => trace = []
  | .live, trace => ∃ n, trace = .opened i :: List.replicate n (.used i)
  | .gone, trace => ∃ n, trace = .opened i :: List.replicate n (.used i) ++ [.closed i]

/-- The signals of an id. -/
def ofId (i : ι) (trace : List (Signal ι)) : List (Signal ι) :=
  trace.filter fun x => x.id = i

/-- Every id that occurs is opened once, at first, and nothing follows its only closing. -/
def Orderly (trace : List (Signal ι)) : Prop :=
  ∀ i, ∃ phase, History i phase (ofId i trace)

theorem ofId_concat_self (trace : List (Signal ι)) (x : Signal ι) :
    ofId x.id (trace ++ [x]) = ofId x.id trace ++ [x] := by
  simp [ofId]

theorem ofId_concat_ne {i : ι} {x : Signal ι} (h : i ≠ x.id) (trace : List (Signal ι)) :
    ofId i (trace ++ [x]) = ofId i trace := by
  simp [ofId, Ne.symm h]

variable {trace : List (Signal ι)}

theorem history_step {s t : ι → Phase} {x : Signal ι} (h : Step s x t)
    (hs : ∀ i, History i (s i) (ofId i trace)) (i : ι) :
    History i (t i) (ofId i (trace ++ [x])) := by
  by_cases hi : i = x.id
  · subst hi
    have hold := hs x.id
    rw [ofId_concat_self]
    cases h with
    | opened hi =>
      rw [Signal.id, hi] at hold
      rw [Signal.id, update_self, show ofId _ trace = [] from hold]
      exact ⟨0, rfl⟩
    | used hi =>
      rw [Signal.id, hi] at hold
      obtain ⟨n, hn⟩ := hold
      rw [Signal.id, hi, hn]
      exact ⟨n + 1, by rw [replicate_succ', cons_append]⟩
    | closed hi =>
      rw [Signal.id, hi] at hold
      obtain ⟨n, hn⟩ := hold
      rw [Signal.id, update_self, hn]
      exact ⟨n, rfl⟩
  · rw [ofId_concat_ne hi]
    have hsame : t i = s i := by
      cases h with
      | opened _ => exact update_of_ne hi _ _
      | used _ => rfl
      | closed _ => exact update_of_ne hi _ _
    rw [hsame]
    exact hs i

theorem history_run {s t : ι → Phase} (h : Run Step s trace t)
    {before : List (Signal ι)} (hs : ∀ i, History i (s i) (ofId i before)) (i : ι) :
    History i (t i) (ofId i (before ++ trace)) := by
  induction h generalizing before with
  | nil =>
    rw [append_nil]
    exact hs i
  | cons hstep _ ih =>
    rw [append_cons]
    exact ih (history_step hstep hs)

/-- The traces of the machine are orderly. -/
theorem orderly_of_run {t : ι → Phase}
    (h : Run Step (fun _ => .unseen) trace t) : Orderly trace := by
  intro i
  refine ⟨t i, ?_⟩
  have hnil : ∀ i : ι, History i .unseen (ofId i []) := fun _ => rfl
  have hrun := history_run h hnil i
  rwa [List.nil_append] at hrun

end CodexRs.Lifecycle
