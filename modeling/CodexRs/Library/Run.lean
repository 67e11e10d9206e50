import Mathlib.Data.List.Basic

/-!
# Runs of a labelled transition relation

Rules that carry an invariant along a run, and a relation between two machines along runs with the
same labels.
-/
namespace CodexRs.Machine
variable {α ε σ τ : Type*} {step : σ → α → σ → Prop} {step' : τ → α → τ → Prop}

inductive Run (step : σ → α → σ → Prop) : σ → List α → σ → Prop
  | nil (s : σ) : Run step s [] s
  | cons {s t u : σ} {a : α} {as : List α} :
      step s a t → Run step t as u → Run step s (a :: as) u

namespace Run
variable {s t : σ}

theorem single {a : α} (h : step s a t) : Run step s [a] t := .cons h (.nil t)

theorem append {s t u : σ} {as bs : List α} (h : Run step s as t) (h' : Run step t bs u) :
    Run step s (as ++ bs) u := by
  induction h with
  | nil => exact h'
  | cons hs _ ih => exact .cons hs (ih h')

/-- A run over two lists of labels passes through a state between them. -/
theorem split {s u : σ} {as bs : List α} (h : Run step s (as ++ bs) u) :
    ∃ t, Run step s as t ∧ Run step t bs u := by
  induction as generalizing s with
  | nil => exact ⟨s, .nil s, h⟩
  | cons a as ih =>
    cases h with
    | cons hs hrest =>
      obtain ⟨t, ht, hu⟩ := ih hrest
      exact ⟨t, .cons hs ht, hu⟩

variable {as : List α}

theorem mono {other : σ → α → σ → Prop} (hstep : ∀ s a t, step s a t → other s a t)
    (h : Run step s as t) : Run other s as t := by
  induction h with
  | nil => exact .nil _
  | cons hs _ ih => exact .cons (hstep _ _ _ hs) ih

/-- What every step preserves, given the labels still to come, holds at the end of a run. -/
theorem invariant {I : List α → σ → Prop} (hI : ∀ a as s t, I (a :: as) s → step s a t → I as t)
    (h : Run step s as t) (hs : I as s) : I [] t := by
  induction h with
  | nil => exact hs
  | cons h _ ih => exact ih (hI _ _ _ _ hs h)

variable {R : List α → σ → τ → Prop}

/-- Steps with a label that is kept are matched by one step, the others by none. -/
theorem simulate_filter (keep : α → Bool)
    (hkept : ∀ a as s t p, keep a = true → R (a :: as) s p → step s a t →
      ∃ q, step' p a q ∧ R as t q)
    (hdropped : ∀ a as s t p, keep a = false → R (a :: as) s p → step s a t → R as t p)
    (h : Run step s as t) {p : τ} (hp : R as s p) :
    ∃ q, Run step' p (as.filter keep) q ∧ R [] t q := by
  induction h generalizing p with
  | nil => exact ⟨p, .nil p, hp⟩
  | @cons s t u a as h _ ih =>
    cases hkeep : keep a with
    | true =>
      obtain ⟨q, hq, hr⟩ := hkept _ _ _ _ _ hkeep hp h
      obtain ⟨r, hrun, hr'⟩ := ih hr
      rw [List.filter_cons_of_pos hkeep]
      exact ⟨r, .cons hq hrun, hr'⟩
    | false =>
      rw [List.filter_cons_of_neg (by simp [hkeep])]
      exact ih (hdropped _ _ _ _ _ hkeep hp h)

/-- Each step of the first machine is matched by one of the second. -/
theorem simulate (hR : ∀ a as s t p, R (a :: as) s p → step s a t → ∃ q, step' p a q ∧ R as t q)
    (h : Run step s as t) {p : τ} (hp : R as s p) : ∃ q, Run step' p as q ∧ R [] t q := by
  have hsim := h.simulate_filter (fun _ => true) (fun a as s t p _ => hR a as s t p)
    (fun _ _ _ _ _ hkeep => nomatch hkeep) hp
  rwa [List.filter_true] at hsim

/-- Two machines that both consume the labels stay related. -/
theorem lockstep (hR : ∀ a as s t p q, R (a :: as) s p → step s a t → step' p a q → R as t q)
    {p q : τ} (h : Run step s as t) (h' : Run step' p as q) (hp : R as s p) : R [] t q := by
  induction h generalizing p with
  | nil =>
    cases h'
    exact hp
  | cons h _ ih =>
    cases h' with
    | cons h₁ h₂ => exact ih h₂ (hR _ _ _ _ _ _ hp h h₁)

end Run

variable {as : List α}

/-- A fold that may fail succeeds exactly along the runs of its successful steps. -/
theorem foldlM_eq_ok_iff {f : σ → α → Except ε σ} {s t : σ} :
    as.foldlM f s = .ok t ↔ Run (fun s a t => f s a = .ok t) s as t := by
  induction as generalizing s with
  | nil =>
    constructor
    · rintro ⟨⟩
      exact .nil _
    · rintro ⟨⟩
      rfl
  | cons a as ih =>
    rw [List.foldlM_cons]
    cases hf : f s a with
    | error e =>
      constructor
      · intro h
        cases h
      · rintro (_ | ⟨h, _⟩)
        rw [hf] at h
        cases h
    | ok u =>
      constructor
      · intro h
        exact .cons hf (ih.mp h)
      · rintro (_ | ⟨h, hrun⟩)
        rw [hf, Except.ok.injEq] at h
        subst h
        exact ih.mpr hrun

/-! ## Folds of a partial step -/

/-- The property holds of every label where the fold reaches it. -/
def Along (f : σ → α → Option σ) (P : σ → α → Prop) : σ → List α → Prop
  | _, [] => True
  | s, a :: as => P s a ∧ ∀ t ∈ f s a, Along f P t as

namespace Along
variable {f : σ → α → Option σ} {P : σ → α → Prop}

def decide [∀ s a, Decidable (P s a)] : (as : List α) → (s : σ) → Decidable (Along f P s as)
  | [], _ => isTrue trivial
  | _ :: as, _ =>
    have : ∀ t, Decidable (Along f P t as) := decide as
    inferInstanceAs (Decidable (_ ∧ _))

instance [∀ s a, Decidable (P s a)] (s : σ) (as : List α) : Decidable (Along f P s as) :=
  decide as s

theorem append_iff {s : σ} {as bs : List α} :
    Along f P s (as ++ bs) ↔ Along f P s as ∧ ∀ t ∈ as.foldlM f s, Along f P t bs := by
  induction as generalizing s with
  | nil => simp [Along]
  | cons a as ih =>
    rw [List.cons_append, Along, Along, List.foldlM_cons, and_assoc, and_congr_right_iff]
    intro _
    cases f s a with
    | none => simp
    | some t => simpa using ih

theorem run {s t : σ} (h : Along f P s as) (hfold : as.foldlM f s = some t) :
    Run (fun s a t => P s a ∧ f s a = some t) s as t := by
  induction as generalizing s with
  | nil =>
    obtain rfl : s = t := Option.some.inj hfold
    exact .nil s
  | cons a as ih =>
    obtain ⟨u, hu, hrest⟩ := Option.bind_eq_some_iff.mp hfold
    exact .cons ⟨h.1, hu⟩ (ih (h.2 u hu) hrest)

/-- Where the property lets every step through and keeps an invariant, the whole fold goes
through and ends with the invariant. -/
theorem exists_foldlM {I : σ → Prop} (hI : ∀ s a, I s → P s a → ∃ t, f s a = some t ∧ I t) {s : σ}
    (h : Along f P s as) (hs : I s) : ∃ t, as.foldlM f s = some t ∧ I t := by
  induction as generalizing s with
  | nil => exact ⟨s, rfl, hs⟩
  | cons a as ih =>
    obtain ⟨hstep, hrest⟩ := h
    obtain ⟨t, ht, hIt⟩ := hI s a hs hstep
    rw [List.foldlM_cons, ht]
    exact ih (hrest t ht) hIt

end Along

end CodexRs.Machine
