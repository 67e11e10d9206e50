import Mathlib.Data.List.Induction

/-!
# A stack with undo entries

An undo pops until it has popped a number of elements that count; the elements in between go with
them.
-/
namespace CodexRs.UndoStack
open List

variable {α : Type*}

inductive Entry (α : Type*) where
  | push (a : α)
  | undo (n : ℕ)

variable (counts : α → Bool)

/-- Pops until as many elements that count are popped, or the stack is empty. -/
def pop : ℕ → List α → List α
  | 0, stack => stack
  | _ + 1, [] => []
  | n + 1, a :: stack => if counts a then pop n stack else pop (n + 1) stack

variable (stack : List α)

def step : Entry α → List α
  | .push a => a :: stack
  | .undo n => pop counts n stack

variable (log : List (Entry α))

/-- What the log leaves, newest first. -/
def survivors : List α := log.foldl (step counts) []

/-- The log read from its newest entry, with the elements that are still to be popped. -/
def keep : ℕ → List (Entry α) → List α
  | _, [] => []
  | pending, .undo n :: older => keep (pending + n) older
  | 0, .push a :: older => a :: keep 0 older
  | pending + 1, .push a :: older =>
    keep (if counts a then pending else pending + 1) older

variable {counts}

@[simp] theorem pop_zero : pop counts 0 stack = stack := by
  cases stack <;> rfl

@[simp] theorem pop_nil (n : ℕ) : pop counts n ([] : List α) = [] := by
  cases n <;> rfl

theorem pop_all (n : ℕ) (stack : List α) : pop (fun _ => true) n stack = stack.drop n := by
  induction stack generalizing n with
  | nil => simp
  | cons a stack ih =>
    cases n with
    | zero => simp
    | succ n => simpa [pop] using ih n

theorem pop_pop (m n : ℕ) (stack : List α) :
    pop counts n (pop counts m stack) = pop counts (n + m) stack := by
  induction stack generalizing m with
  | nil => simp
  | cons a stack ih =>
    cases m with
    | zero => simp
    | succ m =>
      rw [← Nat.add_assoc, pop, pop]
      split_ifs
      · exact ih m
      · exact ih (m + 1)

theorem keep_reverse (pending : ℕ) :
    keep counts pending log.reverse = pop counts pending (survivors counts log) := by
  -- The newest entry is the last one of the log and the first one of the reading.
  induction log using reverseRecOn generalizing pending with
  | nil => simp [keep, survivors]
  | append_singleton log entry ih =>
    rw [reverse_append, reverse_singleton, singleton_append, survivors,
      foldl_append, foldl_cons, foldl_nil]
    cases entry with
    | undo n => rw [keep, ih, step, pop_pop, survivors]
    | push a =>
      cases pending with
      | zero => rw [keep, ih, pop_zero, pop_zero, step, survivors]
      | succ pending =>
        rw [keep, ih, step, pop]
        split_ifs <;> rfl

theorem keep_zero_reverse : keep counts 0 log.reverse = survivors counts log := by
  rw [keep_reverse, pop_zero]

variable (counts)

/-- How many elements that count the undos of a log reach on the stack they find. -/
def reach : List (Entry α) → ℕ
  | [] => 0
  | .push a :: log => if counts a then reach log - 1 else reach log
  | .undo n :: log => reach log + n

/-- The elements that no later undo reaches, oldest first. -/
def lasting : List (Entry α) → List α
  | [] => []
  | .push a :: log => if reach counts log = 0 then a :: lasting log else lasting log
  | .undo _ :: log => lasting log

variable {counts}

theorem foldl_step : log.foldl (step counts) stack =
      (lasting counts log).reverse ++ pop counts (reach counts log) stack := by
  induction log generalizing stack with
  | nil => simp [lasting, reach]
  | cons entry log ih =>
    rw [foldl_cons, ih]
    cases entry with
    | undo n => rw [step, pop_pop, lasting, reach]
    | push a =>
      rw [step, lasting, reach]
      cases reach counts log with
      | zero => simp
      | succ n =>
        rw [pop, if_neg (Nat.succ_ne_zero n)]
        split_ifs <;> rfl

variable {counts' : α → Bool}

/-- The more elements count, the less far the undos reach. -/
theorem reach_le (h : ∀ a, counts a = true → counts' a = true) (log : List (Entry α)) :
    reach counts' log ≤ reach counts log := by
  induction log with
  | nil => exact Nat.le_refl 0
  | cons entry log ih =>
    cases entry with
    | undo n => exact Nat.add_le_add_right ih n
    | push a =>
      have ha := h a
      rw [reach, reach]
      split_ifs with h' hcounts hcounts
      · omega
      · omega
      · exact absurd (ha hcounts) h'
      · exact ih

theorem lasting_sublist (h : ∀ a, counts a = true → counts' a = true) (log : List (Entry α)) :
    (lasting counts log).Sublist (lasting counts' log) := by
  induction log with
  | nil => exact Sublist.refl _
  | cons entry log ih =>
    cases entry with
    | undo n => exact ih
    | push a =>
      have hreach := reach_le h log
      rw [lasting, lasting]
      split_ifs with h₁ h₂
      · exact ih.cons_cons a
      · omega
      · exact ih.cons a
      · exact ih

/-- Two ways to count leave the same elements of a kind just if they reach the same ones. -/
theorem filterMap_lasting_length_iff {β : Type*} (f : α → Option β)
    (h : ∀ a, counts a = true → counts' a = true) (log : List (Entry α)) :
    ((lasting counts log).filterMap f).length = ((lasting counts' log).filterMap f).length ↔
      ∀ before a after, log = before ++ .push a :: after → (f a).isSome = true →
        0 < reach counts after → 0 < reach counts' after := by
  induction log with
  | nil => simp [lasting]
  | cons entry log ih =>
    have hle : ((lasting counts log).filterMap f).length ≤
        ((lasting counts' log).filterMap f).length :=
      ((lasting_sublist h log).filterMap f).length_le
    have hcons : (∀ before a after, entry :: log = before ++ .push a :: after →
          (f a).isSome = true → 0 < reach counts after → 0 < reach counts' after) ↔
        (∀ a, entry = .push a → (f a).isSome = true →
          0 < reach counts log → 0 < reach counts' log) ∧
        ∀ before a after, log = before ++ .push a :: after →
          (f a).isSome = true → 0 < reach counts after → 0 < reach counts' after := by
      constructor
      · intro hall
        exact ⟨fun a hentry => hall [] a log (by simp [hentry]),
          fun before a after hlog => hall (entry :: before) a after (by simp [hlog])⟩
      · rintro ⟨hhead, htail⟩ before a after heq
        cases before with
        | nil =>
          obtain ⟨rfl, rfl⟩ := cons.inj heq
          exact hhead a rfl
        | cons other before =>
          exact htail before a after (cons.inj heq).2
    rw [hcons, ← ih]
    cases entry with
    | undo n => simp [lasting]
    | push a =>
      have hreach := reach_le h log
      cases hfa : f a with
      | none => simp only [lasting]; split_ifs <;> simp [hfa]
      | some b =>
        have hhead : (∀ a', Entry.push a = .push a' → (f a').isSome = true →
            0 < reach counts log → 0 < reach counts' log) ↔
            (0 < reach counts log → 0 < reach counts' log) := by
          constructor
          · exact fun hall => hall a rfl (by simp [hfa])
          · rintro hpos a' heq -
            exact hpos
        rw [hhead]
        simp only [lasting]
        split_ifs with h₁ h₂ h₂
        · simp only [filterMap_cons, hfa, length_cons]
          omega
        · omega
        · simp only [filterMap_cons, hfa, length_cons]
          omega
        · omega

end CodexRs.UndoStack
