import CodexRs.Library.Run

/-!
# Accounts that are opened, added to and closed

At most one account is open at a time, and closing it gives back all its entries.
-/
namespace CodexRs.Ledger
open Machine

variable {α : Type*}

inductive Mark (α : Type*) where
  | opened
  | added (entry : List α)
  | closed (entries : List α)

namespace Mark

def addedText : Mark α → List α
  | .added entry => entry
  | _ => []

def closedText : Mark α → List α
  | .closed entries => entries
  | _ => []

def isOpened : Mark α → Bool
  | .opened => true
  | _ => false

def isClosed : Mark α → Bool
  | .closed _ => true
  | _ => false

end Mark

inductive Step : Option (List α) → Mark α → Option (List α) → Prop
  | opened : Step none .opened (some [])
  | added {entries entry : List α} : Step (some entries) (.added entry) (some (entries ++ entry))
  | closed {entries : List α} : Step (some entries) (.closed entries) none

variable {marks : List (Mark α)}

/-- What is added, with what the account held before, is what is given back or still held. -/
theorem added_eq_closed {p q : Option (List α)} (h : Run Step p marks q) :
    p.getD [] ++ marks.flatMap Mark.addedText = marks.flatMap Mark.closedText ++ q.getD [] := by
  induction h with
  | nil => simp
  | cons hstep _ ih => cases hstep <;> simp_all [Mark.addedText, Mark.closedText]

/-- How often an account is closed before the next one is opened. -/
def closings (marks : List (Mark α)) : ℕ :=
  ((marks.takeWhile fun mark => !mark.isOpened).filter Mark.isClosed).length

@[simp] theorem closings_opened (marks : List (Mark α)) : closings (.opened :: marks) = 0 := rfl

@[simp] theorem closings_added (entry : List α) (marks : List (Mark α)) :
    closings (.added entry :: marks) = closings marks := rfl

@[simp] theorem closings_closed (entries : List α) (marks : List (Mark α)) :
    closings (.closed entries :: marks) = closings marks + 1 := rfl

theorem closings_of_none {q : Option (List α)}
    (h : Run Step none marks q) : closings marks = 0 := by
  cases h with
  | nil => rfl
  | cons hstep _ =>
    cases hstep
    exact closings_opened _

theorem closings_of_some {entries : List α}
    (h : Run Step (some entries) marks none) : closings marks = 1 := by
  generalize hp : some entries = p at h
  generalize hq : (none : Option (List α)) = q at h
  induction h generalizing entries with
  | nil => simp [← hq] at hp
  | cons hstep hrun ih =>
    subst hp
    cases hstep with
    | added =>
      rw [closings_added]
      exact ih rfl hq
    | closed =>
      subst hq
      rw [closings_closed, closings_of_none hrun]

/-- An account that is opened is closed exactly once before the next one is opened. -/
theorem closings_behind_opened {p : Option (List α)} {pre post : List (Mark α)}
    (h : Run Step p (pre ++ .opened :: post) none) : closings post = 1 := by
  obtain ⟨q, -, hrest⟩ := h.split
  cases hrest with
  | cons hstep hrun =>
    cases hstep
    exact closings_of_some hrun

end CodexRs.Ledger
