import CodexRs.Library.Run
import CodexRs.Library.Text
import Mathlib.Data.List.Count

/-!
# The input of a running turn

What is pending is taken before the next request or when the task finishes. Items that are
injected after that are taken by nobody.
-/
namespace CodexRs.Core
open Text Machine Option List

abbrev TurnId := Str

inductive MailboxDeliveryPhase
  | currentTurn
  | nextTurn
deriving DecidableEq

inductive PendingItem (α β : Type*)
  | input (item : α)
  | mail (mail : β)
deriving DecidableEq

/-- A call that has the lock of the active turn and waits for that of the turn's state. -/
inductive TurnSection (α β : Type*)
  | steering (item : α)
  | injecting (items : List α)
  | prepending (items : List (PendingItem α β))
  | getting
  | looking

inductive RegularTask
  | running
  | waiting
  | draining
  | lookingAtMailbox
  | finishing
  | removed
  | taken
  | ended
deriving DecidableEq

/-- What the task was given last may still be given back. The history tells what was accepted or
sent, and what was received for good. -/
structure TurnInput (α β : Type*) where
  turnId : TurnId
  activeTurn : Option (List TurnId)
  holder : Option (TurnSection α β)
  pendingInput : List (PendingItem α β)
  mailboxDeliveryPhase : MailboxDeliveryPhase
  pendingMails : List β
  task : RegularTask
  returned : List (PendingItem α β)
  received : List (PendingItem α β)
  accepted : List α
  sent : List β

namespace TurnInput
variable {α β : Type*} (s : TurnInput α β)

def start (turnId : TurnId) : TurnInput α β :=
  ⟨turnId, some [turnId], none, [], .currentTurn, [], .running, [], [], [], []⟩

/-- Empty input (`none`) is an error, as is a turn without a task or with another id. -/
def steerInput (input : Option α) (expectedTurnId : Option TurnId) : TurnInput α β :=
  match input, s.activeTurn with
  | some item, some (turnId :: _) =>
    if expectedTurnId.all (· = turnId) then { s with holder := some (.steering item) } else s
  | _, _ => s

/-- It is enough that there is an active turn. -/
def injectResponseItems (input : List α) : TurnInput α β :=
  match s.activeTurn with
  | some _ => { s with holder := some (.injecting input) }
  | none => s

/-- The task is done with what it was given before. -/
def settle : TurnInput α β := { s with received := s.received ++ s.returned, returned := [] }

def getPendingInput : TurnInput α β :=
  match s.activeTurn with
  | some _ => { s.settle with holder := some .getting, task := .waiting }
  | none => { s.settle with task := .draining }

def hasPendingInput : TurnInput α β :=
  match s.activeTurn with
  | some _ => { s.settle with holder := some .looking, task := .waiting }
  | none => { s.settle with task := .lookingAtMailbox }

/-- A hook has blocked an item; those behind it are given back. -/
def prependPendingInput (blocked : ℕ) : TurnInput α β :=
  let t := { s with received := s.received ++ s.returned.take (blocked + 1), returned := [] }
  match s.activeTurn with
  | some _ =>
    { t with holder := some (.prepending (s.returned.drop (blocked + 1))), task := .waiting }
  | none => t

/-- What the call with the lock of the active turn does with the state of the turn. -/
def enter : TurnSection α β → TurnInput α β
  | .steering item =>
    { s with
      pendingInput := s.pendingInput ++ [.input item]
      mailboxDeliveryPhase := .currentTurn
      accepted := s.accepted ++ [item] }
  | .injecting items =>
    { s with
      pendingInput := s.pendingInput ++ items.map .input
      accepted := s.accepted ++ items }
  | .prepending items => { s with pendingInput := items ++ s.pendingInput, task := .running }
  | .getting =>
    { s with
      returned := s.pendingInput
      pendingInput := []
      task := if s.mailboxDeliveryPhase = .currentTurn then .draining else .running }
  | .looking =>
    { s with task :=
        if s.pendingInput.isEmpty = false then .running
        else if s.mailboxDeliveryPhase = .currentTurn then .lookingAtMailbox else .finishing }

/-- The steps of `on_task_finished`; the second takes the lock of the turn's state only. -/
def onTaskFinished : Option (TurnInput α β) :=
  match s.task, s.holder with
  | .finishing, none =>
    let activeTurn := s.activeTurn.map (·.erase s.turnId)
    let wasLast := activeTurn = some [] ∧ s.activeTurn ≠ some []
    some { s with activeTurn, task := if wasLast then .removed else .ended }
  | .removed, _ =>
    some { s with
      received := s.received ++ s.pendingInput, pendingInput := [], task := .taken }
  | .taken, none =>
    let activeTurn := if s.activeTurn = some [] then none else s.activeTurn
    some { s with activeTurn, task := .ended }
  | _, _ => none

inductive Action (α β : Type*)
  | steer (input : Option α) (expectedTurnId : Option TurnId)
  | inject (input : List α)
  | send (mail : β)
  | getPending
  | hasPending
  | prepend (blocked : ℕ)
  | setPhase (phase : MailboxDeliveryPhase)
  | lockTurnState
  | lockMailbox
  | finish

/-- Whoever takes the lock of the active turn finds it free. Mail is deferred to the next turn
only while nothing is pending. -/
def step : Action α β → Option (TurnInput α β)
  | .steer input expectedTurnId =>
    if s.holder = none then some (s.steerInput input expectedTurnId) else none
  | .inject input => if s.holder = none then some (s.injectResponseItems input) else none
  | .send mail =>
    some { s with pendingMails := s.pendingMails ++ [mail], sent := s.sent ++ [mail] }
  | .getPending =>
    if s.holder = none ∧ s.task = .running then some s.getPendingInput else none
  | .hasPending =>
    if s.holder = none ∧ s.task = .running then some s.hasPendingInput else none
  | .prepend blocked =>
    if s.holder = none ∧ s.task = .running then some (s.prependPendingInput blocked) else none
  | .setPhase phase =>
    if s.task = .running then
      some (if phase = .nextTurn ∧ s.pendingInput.isEmpty = false then s
        else { s with mailboxDeliveryPhase := phase })
    else none
  | .lockTurnState => s.holder.map fun call => { s.enter call with holder := none }
  | .lockMailbox =>
    match s.task with
    | .draining =>
      some { s with
        returned := s.returned ++ s.pendingMails.map .mail, pendingMails := [], task := .running }
    | .lookingAtMailbox =>
      some { s with task := if s.pendingMails.isEmpty then .finishing else .running }
    | _ => none
  | .finish => s.onTaskFinished

/-- Items are injected only while the active turn, if there is one, has its task. -/
def InjectsBeforeRemoval (s : TurnInput α β) : Action α β → Prop
  | .inject _ => s.activeTurn ≠ some []
  | _ => True

/-- A step that is allowed where it is taken. -/
def Step (allowed : TurnInput α β → Action α β → Prop) (s : TurnInput α β) (action : Action α β)
    (t : TurnInput α β) : Prop :=
  allowed s action ∧ s.step action = some t

/-- The steps of the turn itself and of a call that has the lock. -/
def Action.isTurns : Action α β → Bool
  | .steer _ _ | .inject _ | .send _ => false
  | _ => true

/-- No step of the turn remains. -/
def Done (s : TurnInput α β) : Prop :=
  ∀ action : Action α β, action.isTurns = true → s.step action = none

@[grind] def givenBack : Option (TurnSection α β) → List (PendingItem α β)
  | some (.prepending items) => items
  | some (.steering _) => []
  | some (.injecting _) => []
  | some .getting => []
  | some .looking => []
  | none => []

/-- The call is one of the task. -/
@[grind] def isTasks : Option (TurnSection α β) → Bool
  | some (.steering _) => false
  | some (.injecting _) => false
  | none => false
  | _ => true

variable [DecidableEq α] [DecidableEq β] {s t : TurnInput α β}

/-- Where the items are that were accepted or sent. -/
def held (s : TurnInput α β) : List (PendingItem α β) :=
  s.pendingInput ++ (givenBack s.holder ++ (s.returned ++ s.received))

/-- What the active turn is at each stage of the task. -/
@[grind] def registered (s : TurnInput α β) : Option (List TurnId) :=
  match s.task with
  | .removed | .taken => some []
  | .ended => none
  | _ => some [s.turnId]

/-- The task may not be done yet with what it was given. -/
@[grind] def isBusy : RegularTask → Bool
  | .running | .draining => true
  | _ => false

/-- All items are accounted for, and nothing is pending once the rest was taken. -/
structure Accounted (s : TurnInput α β) : Prop where
  input : ∀ item, s.accepted.count item = s.held.count (.input item)
  mail : ∀ mail, s.sent.count mail = s.held.count (.mail mail) + s.pendingMails.count mail
  active : s.activeTurn = s.registered
  locked : s.holder ≠ none → s.activeTurn = some [s.turnId]
  waiting : isTasks s.holder = true ↔ s.task = .waiting
  settled : isBusy s.task = false → s.returned = []
  left : s.task = .taken ∨ s.task = .ended → s.pendingInput = []

attribute [local grind cases] Accounted

@[grind =] theorem count_map_input (items : List α) (item : PendingItem α β) :
    (items.map PendingItem.input).count item =
      match item with | .input item => items.count item | .mail _ => 0 := by
  induction items with
  | nil => cases item <;> rfl
  | cons head items ih => cases item <;> simp_all [count_cons]

@[grind =] theorem count_map_mail (mails : List β) (item : PendingItem α β) :
    (mails.map PendingItem.mail).count item =
      match item with | .input _ => 0 | .mail mail => mails.count mail := by
  induction mails with
  | nil => cases item <;> rfl
  | cons head mails ih => cases item <;> simp_all [count_cons]

@[grind =] theorem count_held (s : TurnInput α β) (item : PendingItem α β) :
    s.held.count item = s.pendingInput.count item + (givenBack s.holder).count item +
      s.returned.count item + s.received.count item := by
  simp only [held, count_append]
  omega

section
variable (h : s.Accounted)
include h

theorem Accounted.steer (hfree : s.holder = none) (input : Option α)
    (expectedTurnId : Option TurnId) :
    (s.steerInput input expectedTurnId).Accounted := by
  unfold steerInput
  constructor <;> grind

theorem Accounted.inject (hfree : s.holder = none)
    (hregistered : s.activeTurn ≠ some []) (input : List α) :
    (s.injectResponseItems input).Accounted := by
  constructor <;> grind [injectResponseItems]

theorem Accounted.get (hfree : s.holder = none ∧ s.task = .running) :
    s.getPendingInput.Accounted := by
  constructor <;> grind [getPendingInput, settle]

theorem Accounted.prepend (hfree : s.holder = none ∧ s.task = .running) (blocked : ℕ) :
    (s.prependPendingInput blocked).Accounted := by
  -- what is given back and what is not are together what was returned
  have hsplit : ∀ item, s.returned.count item = (s.returned.take (blocked + 1)).count item +
      (s.returned.drop (blocked + 1)).count item := by
    intro item
    rw [← count_append, take_append_drop]
  constructor <;> grind [prependPendingInput]

theorem Accounted.unlock {call : TurnSection α β} (hholder : s.holder = some call) :
    { s.enter call with holder := none }.Accounted := by
  cases call <;> constructor <;> grind [enter]

theorem Accounted.finish (hnext : s.onTaskFinished = some t) : t.Accounted := by
  constructor <;> grind [onTaskFinished]

theorem Accounted.step {action : Action α β}
    (hstep : Step InjectsBeforeRemoval s action t) : t.Accounted := by
  obtain ⟨hallowed, hstep⟩ := hstep
  cases action with
  | steer input expectedTurnId =>
    obtain ⟨hfree, ⟨⟩⟩ := ite_none_right_eq_some.mp hstep
    exact h.steer hfree input expectedTurnId
  | inject input =>
    obtain ⟨hfree, ⟨⟩⟩ := ite_none_right_eq_some.mp hstep
    exact h.inject hfree hallowed input
  | getPending =>
    obtain ⟨hfree, ⟨⟩⟩ := ite_none_right_eq_some.mp hstep
    exact h.get hfree
  | hasPending =>
    obtain ⟨hfree, ⟨⟩⟩ := ite_none_right_eq_some.mp hstep
    constructor <;> grind [hasPendingInput, settle]
  | prepend blocked =>
    obtain ⟨hfree, ⟨⟩⟩ := ite_none_right_eq_some.mp hstep
    exact h.prepend hfree blocked
  | lockTurnState =>
    obtain ⟨call, hholder, rfl⟩ := map_eq_some_iff.mp hstep
    exact h.unlock hholder
  | finish => exact h.finish hstep
  | send | setPhase | lockMailbox =>
    constructor <;> grind [step]

theorem Accounted.ended_of_done (hdone : s.Done) : s.task = .ended := by
  have hphase := hdone (.setPhase .currentTurn) rfl
  have hturnState := hdone .lockTurnState rfl
  have hmailbox := hdone .lockMailbox rfl
  have hfinish := hdone .finish rfl
  cases htask : s.task <;> cases hholder : s.holder <;>
    grind [TurnInput.step, onTaskFinished]

end

/-- No mail is lost or delivered twice. At the end the task has received what was accepted, and all
mail that is not in the mailbox. -/
theorem accepted_input_received {turnId : TurnId} {actions : List (Action α β)}
    (hrun : Run (Step InjectsBeforeRemoval) (start turnId) actions s) :
    (∀ mail, s.sent.count mail = s.held.count (.mail mail) + s.pendingMails.count mail) ∧
      (s.Done → (∀ item, s.received.count (.input item) = s.accepted.count item) ∧
        ∀ mail, s.received.count (.mail mail) + s.pendingMails.count mail = s.sent.count mail) := by
  have h : s.Accounted := Run.invariant (I := fun _ s => s.Accounted)
    (fun _ _ _ _ h hstep => h.step hstep) hrun (by constructor <;> grind [start])
  refine ⟨h.mail, fun hdone => ?_⟩
  have htask := h.ended_of_done hdone
  obtain ⟨hinput, hmail, hactive, hlocked, -, hsettled, hleft⟩ := h
  grind

omit [DecidableEq α] [DecidableEq β] in
theorem done_of_ended (htask : s.task = .ended) (hholder : s.holder = none) : s.Done := by
  intro action haction
  cases action with
  | steer | inject | send => cases haction
  | _ => simp [step, onTaskFinished, htask, hholder]

instance (s : TurnInput α β) (action : Action α β) : Decidable (s.InjectsBeforeRemoval action) := by
  cases action <;> unfold InjectsBeforeRemoval <;> infer_instance

/-- A prompt is steered in and taken by the task; an item is injected when the task has found
nothing more, and taken as it finishes. -/
def steeredThenInjected : List (Action ℕ ℕ) :=
  [.steer (some 1) none, .lockTurnState, .send 7, .hasPending, .lockTurnState, .getPending,
    .lockTurnState, .lockMailbox, .hasPending, .lockTurnState, .lockMailbox, .inject [2],
    .lockTurnState, .finish, .finish, .finish]

theorem accepted_input_received_steeredThenInjected : ∃ s : TurnInput ℕ ℕ,
    Run (Step InjectsBeforeRemoval) (start ['t']) steeredThenInjected s ∧ s.Done ∧
      s.accepted = [1, 2] ∧ ∀ item, s.received.count (.input item) = s.accepted.count item := by
  have hrun : Run (Step InjectsBeforeRemoval) (start ['t']) steeredThenInjected _ :=
    Along.run (by decide +kernel) rfl
  refine ⟨_, hrun, done_of_ended rfl rfl, rfl, ?_⟩
  exact ((accepted_input_received hrun).2 (done_of_ended rfl rfl)).1

/-- The item is injected when the task has taken the rest, and the active turn still stands. -/
theorem injected_input_lost : ∃ s : TurnInput ℕ ℕ,
    Run (Step fun _ _ => True) (start ['t'])
      [.hasPending, .lockTurnState, .lockMailbox, .finish, .finish, .inject [1], .lockTurnState,
        .finish] s ∧ s.Done ∧ s.accepted = [1] ∧ s.received = [] :=
  ⟨_, Along.run (by decide +kernel) rfl, done_of_ended rfl rfl, rfl, rfl⟩

end TurnInput

end CodexRs.Core
