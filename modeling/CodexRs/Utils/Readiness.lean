import CodexRs.Library.Tasks

/-!
# The readiness flag

Flag, tokens and watch channel are updated one after another. Whether a lock is had and which
token the loop of a subscription ends with is given by the action.
-/
namespace CodexRs.Utils.Readiness
open Machine Tasks Function

/-- The version counts the values sent; receivers are named by the call that has them. -/
structure ReadinessFlag (ι : Type*) where
  ready : Bool
  tokens : List ℤ
  value : Bool
  version : ℕ
  receivers : List ι

/-- `wait_ready` begins as `is_ready` does, and then waits. -/
inductive ReadinessCall
  | idle
  | checking (waits : Bool)
  | rechecking (waits : Bool)
  | sending
  | subscribing
  | marking (token : ℤ)
  | opening
  | looking (seen : ℕ)
  | blocked (seen : ℕ)
  | returned
deriving DecidableEq

inductive ReadinessAction
  | isReady (waits : Bool)
  | tryLock (locked : Bool)
  | recheck
  | send
  | subscribe
  | insertToken (token : ℤ)
  | markReady (token : ℤ)
  | removeToken
  | lockTimeout
  | openReceiver
  | borrow
  | changed
deriving DecidableEq

variable {ι : Type*} [DecidableEq ι]

namespace ReadinessFlag

def new : ReadinessFlag ι := ⟨false, [], false, 0, []⟩

omit [DecidableEq ι] in
/-- Without a receiver the value is not stored. -/
def send (flag : ReadinessFlag ι) : ReadinessFlag ι :=
  if flag.receivers = [] then flag else { flag with value := true, version := flag.version + 1 }

def dropReceiver (flag : ReadinessFlag ι) (i : ι) : ReadinessFlag ι :=
  { flag with receivers := flag.receivers.filter (· ≠ i) }

/-- What a call does between two points where others may come in. -/
def takeTurn (i : ι) (action : ReadinessAction) (flag : ReadinessFlag ι) (call : ReadinessCall) :
    Option (ReadinessFlag ι × ReadinessCall) :=
  match action, call with
  | .isReady waits, .idle => some (flag, if flag.ready then .returned else .checking waits)
  | .tryLock locked, .checking waits =>
    if locked ∧ flag.tokens = [] then
      some ({ flag with ready := true }, if flag.ready then .returned else .sending)
    else some (flag, .rechecking waits)
  | .recheck, .rechecking waits =>
    some (flag, if !flag.ready && waits then .opening else .returned)
  | .send, .sending => some (flag.send, .returned)
  | .subscribe, .idle => some (flag, if flag.ready then .returned else .subscribing)
  | .insertToken token, .subscribing =>
    if flag.ready then some (flag, .returned)
    else if token ≠ 0 ∧ token ∉ flag.tokens then
      some ({ flag with tokens := token :: flag.tokens }, .returned)
    else none
  | .markReady token, .idle =>
    some (flag, if flag.ready ∨ token = 0 then .returned else .marking token)
  | .removeToken, .marking token =>
    if token ∈ flag.tokens then some ({ flag with ready := true, tokens := [] }, .sending)
    else some (flag, .returned)
  | .lockTimeout, .subscribing => some (flag, .returned)
  | .lockTimeout, .marking _ => some (flag, .returned)
  | .openReceiver, .opening =>
    some ({ flag with receivers := i :: flag.receivers }, .looking flag.version)
  | .borrow, .looking seen =>
    some (if flag.value then (flag.dropReceiver i, .returned) else (flag, .blocked seen))
  | .changed, .blocked seen =>
    if flag.version = seen then none
    else some (if flag.value then (flag.dropReceiver i, .returned)
      else (flag, .blocked flag.version))
  | _, _ => none

end ReadinessFlag

abbrev ReadinessConfig (ι : Type*) := Config ι (ReadinessFlag ι) ReadinessCall

namespace ReadinessCall

/-- In `subscribe`, `mark_ready` or `is_ready`. -/
def isUnderWay : ReadinessCall → Bool
  | checking _ | rechecking _ | sending | subscribing | marking _ => true
  | _ => false

def lastSeen : ReadinessCall → Option ℕ
  | looking seen | blocked seen => some seen
  | _ => none

def isWaiting (call : ReadinessCall) : Bool := call = opening || call.lastSeen.isSome

end ReadinessCall

def start : ReadinessConfig ι := ⟨.new, fun _ => .idle⟩

/-- Nobody is left to wake a call that waits for a flag that is ready. -/
def Stranded (c : ReadinessConfig ι) : Prop :=
  c.shared.ready = true ∧ (∀ i, (c.task i).isUnderWay = false) ∧
    ∃ i, c.task i = .blocked c.shared.version

/-- A value is sent while there is a receiver or no call is about to open one. -/
def Received (c : ReadinessConfig ι) (turn : Turn ι ReadinessAction) : Prop :=
  turn.action = .send → c.shared.receivers ≠ [] ∨ ∀ i, c.task i ≠ .opening

/-- While the flag is ready and the channel does not say so, somebody will send or nobody waits. -/
def Woken (c : ReadinessConfig ι) : Prop :=
  c.shared.ready = true → c.shared.value = false →
    (∃ i, c.task i = .sending) ∨ ∀ i, (c.task i).isWaiting = false

structure Sound (c : ReadinessConfig ι) : Prop where
  receives : ∀ i, i ∈ c.shared.receivers ↔ (c.task i).lastSeen ≠ none
  seen : ∀ i n, (c.task i).lastSeen = some n → n ≤ c.shared.version
  unseen : ∀ i, c.task i = .blocked c.shared.version → c.shared.value = false
  woken : Woken c

variable {c d : ReadinessConfig ι} {i : ι} {flag : ReadinessFlag ι} {call : ReadinessCall}

attribute [local grind] ReadinessCall.lastSeen ReadinessCall.isWaiting ReadinessFlag.dropReceiver
attribute [local grind =] update_apply

/-- Whoever neither sends nor begins to wait leaves it at that. -/
theorem Woken.update (h : Woken c) (hready : flag.ready = c.shared.ready)
    (hvalue : flag.value = c.shared.value) (hi : c.task i ≠ .sending)
    (hcall : c.shared.ready = true → call.isWaiting = true → (c.task i).isWaiting = true) :
    Woken ⟨flag, update c.task i call⟩ := by
  intro hr hv
  rcases h (hready ▸ hr) (hvalue ▸ hv) with ⟨j, hj⟩ | hnone
  · have hne : j ≠ i := by
      rintro rfl
      exact hi hj
    exact .inl ⟨j, (update_of_ne hne ..).trans hj⟩
  · refine .inr fun j => ?_
    have hj := hnone j
    grind

theorem Sound.step {turn : Turn ι ReadinessAction} (h : Sound c)
    (hstep : Step ReadinessFlag.takeTurn Received c turn d) : Sound d := by
  obtain ⟨hreceived, htake⟩ := hstep
  obtain ⟨flag, call, hsec, rfl⟩ := take_eq_some.mp htake
  obtain ⟨i, action⟩ := turn
  obtain ⟨hreceives, hseen, hunseen, hwoken⟩ := h
  unfold ReadinessFlag.takeTurn at hsec
  split at hsec
  case h_4 haction hcall =>
    cases hsec
    unfold ReadinessFlag.send
    split_ifs with hnone
    · have hopening := (hreceived haction).resolve_left (not_not.mpr hnone)
      have hlast : ∀ j, (c.task j).lastSeen = none := by simpa [hnone] using hreceives
      exact ⟨by grind, by grind, by grind, fun _ _ => .inr fun j => by grind⟩
    · have hnot (j : ι) : c.task j ≠ .blocked (c.shared.version + 1) := by
        intro hj
        exact Nat.not_succ_le_self _ (hseen j _ (hj ▸ rfl))
      exact ⟨by grind, by grind, by grind, nofun⟩
  all_goals
    refine ⟨by grind, by grind, by grind, ?_⟩
    by_cases hsends : call = .sending
    · exact fun _ _ => .inl ⟨i, by simp [hsends]⟩
    · exact hwoken.update (by grind) (by grind) (by grind) (by grind)

/-- Where every value that is sent has a receiver or no call is about to open one, no call is
stranded. -/
theorem not_stranded {turns : List (Turn ι ReadinessAction)}
    (hrun : Run (Step ReadinessFlag.takeTurn Received) start turns c) : ¬ Stranded c := by
  have hstart : Sound (start : ReadinessConfig ι) :=
    ⟨fun _ => by simp [start, ReadinessFlag.new, ReadinessCall.lastSeen], nofun, nofun, nofun⟩
  have hsound : Sound c :=
    hrun.invariant (I := fun _ => Sound) (fun _ _ _ _ hs hstep => hs.step hstep) hstart
  rintro ⟨hready, hreturned, i, hi⟩
  rcases hsound.woken hready (hsound.unseen i hi) with ⟨j, hj⟩ | hnone
  · have hunder := hreturned j
    rw [hj] at hunder
    cases hunder
  · have hwaits := hnone i
    rw [hi] at hwaits
    cases hwaits

instance [Fintype ι] (c : ReadinessConfig ι) (turn : Turn ι ReadinessAction) :
    Decidable (Received c turn) :=
  inferInstanceAs (Decidable (_ → _ ∨ _))

attribute [local instance] neZeroThree

/-- One call waits for a change, and the send of another is what it waits for. -/
def sentToWaiter : List (Turn (Fin 3) ReadinessAction) :=
  [⟨0, .subscribe⟩, ⟨0, .insertToken 1⟩, ⟨1, .isReady true⟩, ⟨1, .tryLock true⟩, ⟨1, .recheck⟩,
    ⟨1, .openReceiver⟩, ⟨1, .borrow⟩, ⟨2, .markReady 1⟩, ⟨2, .removeToken⟩, ⟨2, .send⟩]

theorem not_stranded_sentToWaiter : ∃ c d : ReadinessConfig (Fin 3),
    Run (Step ReadinessFlag.takeTurn Received) start sentToWaiter c ∧ c.shared.ready = true ∧
      (∀ i, (c.task i).isUnderWay = false) ∧ c.task 1 = .blocked 0 ∧ ¬ Stranded c ∧
        Step ReadinessFlag.takeTurn Received c ⟨1, .changed⟩ d ∧ d.task 1 = .returned := by
  have hrun : Run (Step ReadinessFlag.takeTurn Received) (start : ReadinessConfig (Fin 3))
      sentToWaiter _ := run_of_takeAll rfl
  exact ⟨_, _, hrun, rfl, by decide, rfl, not_stranded hrun, ⟨nofun, rfl⟩, rfl⟩

/-- A value is sent between the look at the flag and the opening of the receiver. -/
theorem stranded_by_lost_send : ∃ c : ReadinessConfig (Fin 3), Stranded c ∧
    [⟨0, .subscribe⟩, ⟨0, .insertToken 1⟩, ⟨1, .isReady true⟩, ⟨1, .tryLock true⟩, ⟨1, .recheck⟩,
      ⟨2, .markReady 1⟩, ⟨2, .removeToken⟩, ⟨2, .send⟩, ⟨1, .openReceiver⟩, ⟨1, .borrow⟩].foldlM
        (Config.take ReadinessFlag.takeTurn) start = some c :=
  ⟨_, ⟨rfl, by decide, 1, rfl⟩, rfl⟩

end CodexRs.Utils.Readiness
