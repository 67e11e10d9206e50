import CodexRs.NetworkProxy.Runtime

/-!
# Records of blocked requests

A reload and a change of a domain list install the records that an earlier section has read; a
forced reload takes over the buffer and not the counter.
-/
namespace CodexRs.NetworkProxy
open Text Tasks Machine List

theorem popExcess_eq_rtake (blocked : List BlockedRequest) :
    popExcess blocked = blocked.rtake maxBlockedEvents := by
  induction blocked with
  | nil => simp [popExcess]
  | cons entry blocked ih =>
    rw [popExcess]
    split_ifs with h
    · rw [length_cons] at h
      have hlength : (entry :: blocked).length - maxBlockedEvents =
          (blocked.length - maxBlockedEvents) + 1 := by
        rw [length_cons]
        omega
      rw [ih, rtake, rtake, hlength, drop_succ_cons]
    · rw [rtake, Nat.sub_eq_zero_of_le (not_lt.mp h), drop_zero]

/-- The window moves on by one record. -/
theorem rtake_append_singleton {α : Type*} (l : List α) (a : α) (n : ℕ) :
    (l.rtake n ++ [a]).rtake n = (l ++ [a]).rtake n := by
  simp only [rtake, length_append, length_drop]
  rcases Nat.le_total l.length n with h | h
  · rw [Nat.sub_eq_zero_of_le h, drop_zero, Nat.sub_zero]
  · rw [Nat.sub_sub_self h, Nat.add_sub_cancel_left, ← drop_append_of_le_length, drop_drop]
    · congr 1
      omega
    · omega

/-- The buffer and the counter with what was written, and what was returned by drains. -/
structure Ledger where
  blocked : List BlockedRequest
  blockedTotal : ℕ
  written : List BlockedRequest
  drainedAt : ℕ
  returned : List BlockedRequest

namespace Ledger
variable (l : Ledger)

def record (entry : BlockedRequest) : Ledger :=
  { l with
    blocked := popExcess (l.blocked ++ [entry])
    blockedTotal := min (l.blockedTotal + 1) (2 ^ 64 - 1)
    written := l.written ++ [entry] }

def drain : Ledger :=
  { l with
    blocked := []
    drainedAt := l.written.length
    returned := l.returned ++ l.blocked }

/-- The counter tells how many records were written, the buffer holds the latest since the last
drain, and drains return different records. -/
structure Exact : Prop where
  blockedTotal : l.blockedTotal = min l.written.length (2 ^ 64 - 1)
  blocked : l.blocked = (l.written.drop l.drainedAt).rtake maxBlockedEvents
  once : (l.returned ++ l.blocked).Sublist l.written

/-- The invariant behind it: what was returned was written before the last drain. -/
structure Sound : Prop where
  blockedTotal : l.blockedTotal = min l.written.length (2 ^ 64 - 1)
  blocked : l.blocked = (l.written.drop l.drainedAt).rtake maxBlockedEvents
  drainedAt : l.drainedAt ≤ l.written.length
  returned : l.returned.Sublist (l.written.take l.drainedAt)

variable {l}

theorem Sound.once (h : l.Sound) : (l.returned ++ l.blocked).Sublist l.written := by
  have hblocked : l.blocked.Sublist (l.written.drop l.drainedAt) := by
    rw [h.blocked]
    exact drop_sublist _ _
  have happend := h.returned.append hblocked
  rwa [take_append_drop] at happend

theorem Sound.exact (h : l.Sound) : l.Exact := ⟨h.blockedTotal, h.blocked, h.once⟩

theorem Sound.record (h : l.Sound) (entry : BlockedRequest) : (l.record entry).Sound where
  blockedTotal := by
    have htotal := h.blockedTotal
    simp only [Ledger.record, length_append, length_singleton]
    omega
  blocked := by
    simp only [Ledger.record]
    rw [popExcess_eq_rtake, h.blocked, rtake_append_singleton, drop_append_of_le_length h.drainedAt]
  drainedAt := by
    simp only [Ledger.record, length_append]
    exact Nat.le_add_right_of_le h.drainedAt
  returned := by
    simp only [Ledger.record]
    rw [take_append_of_le_length h.drainedAt]
    exact h.returned

theorem Sound.drain (h : l.Sound) : l.drain.Sound where
  blockedTotal := h.blockedTotal
  blocked := by simp [Ledger.drain]
  drainedAt := le_rfl
  returned := by
    simp only [Ledger.drain, take_length]
    exact h.once

end Ledger

namespace ProxyCall

/-- What was read for and is not yet written: its records are a copy. -/
def copied : ProxyCall → Option ConfigState
  | .installing _ newState => some newState
  | .writingDomains _ _ _ _ newState => some newState
  | _ => none

/-- What a forced reload is about to install. -/
def forced : ProxyCall → Option ConfigState
  | .forceInstalling newState => some newState
  | _ => none

/-- The sections of `record_blocked` and of `drain_blocked`. -/
def changesRecords : ProxyCall → Bool
  | .entering (.recordBlocked _) => true
  | .entering .drainBlocked => true
  | _ => false

end ProxyCall

namespace NetworkProxyState
variable {lib : ProxyLib} {s s' : NetworkProxyState} {t t' : ProxyCall}

def ledger (s : NetworkProxyState) : Ledger :=
  ⟨s.state.blocked, s.state.blockedTotal, s.written, s.drainedAt, s.returned⟩

/-- A copy of the records is still the current one. -/
def Fresh (s : NetworkProxyState) (t : ProxyCall) : Prop :=
  ∀ newState ∈ t.copied,
    newState.blocked = s.state.blocked ∧ newState.blockedTotal = s.state.blockedTotal

theorem Fresh.of_ledger_eq (h : s.Fresh t) (hledger : s'.ledger = s.ledger) : s'.Fresh t := by
  have hblocked : s'.state.blocked = s.state.blocked := congrArg Ledger.blocked hledger
  have htotal : s'.state.blockedTotal = s.state.blockedTotal :=
    congrArg Ledger.blockedTotal hledger
  unfold Fresh
  rw [hblocked, htotal]
  exact h

theorem fresh_of_copied_eq_none (h : t.copied = none) : s.Fresh t := by
  intro newState hcopied
  rw [h] at hcopied
  exact absurd hcopied (Option.not_mem_none _)

theorem fresh_withRecordsOf {newState : ConfigState}
    (h : t.copied = some (newState.withRecordsOf s.state)) : s.Fresh t := by
  intro newState hcopied
  rw [h] at hcopied
  obtain rfl := Option.some.inj hcopied
  exact ⟨rfl, rfl⟩

theorem ledger_failOp (op : ProxyOp) (error : AnyhowError) :
    (s.failOp op error).ledger = s.ledger := by
  cases op <;> rfl

variable (lib s) in
/-- The section that reads leaves the records alone and copies them. -/
theorem ledger_readDomains (normalizedHost : Str) (target : DomainListKind) :
    (s.readDomains lib normalizedHost target).1.ledger = s.ledger ∧
      s.Fresh (s.readDomains lib normalizedHost target).2 := by
  unfold readDomains
  simp only
  split_ifs
  · exact ⟨rfl, fresh_of_copied_eq_none rfl⟩
  split
  · exact ⟨rfl, fresh_of_copied_eq_none rfl⟩
  split
  · exact ⟨rfl, fresh_of_copied_eq_none rfl⟩
  · exact ⟨rfl, fresh_withRecordsOf rfl⟩

variable (lib s) in
theorem ledger_readMode (mode : NetworkMode) : (s.readMode lib mode).1.ledger = s.ledger ∧
    (s.readMode lib mode).2.copied = none := by
  unfold readMode
  simp only
  split
  · exact ⟨rfl, rfl⟩
  · exact ⟨rfl, rfl⟩

/-- A state with the current records is installed. -/
theorem ledger_install {newState : ConfigState}
    (h : newState.blocked = s.state.blocked ∧ newState.blockedTotal = s.state.blockedTotal) :
    ledger { s with state := newState } = s.ledger := by
  simp only [ledger, h.1, h.2]

/-- A section that neither records nor drains leaves the records alone, and what it has copied is
current. -/
theorem ledger_step (hquiet : t.changesRecords = false) (hfresh : s.Fresh t)
    (hforce : ∀ newState ∈ t.forced, newState.blockedTotal = s.state.blockedTotal)
    (hstep : s.step lib t = some (s', t')) : s'.ledger = s.ledger ∧ s.Fresh t' := by
  cases t with
  | reloading op newState =>
    cases hstep
    exact ⟨rfl, fresh_withRecordsOf rfl⟩
  | installing op newState =>
    cases hstep
    exact ⟨ledger_install (hfresh newState rfl), fresh_of_copied_eq_none rfl⟩
  | entering op =>
    have hstep : s.enter lib op = (s', t') := Option.some.inj hstep
    cases op with
    | recordBlocked entry => cases hquiet
    | drainBlocked => cases hquiet
    | blockedSnapshot =>
      cases hstep
      exact ⟨rfl, fresh_of_copied_eq_none rfl⟩
    | updateDomainList normalizedHost target =>
      have hread := ledger_readDomains lib s normalizedHost target
      rwa [show s.readDomains lib normalizedHost target = (s', t') from hstep] at hread
    | setNetworkMode mode =>
      have hread := ledger_readMode lib s mode
      rw [show s.readMode lib mode = (s', t') from hstep] at hread
      exact ⟨hread.1, fresh_of_copied_eq_none hread.2⟩
    | replaceConfigState newState =>
      cases hstep
      exact ⟨rfl, fresh_of_copied_eq_none rfl⟩
  | writingMode mode constraints =>
    simp only [step] at hstep
    split_ifs at hstep <;> cases hstep
    · exact ⟨rfl, fresh_of_copied_eq_none rfl⟩
    · exact ⟨rfl, fresh_of_copied_eq_none rfl⟩
  | writingDomains normalizedHost target previousCfg constraints newState =>
    simp only [step] at hstep
    split_ifs at hstep <;> cases hstep
    · exact ⟨rfl, fresh_of_copied_eq_none rfl⟩
    · exact ⟨ledger_install (hfresh newState rfl), fresh_of_copied_eq_none rfl⟩
  | forceInstalling newState =>
    cases hstep
    have hinstall := ledger_install (⟨rfl, hforce newState rfl⟩ :
      { newState with blocked := s.state.blocked }.blocked = s.state.blocked ∧ _)
    exact ⟨hinstall, fresh_of_copied_eq_none rfl⟩
  | _ => cases hstep

theorem sound_changesRecords (hchanges : t.changesRecords = true) (h : s.ledger.Sound)
    (hstep : s.step lib t = some (s', t')) : s'.ledger.Sound ∧ t' = .idle := by
  unfold ProxyCall.changesRecords at hchanges
  split at hchanges
  · cases hstep
    exact ⟨h.record _, rfl⟩
  · cases hstep
    exact ⟨h.drain, rfl⟩
  · cases hchanges

/-- A turn that is no section of a lock leaves the records alone and copies nothing. -/
theorem ledger_sec {ι : Type*} {i : ι} {action : ProxyAction} (haction : action ≠ .step)
    (hsec : sec lib i action s t = some (s', t')) : s'.ledger = s.ledger ∧ t'.copied = none := by
  unfold sec at hsec
  split at hsec
  case h_4 =>
    split at hsec <;> cases hsec
    · exact ⟨rfl, rfl⟩
    · exact ⟨rfl, rfl⟩
  case h_8 =>
    cases hsec
    exact ⟨ledger_failOp _ _, rfl⟩
  case h_13 => exact absurd rfl haction
  case h_14 => cases hsec
  all_goals
    cases hsec
    exact ⟨rfl, rfl⟩

variable {ι : Type*}

/-- Nothing is recorded or drained between the two sections of a reload or of a change of a domain
list, and a forced reload brings the current counter. -/
def Undisturbed (c : Config ι NetworkProxyState ProxyCall) (turn : Turn ι ProxyAction) : Prop :=
  turn.action = .step →
    ((c.task turn.task).changesRecords → ∀ j, (c.task j).copied = none) ∧
    ∀ newState ∈ (c.task turn.task).forced,
      newState.blockedTotal = c.shared.state.blockedTotal

/-- The copies stay current, so that whoever installs one changes no record. -/
theorem records_kept : Kept (ι := ι) (sec lib) Undisturbed (fun s => s.ledger.Sound)
    (fun _ s t => s.Fresh t) where
  own {c i action s' t'} hI hJ hallowed hsec := by
    by_cases haction : action = .step
    · subst haction
      obtain ⟨-, hforce⟩ := hallowed rfl
      cases hchanges : (c.task i).changesRecords with
      | true =>
        obtain ⟨hsound, rfl⟩ := sound_changesRecords hchanges hI hsec
        exact ⟨hsound, fresh_of_copied_eq_none rfl⟩
      | false =>
        obtain ⟨hledger, hfresh⟩ := ledger_step hchanges (hJ i) hforce hsec
        exact ⟨hledger ▸ hI, hfresh.of_ledger_eq hledger⟩
    · obtain ⟨hledger, hcopied⟩ := ledger_sec haction hsec
      exact ⟨hledger ▸ hI, fresh_of_copied_eq_none hcopied⟩
  others {c i j action s' t'} _ _ hJ hallowed hsec := by
    by_cases haction : action = .step
    · subst haction
      obtain ⟨hquiet, hforce⟩ := hallowed rfl
      cases hchanges : (c.task i).changesRecords with
      | true => exact fresh_of_copied_eq_none (hquiet hchanges j)
      | false => exact (hJ j).of_ledger_eq (ledger_step hchanges (hJ i) hforce hsec).1
    · exact (hJ j).of_ledger_eq (ledger_sec haction hsec).1

theorem sound_started {state : ConfigState} (hblocked : state.blocked = [])
    (htotal : state.blockedTotal = 0) : (withReloader state).ledger.Sound where
  blockedTotal := htotal
  blocked := by
    simp only [ledger, withReloader, hblocked]
    rfl
  drainedAt := le_rfl
  returned := Sublist.refl _

end NetworkProxyState

open NetworkProxyState

variable {ι : Type*} [DecidableEq ι] {lib : ProxyLib}

/-- Whatever the calls and their interleaving, the records are exact while nothing is recorded or
drained between the two sections of one that copies them. -/
theorem blocked_records_exact {state : ConfigState} {turns : List (Turn ι ProxyAction)}
    {c : Config ι NetworkProxyState ProxyCall} (hblocked : state.blocked = [])
    (htotal : state.blockedTotal = 0)
    (hrun : Run (Step (sec lib) Undisturbed) (started state) turns c) :
    c.shared.ledger.Exact :=
  (records_kept.run hrun ⟨sound_started hblocked htotal, fun _ => fresh_of_copied_eq_none rfl⟩).1.exact

/-- A state of a proxy without a configuration of its own. -/
def unconfigured : ConfigState where
  config := ⟨.default⟩
  allowSet := []
  denySet := []
  mitm := none
  constraints := .default
  blocked := []
  blockedTotal := 0

/-- A request for a host that is not allowed. -/
def notAllowed (host : String) : BlockedRequest where
  host := host.toList
  reason := "not_allowed".toList
  client := none
  method := none
  mode := none
  protocol := "http".toList
  decision := none
  source := none
  port := none
  timestamp := 0

/-- A call that asks for no reload and has one section. -/
def calls {ι : Type*} (i : ι) (action : ProxyAction) : List (Turn ι ProxyAction) :=
  [⟨i, action⟩, ⟨i, .maybeReload (.ok none)⟩, ⟨i, .step⟩]

/-- The turns of a reload up to the section that installs. -/
def reads {ι : Type*} (i : ι) : List (Turn ι ProxyAction) :=
  [⟨i, .blockedSnapshot⟩, ⟨i, .maybeReload (.ok (some unconfigured))⟩, ⟨i, .step⟩]

instance [Fintype ι] (c : Config ι NetworkProxyState ProxyCall) (turn : Turn ι ProxyAction) :
    Decidable (Undisturbed c turn) :=
  inferInstanceAs (Decidable (_ → _))

/-- The state is replaced between the two sections of a reload, and a domain is added; nothing is
recorded or drained meanwhile. -/
def undisturbed : List (Turn Bool ProxyAction) :=
  calls false (.recordBlocked (notAllowed "a.com")) ++ reads true ++
    calls false (.replaceConfigState unconfigured) ++ [⟨true, .step⟩] ++
    calls false .drainBlocked ++ calls false (.recordBlocked (notAllowed "b.com")) ++
    calls false (.updateDomainList "c.com".toList .deny) ++ [⟨false, .step⟩]

theorem blocked_records_exact_undisturbed : ∃ c : Config Bool NetworkProxyState ProxyCall,
    (started unconfigured).takeAll (sec .literal) Undisturbed undisturbed = some c ∧
    c.shared.state.denySet = ["c.com".toList] ∧
    c.shared.ledger = ⟨[notAllowed "b.com"], 2, [notAllowed "a.com", notAllowed "b.com"], 1,
      [notAllowed "a.com"]⟩ ∧
    c.shared.ledger.Exact := by
  have hrun : (started unconfigured).takeAll (sec .literal) Undisturbed undisturbed = some _ := rfl
  exact ⟨_, hrun, rfl, rfl, blocked_records_exact rfl rfl (run_of_takeAll hrun)⟩

/-- What is recorded between the two sections of a reload is lost, and what is drained there is
returned again. -/
theorem reload_undoes_records_and_drains : (∃ c : Config Bool NetworkProxyState ProxyCall,
      Run (Step (sec .literal) fun _ _ => True) (started unconfigured)
        (reads true ++ calls false (.recordBlocked (notAllowed "a.com")) ++ [⟨true, .step⟩]) c ∧
      c.shared.answers = [.done (.ok ())] ∧
      c.shared.ledger = ⟨[], 0, [notAllowed "a.com"], 0, []⟩ ∧
      ¬ c.shared.ledger.Exact) ∧
    ∃ c : Config Bool NetworkProxyState ProxyCall,
      Run (Step (sec .literal) fun _ _ => True) (started unconfigured)
        (calls false (.recordBlocked (notAllowed "a.com")) ++ reads true ++
          calls false .drainBlocked ++ [⟨true, .step⟩] ++ calls false .drainBlocked) c ∧
      c.shared.ledger = ⟨[], 1, [notAllowed "a.com"], 1, [notAllowed "a.com", notAllowed "a.com"]⟩ ∧
      ¬ c.shared.ledger.Exact := by
  refine ⟨⟨_, run_of_takeAll rfl, rfl, rfl, fun h => ?_⟩, ⟨_, run_of_takeAll rfl, rfl, fun h => ?_⟩⟩
  · exact absurd h.blockedTotal (by decide +kernel)
  · exact absurd h.once.length_le (by decide +kernel)

end CodexRs.NetworkProxy
