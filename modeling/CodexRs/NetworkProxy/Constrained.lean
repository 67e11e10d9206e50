import CodexRs.NetworkProxy.Runtime

/-!
# Managed constraints hold in every state

A change of the mode was checked against constraints that are still in force when it is written.
-/
namespace CodexRs.NetworkProxy
open Text Tasks Machine

variable {ι : Type*} {lib : ProxyLib}

/-- The configuration passes the check against the constraints, and the sets are compiled from
its domains. -/
structure StateSound (lib : ProxyLib) (state : ConfigState) : Prop where
  valid : validatePolicyAgainstConstraints lib.toTextLib state.config state.constraints = .ok ()
  allowSet : compileAllowlistGlobset lib.toGlobLib
    (state.config.network.allowedDomains.getD []) = .ok state.allowSet
  denySet : compileDenylistGlobset lib.toGlobLib
    (state.config.network.deniedDomains.getD []) = .ok state.denySet

/-- Made by `build_config_state`, up to the records of blocked requests, with a configuration that
passes the check. -/
def Qualified (lib : ProxyLib) (state : ConfigState) : Prop :=
  buildConfigState lib state.config state.constraints =
      .ok { state with blocked := [], blockedTotal := 0 } ∧
    validatePolicyAgainstConstraints lib.toTextLib state.config state.constraints = .ok ()

/-- The states that an action brings in. -/
def ProxyAction.brings : ProxyAction → Option ConfigState
  | .replaceConfigState newState => some newState
  | .maybeReload (.ok newState) => newState
  | .reloadNow (.ok newState) => some newState
  | _ => none

/-- Reloads and replacements bring in qualified states. -/
def BringsQualified (lib : ProxyLib) (_ : Config ι NetworkProxyState ProxyCall)
    (turn : Turn ι ProxyAction) : Prop :=
  ∀ state ∈ turn.action.brings, Qualified lib state

variable {constraints : NetworkProxyConstraints} {config : NetworkProxyConfig}

theorem buildConfigState_eq_ok
    {state : ConfigState} (h : buildConfigState lib config constraints = .ok state) :
    state.config = config ∧ state.constraints = constraints ∧
      compileAllowlistGlobset lib.toGlobLib (config.network.allowedDomains.getD []) =
        .ok state.allowSet ∧
      compileDenylistGlobset lib.toGlobLib (config.network.deniedDomains.getD []) =
        .ok state.denySet := by
  simp only [buildConfigState, bind, Except.bind] at h
  split at h
  · cases h
  split at h
  · cases h
  split at h
  · cases h
  rename_i denySet hdeny
  split at h
  · cases h
  rename_i allowSet hallow
  split at h
  · cases h
  cases h
  exact ⟨rfl, rfl, hallow, hdeny⟩

namespace StateSound
variable {state other : ConfigState}

theorem of_build {config : NetworkProxyConfig} {constraints : NetworkProxyConstraints}
    (h : buildConfigState lib config constraints = .ok state)
    (hvalid : validatePolicyAgainstConstraints lib.toTextLib config constraints = .ok ()) :
    StateSound lib state := by
  obtain ⟨hconfig, hconstraints, hallow, hdeny⟩ := buildConfigState_eq_ok h
  subst hconfig hconstraints
  exact ⟨hvalid, hallow, hdeny⟩

theorem records (h : StateSound lib state) (blocked : List BlockedRequest) (blockedTotal : ℕ) :
    StateSound lib { state with blocked, blockedTotal } :=
  ⟨h.valid, h.allowSet, h.denySet⟩

theorem of_qualified (h : Qualified lib state) : StateSound lib state :=
  (of_build h.1 h.2).records state.blocked state.blockedTotal

end StateSound

theorem validateMode_of_valid {text : TextLib}
    (h : validatePolicyAgainstConstraints text config constraints = .ok ()) :
    validateMode constraints.mode config.network.mode = .ok () := by
  rw [validatePolicyAgainstConstraints, firstError_eq_ok] at h
  exact h _ (by simp)

/-- The mode is looked at in one check only. -/
theorem valid_of_mode {text : TextLib} {mode : NetworkMode}
    (h : validatePolicyAgainstConstraints text config constraints = .ok ())
    (hmode : validateMode constraints.mode mode = .ok ()) :
    validatePolicyAgainstConstraints text ⟨{ config.network with mode }⟩ constraints = .ok () := by
  rw [validatePolicyAgainstConstraints, firstError_eq_ok] at h ⊢
  simp only [List.forall_mem_cons] at h ⊢
  obtain ⟨hdenied, henabled, -, hrest⟩ := h
  exact ⟨hdenied, henabled, hmode, hrest⟩

theorem StateSound.setMode {state : ConfigState} {mode : NetworkMode} (h : StateSound lib state)
    (hmode : validateMode state.constraints.mode mode = .ok ()) :
    StateSound lib (state.setMode mode) :=
  ⟨valid_of_mode h.valid hmode, h.allowSet, h.denySet⟩

/-- What a call carries with it is sound. -/
def OpSound (lib : ProxyLib) : ProxyOp → Prop
  | .replaceConfigState newState => StateSound lib newState
  | _ => True

def CallSound (lib : ProxyLib) : ProxyCall → Prop
  | .checking op | .entering op => OpSound lib op
  | .reloading op newState | .installing op newState => OpSound lib op ∧ StateSound lib newState
  | .writingMode mode constraints => validateMode constraints.mode mode = .ok ()
  | .writingDomains _ _ _ _ newState | .forceInstalling newState => StateSound lib newState
  | _ => True

namespace NetworkProxyState
variable {s s' : NetworkProxyState} {t t' : ProxyCall}

section
variable (h : StateSound lib s.state)
include h

theorem readDomains_sound (normalizedHost : Str) (target : DomainListKind) :
    StateSound lib (s.readDomains lib normalizedHost target).1.state ∧
      CallSound lib (s.readDomains lib normalizedHost target).2 := by
  unfold readDomains
  simp only
  split_ifs
  · exact ⟨h, trivial⟩
  split
  · exact ⟨h, trivial⟩
  rename_i hvalid
  split
  · exact ⟨h, trivial⟩
  · rename_i newState hbuild
    exact ⟨h, (StateSound.of_build hbuild hvalid).records _ _⟩

theorem readMode_sound (mode : NetworkMode) :
    StateSound lib (s.readMode lib mode).1.state ∧ CallSound lib (s.readMode lib mode).2 := by
  unfold readMode
  simp only
  split
  · exact ⟨h, trivial⟩
  · rename_i hvalid
    exact ⟨h, validateMode_of_valid hvalid⟩

theorem enter_sound {op : ProxyOp} (hop : OpSound lib op) :
    StateSound lib (s.enter lib op).1.state ∧ CallSound lib (s.enter lib op).2 := by
  cases op with
  | recordBlocked entry => exact ⟨h.records _ _, trivial⟩
  | drainBlocked => exact ⟨h.records _ _, trivial⟩
  | blockedSnapshot => exact ⟨h, trivial⟩
  | updateDomainList normalizedHost target => exact readDomains_sound h normalizedHost target
  | setNetworkMode mode => exact readMode_sound h mode
  | replaceConfigState newState => exact ⟨hop.records _ _, trivial⟩

theorem step_sound (hcall : CallSound lib t)
    (hstep : s.step lib t = some (s', t')) : StateSound lib s'.state ∧ CallSound lib t' := by
  cases t with
  | reloading op newState =>
    cases hstep
    exact ⟨h, hcall.1, hcall.2.records _ _⟩
  | installing op newState =>
    cases hstep
    exact ⟨hcall.2, hcall.1⟩
  | entering op =>
    have hstep := Option.some.inj hstep
    have hsound := enter_sound h hcall
    rw [hstep] at hsound
    exact hsound
  | writingMode mode constraints =>
    simp only [step] at hstep
    split_ifs at hstep with hconstraints <;> cases hstep
    · exact ⟨h, trivial⟩
    · rw [not_not] at hconstraints
      exact ⟨h.setMode (hconstraints ▸ hcall), trivial⟩
  | writingDomains normalizedHost target previousCfg constraints newState =>
    simp only [step] at hstep
    split_ifs at hstep <;> cases hstep
    · exact ⟨h, trivial⟩
    · exact ⟨hcall, trivial⟩
  | forceInstalling newState =>
    cases hstep
    exact ⟨hcall.records _ _, trivial⟩
  | _ => cases hstep

end

theorem failOp_state (op : ProxyOp) (error : AnyhowError) : (s.failOp op error).state = s.state := by
  cases op <;> rfl

theorem sec_sound {i : ι} {action : ProxyAction} (h : StateSound lib s.state)
    (hcall : CallSound lib t) (hbrings : ∀ state ∈ action.brings, Qualified lib state)
    (hsec : sec lib i action s t = some (s', t')) :
    StateSound lib s'.state ∧ CallSound lib t' := by
  unfold sec at hsec
  split at hsec
  · cases hsec
    exact ⟨h, trivial⟩
  · cases hsec
    exact ⟨h, trivial⟩
  · cases hsec
    exact ⟨h, trivial⟩
  · split at hsec <;> cases hsec
    · exact ⟨h, trivial⟩
    · exact ⟨h, trivial⟩
  · cases hsec
    exact ⟨h, trivial⟩
  · cases hsec
    exact ⟨h, .of_qualified (hbrings _ rfl)⟩
  · cases hsec
    exact ⟨h, trivial⟩
  · cases hsec
    rw [failOp_state]
    exact ⟨h, trivial⟩
  · cases hsec
    exact ⟨h, hcall⟩
  · cases hsec
    exact ⟨h, hcall, .of_qualified (hbrings _ rfl)⟩
  · cases hsec
    exact ⟨h, trivial⟩
  · cases hsec
    exact ⟨h, .of_qualified (hbrings _ rfl)⟩
  · exact step_sound h hcall hsec
  · cases hsec

theorem sound_kept : Kept (ι := ι) (sec lib) (BringsQualified lib)
    (fun s => StateSound lib s.state) (fun _ _ t => CallSound lib t) where
  own hI hJ hallowed hsec := sec_sound hI (hJ _) hallowed hsec
  others _ _ hJ _ _ := hJ _

end NetworkProxyState

open NetworkProxyState

/-- However reloads, changes of the mode and of the lists interleave, the state keeps to its managed
constraints, as long as the states that are brought in were checked. -/
theorem managed_constraints_hold [DecidableEq ι] {state : ConfigState}
    {turns : List (Turn ι ProxyAction)} {c : Config ι NetworkProxyState ProxyCall}
    (hstart : Qualified lib state)
    (hrun : Run (Step (sec lib) (BringsQualified lib)) (started state) turns c) :
    StateSound lib c.shared.state :=
  (sound_kept.run hrun ⟨.of_qualified hstart, fun _ => trivial⟩).1

/-- A configuration that allows one domain. -/
def allowing (mode : NetworkMode) : NetworkProxyConfig :=
  ⟨{ NetworkProxySettings.default with
    mode, domains := some ⟨[⟨"a.com".toList, .allow⟩]⟩ }⟩

def unmanaged : ConfigState where
  config := allowing .full
  allowSet := ["a.com".toList]
  denySet := []
  mitm := none
  constraints := .default
  blocked := []
  blockedTotal := 0

/-- The mode and the domains are managed. -/
def managed : ConfigState where
  config := allowing .limited
  allowSet := ["a.com".toList]
  denySet := []
  mitm := none
  constraints := { NetworkProxyConstraints.default with
    mode := some .limited
    allowedDomains := some ["**.a.com".toList] }
  blocked := []
  blockedTotal := 0

/-- Constraints come into force between the two sections of a change of the mode, which then
fails. -/
def narrowed : List (Turn Bool ProxyAction) :=
  [⟨false, .setNetworkMode .full⟩, ⟨false, .maybeReload (.ok none)⟩, ⟨false, .step⟩,
   ⟨true, .updateDomainList "B.a.com:443".toList .allow⟩, ⟨true, .maybeReload (.ok (some managed))⟩,
   ⟨true, .step⟩, ⟨true, .step⟩, ⟨true, .step⟩, ⟨false, .step⟩,
   ⟨false, .maybeReload (.ok none)⟩, ⟨false, .step⟩, ⟨true, .step⟩]

instance (state : ConfigState) : Decidable (Qualified lib state) :=
  inferInstanceAs (Decidable (_ ∧ _))

instance (c : Config ι NetworkProxyState ProxyCall) (turn : Turn ι ProxyAction) :
    Decidable (BringsQualified lib c turn) :=
  inferInstanceAs (Decidable (∀ state ∈ turn.action.brings, Qualified lib state))

theorem managed_constraints_hold_narrowed : ∃ c : Config Bool NetworkProxyState ProxyCall,
    Qualified .literal unmanaged ∧
    (started unmanaged).takeAll (sec .literal) (BringsQualified .literal) narrowed = some c ∧
    c.shared.state.config.network.mode = .limited ∧
    c.shared.state.allowSet = ["a.com".toList, "b.a.com".toList] ∧
    StateSound .literal c.shared.state := by
  have hstart : Qualified .literal unmanaged := by decide +kernel
  have hrun : (started unmanaged).takeAll (sec .literal) (BringsQualified .literal) narrowed =
      some _ := rfl
  exact ⟨_, hstart, hrun, rfl, rfl, managed_constraints_hold hstart (run_of_takeAll hrun)⟩

end CodexRs.NetworkProxy
