import CodexRs.NetworkProxy.State
import CodexRs.Library.Tasks

/-!
# The state of the running proxy

Calls read and write the state under a lock, one section at a time, and changes are made again if
what they depend on has changed in between.
-/
namespace CodexRs.NetworkProxy
open Text Tasks

def maxBlockedEvents : ℕ := 200

inductive DomainListKind where
  | allow
  | deny
deriving DecidableEq

namespace DomainListKind

def listName : DomainListKind → String
  | .allow => "allowlist"
  | .deny => "denylist"

def constraintField : DomainListKind → String
  | .allow => "network.allowed_domains"
  | .deny => "network.denied_domains"

def permission : DomainListKind → NetworkDomainPermission
  | .allow => .allow
  | .deny => .deny

variable (network : NetworkProxySettings)

def entries : DomainListKind → List Str
  | .allow => network.allowedDomains.getD []
  | .deny => network.deniedDomains.getD []

def oppositeEntries : DomainListKind → List Str
  | .allow => network.deniedDomains.getD []
  | .deny => network.allowedDomains.getD []

end DomainListKind

/-- The oldest records go while there are too many. -/
def popExcess : List BlockedRequest → List BlockedRequest
  | [] => []
  | entry :: blocked =>
    if maxBlockedEvents < (entry :: blocked).length then popExcess blocked else entry :: blocked

namespace ConfigState
variable (state : ConfigState)

def recordBlocked (entry : BlockedRequest) : ConfigState :=
  { state with
    blocked := popExcess (state.blocked ++ [entry])
    blockedTotal := min (state.blockedTotal + 1) (2 ^ 64 - 1) }

/-- The records of another state take the place of its own. -/
def withRecordsOf (other : ConfigState) : ConfigState :=
  { state with blocked := other.blocked, blockedTotal := other.blockedTotal }

def setMode (mode : NetworkMode) : ConfigState :=
  { state with config := ⟨{ state.config.network with mode }⟩ }

end ConfigState

inductive ProxyOp where
  | recordBlocked (entry : BlockedRequest)
  | drainBlocked
  | blockedSnapshot
  | updateDomainList (normalizedHost : Str) (target : DomainListKind)
  | setNetworkMode (mode : NetworkMode)
  | replaceConfigState (newState : ConfigState)
deriving DecidableEq

/-- Whether to reload is asked first; a reload or a change is read for and then written. -/
inductive ProxyCall where
  | idle
  | checking (op : ProxyOp)
  | reloading (op : ProxyOp) (newState : ConfigState)
  | installing (op : ProxyOp) (newState : ConfigState)
  | entering (op : ProxyOp)
  | writingMode (mode : NetworkMode) (constraints : NetworkProxyConstraints)
  | writingDomains (normalizedHost : Str) (target : DomainListKind)
      (previousCfg : NetworkProxyConfig) (constraints : NetworkProxyConstraints)
      (newState : ConfigState)
  | forcing
  | forceInstalling (newState : ConfigState)
deriving DecidableEq

inductive ProxyAction where
  | recordBlocked (entry : BlockedRequest)
  | drainBlocked
  | blockedSnapshot
  | updateDomainList (host : Str) (target : DomainListKind)
  | setNetworkMode (mode : NetworkMode)
  | replaceConfigState (newState : ConfigState)
  | forceReload
  | maybeReload (outcome : Except AnyhowError (Option ConfigState))
  | reloadNow (outcome : Except AnyhowError ConfigState)
  | step
deriving DecidableEq

inductive ProxyAnswer where
  | done (result : Except AnyhowError Unit)
  | drained (result : Except AnyhowError (List BlockedRequest))
  | snapshot (result : Except AnyhowError (List BlockedRequest))

/-- The history tells the records that were written, how many of them before the last drain, and
those that the drains have returned. -/
structure NetworkProxyState where
  state : ConfigState
  answers : List ProxyAnswer
  written : List BlockedRequest
  drainedAt : ℕ
  returned : List BlockedRequest

namespace NetworkProxyState
variable (lib : ProxyLib) (s : NetworkProxyState)

def withReloader (state : ConfigState) : NetworkProxyState := ⟨state, [], [], 0, []⟩

def answer (result : ProxyAnswer) : NetworkProxyState :=
  { s with answers := result :: s.answers }

/-- What a call returns that could not ask for a reload. -/
def failOp (op : ProxyOp) (error : AnyhowError) : NetworkProxyState :=
  match op with
  | .drainBlocked => s.answer (.drained (.error error))
  | .blockedSnapshot => s.answer (.snapshot (.error error))
  | _ => s.answer (.done (.error error))

/-- The section of `update_domain_list` that reads, and what is made of it. -/
def readDomains (normalizedHost : Str) (target : DomainListKind) : NetworkProxyState × ProxyCall :=
  let network := s.state.config.network
  let contains := fun entries : List Str =>
    entries.any fun entry => decide (normalizeHost entry = normalizedHost)
  if contains (target.entries network) ∧ ¬ contains (target.oppositeEntries network) then
    (s.answer (.done (.ok ())), .idle)
  else
    let candidate : NetworkProxyConfig :=
      ⟨network.upsertDomainPermission normalizedHost target.permission normalizeHost⟩
    match validatePolicyAgainstConstraints lib.toTextLib candidate s.state.constraints with
    | .error error =>
      let context := target.constraintField.toList ++ " constrained by managed config".toList
      (s.answer (.done (.error (context :: error.intoAnyhow))), .idle)
    | .ok () =>
      match buildConfigState lib candidate s.state.constraints with
      | .error error =>
        let context := "failed to compile updated network ".toList ++ target.listName.toList
        (s.answer (.done (.error (context :: error))), .idle)
      | .ok newState =>
        (s, .writingDomains normalizedHost target s.state.config s.state.constraints
          (newState.withRecordsOf s.state))

/-- The section of `set_network_mode` that reads, and the check of what was read. -/
def readMode (mode : NetworkMode) : NetworkProxyState × ProxyCall :=
  let candidate : NetworkProxyConfig := ⟨{ s.state.config.network with mode }⟩
  match validatePolicyAgainstConstraints lib.toTextLib candidate s.state.constraints with
  | .error error =>
    let context := "network.mode constrained by managed config".toList
    (s.answer (.done (.error (context :: error.intoAnyhow))), .idle)
  | .ok () => (s, .writingMode mode s.state.constraints)

/-- The first section of a call behind the question whether to reload. -/
def enter : ProxyOp → NetworkProxyState × ProxyCall
  | .recordBlocked entry =>
    let t := { s with state := s.state.recordBlocked entry, written := s.written ++ [entry] }
    (t.answer (.done (.ok ())), .idle)
  | .drainBlocked =>
    let t := { s with
      state := { s.state with blocked := [] }
      drainedAt := s.written.length
      returned := s.returned ++ s.state.blocked }
    (t.answer (.drained (.ok s.state.blocked)), .idle)
  | .blockedSnapshot => (s.answer (.snapshot (.ok s.state.blocked)), .idle)
  | .updateDomainList normalizedHost target => s.readDomains lib normalizedHost target
  | .setNetworkMode mode => s.readMode lib mode
  | .replaceConfigState newState =>
    ({ s with state := newState.withRecordsOf s.state }.answer (.done (.ok ())), .idle)

def step : ProxyCall → Option (NetworkProxyState × ProxyCall)
  | .reloading op newState => some (s, .installing op (newState.withRecordsOf s.state))
  | .installing op newState => some ({ s with state := newState }, .entering op)
  | .entering op => some (s.enter lib op)
  | .writingMode mode constraints =>
    if s.state.constraints ≠ constraints then some (s, .checking (.setNetworkMode mode))
    else some ({ s with state := s.state.setMode mode }.answer (.done (.ok ())), .idle)
  | .writingDomains normalizedHost target previousCfg constraints newState =>
    if s.state.constraints ≠ constraints ∨ s.state.config ≠ previousCfg then
      some (s, .checking (.updateDomainList normalizedHost target))
    else some ({ s with state := newState }.answer (.done (.ok ())), .idle)
  | .forceInstalling newState =>
    let newState := { newState with blocked := s.state.blocked }
    some ({ s with state := newState }.answer (.done (.ok ())), .idle)
  | _ => none

def sec {ι : Type*} (_ : ι) (action : ProxyAction) (s : NetworkProxyState) (t : ProxyCall) :
    Option (NetworkProxyState × ProxyCall) :=
  match action, t with
  | .recordBlocked entry, .idle => some (s, .checking (.recordBlocked entry))
  | .drainBlocked, .idle => some (s, .checking .drainBlocked)
  | .blockedSnapshot, .idle => some (s, .checking .blockedSnapshot)
  | .updateDomainList host target, .idle =>
    match parseHost host with
    | .error error =>
      some (s.answer (.done (.error ("invalid network host".toList :: error))), .idle)
    | .ok normalizedHost => some (s, .checking (.updateDomainList normalizedHost target))
  | .setNetworkMode mode, .idle => some (s, .checking (.setNetworkMode mode))
  | .replaceConfigState newState, .idle => some (s, .checking (.replaceConfigState newState))
  | .forceReload, .idle => some (s, .forcing)
  | .maybeReload (.error error), .checking op => some (s.failOp op error, .idle)
  | .maybeReload (.ok none), .checking op => some (s, .entering op)
  | .maybeReload (.ok (some newState)), .checking op => some (s, .reloading op newState)
  | .reloadNow (.error error), .forcing => some (s.answer (.done (.error error)), .idle)
  | .reloadNow (.ok newState), .forcing => some (s, .forceInstalling newState)
  | .step, t => s.step lib t
  | _, _ => none

/-- A proxy with no calls. -/
def started {ι : Type*} (state : ConfigState) : Config ι NetworkProxyState ProxyCall :=
  ⟨.withReloader state, fun _ => .idle⟩

end NetworkProxyState

end CodexRs.NetworkProxy
