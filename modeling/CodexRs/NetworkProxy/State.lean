import CodexRs.NetworkProxy.Policy

/-!
# Managed constraints

A configuration is checked against the constraints that are managed for it, one field after
another, and the state of the proxy is built from it.
-/
namespace CodexRs.NetworkProxy
open Text

structure NetworkProxyConstraints where
  enabled : Option Bool
  mode : Option NetworkMode
  allowUpstreamProxy : Option Bool
  dangerouslyAllowNonLoopbackProxy : Option Bool
  dangerouslyAllowAllUnixSockets : Option Bool
  allowedDomains : Option (List Str)
  allowlistExpansionEnabled : Option Bool
  deniedDomains : Option (List Str)
  denylistExpansionEnabled : Option Bool
  allowUnixSockets : Option (List Str)
  allowLocalBinding : Option Bool
deriving DecidableEq

def NetworkProxyConstraints.default : NetworkProxyConstraints :=
  ⟨none, none, none, none, none, none, none, none, none, none, none⟩

inductive NetworkProxyConstraintError where
  | invalidValue (fieldName candidate allowed : Str)
deriving DecidableEq

namespace NetworkProxyConstraintError

def display : NetworkProxyConstraintError → Str
  | .invalidValue fieldName candidate allowed =>
    "invalid value for ".toList ++ fieldName ++ ": ".toList ++ candidate ++
      " (allowed ".toList ++ allowed ++ [')']

def intoAnyhow (error : NetworkProxyConstraintError) : AnyhowError := [error.display]

end NetworkProxyConstraintError

abbrev Validation := Except NetworkProxyConstraintError Unit

/-- Checks are made one after another up to the first that fails. -/
def firstError : List Validation → Validation
  | [] => .ok ()
  | .ok () :: checks => firstError checks
  | .error error :: _ => .error error

theorem firstError_eq_ok {checks : List Validation} :
    firstError checks = .ok () ↔ ∀ check ∈ checks, check = .ok () := by
  induction checks with
  | nil => simp [firstError]
  | cons check checks ih =>
    cases check with
    | ok _ => simp [firstError, ih]
    | error error => simp [firstError]

def networkModeRank : NetworkMode → ℕ
  | .limited => 0
  | .full => 1

def debugMode : NetworkMode → Str
  | .limited => "Limited".toList
  | .full => "Full".toList

/-- A switch that the constraints turn off must be off. -/
def validateSwitch (fieldName : String) (allowed : Option Bool) (candidate : Bool) : Validation :=
  if candidate ∧ allowed = some false then
    .error (.invalidValue fieldName.toList "true".toList
      "false (disabled by managed config)".toList)
  else .ok ()

def validateMode (maxMode : Option NetworkMode) (candidate : NetworkMode) : Validation :=
  match maxMode with
  | none => .ok ()
  | some maxMode =>
    if networkModeRank maxMode < networkModeRank candidate then
      .error (.invalidValue "network.mode".toList (debugMode candidate)
        (debugMode maxMode ++ " or more restrictive".toList))
    else .ok ()

def validateNonGlobalWildcardDomainPatterns (fieldName : String) (patterns : List Str) :
    Validation :=
  match patterns.find? isGlobalWildcardDomainPattern with
  | some pattern =>
    .error (.invalidValue fieldName.toList (trim pattern)
      "exact hosts or scoped wildcards like *.example.com or **.example.com".toList)
  | none => .ok ()

/-- The entries without regard to case; they are compared as sets. -/
def lowercaseSet (entries : List Str) : List Str := (entries.map toAsciiLowercase).dedup

def sameSet (left right : List Str) : Bool :=
  left.all (· ∈ right) && right.all (· ∈ left)

variable (lib : TextLib)

/-- The entries that are required and not there. -/
def validateMissing (fieldName candidate : String) (missing : List Str) : Validation :=
  if missing = [] then .ok ()
  else .error (.invalidValue fieldName.toList candidate.toList (lib.debugList missing))

variable (managed denied candidate : List Str)

/-- The managed domains are there, but for those that are denied. -/
def validateExpandedAllowlist : Validation :=
  validateMissing lib "network.allowed_domains" "missing managed allowed_domains entries"
    ((lowercaseSet managed).filter fun entry =>
      entry ∉ lowercaseSet candidate ∧ entry ∉ lowercaseSet denied)

/-- The allowed domains are the managed ones, but for those that are denied. -/
def validateFixedAllowlist : Validation :=
  if sameSet (lowercaseSet candidate)
      ((lowercaseSet managed).filter fun entry => entry ∉ lowercaseSet denied) then .ok ()
  else .error (.invalidValue "network.allowed_domains".toList (lib.debugList candidate)
    "must match managed allowed_domains".toList)

/-- Some managed pattern allows the entry. -/
def isManaged (managed : List Str) (entry : Str) : Bool :=
  managed.any fun pattern =>
    (DomainPattern.parseForConstraints lib pattern).allows
      (DomainPattern.parseForConstraints lib entry)

def validateAllowlist (managed candidate : List Str) : Validation :=
  let invalid := candidate.filter fun entry => !isManaged lib managed entry
  if invalid = [] then .ok ()
  else .error (.invalidValue "network.allowed_domains".toList (lib.debugList invalid)
    "subset of managed allowed_domains".toList)

variable (constraints : NetworkProxyConstraints)

def validateAllowedDomains (denied candidate : List Str) : Validation :=
  match constraints.allowedDomains with
  | none => .ok ()
  | some managed =>
    firstError
      [validateNonGlobalWildcardDomainPatterns "network.allowed_domains" managed,
       match constraints.allowlistExpansionEnabled with
       | some true => validateExpandedAllowlist lib managed denied candidate
       | some false => validateFixedAllowlist lib managed denied candidate
       | none => validateAllowlist lib managed candidate]

def validateDeniedDomains (candidate : List Str) : Validation :=
  match constraints.deniedDomains with
  | none => .ok ()
  | some managed =>
    firstError
      [validateNonGlobalWildcardDomainPatterns "network.denied_domains" managed,
       if constraints.denylistExpansionEnabled = some false then
         if sameSet (lowercaseSet candidate) (lowercaseSet managed) then .ok ()
         else .error (.invalidValue "network.denied_domains".toList (lib.debugList candidate)
           "must match managed denied_domains".toList)
       else
         validateMissing lib "network.denied_domains" "missing managed denied_domains entries"
           ((lowercaseSet managed).filter (· ∉ lowercaseSet candidate))]

def validateAllowUnixSockets (managed : Option (List Str)) (candidate : List Str) : Validation :=
  match managed with
  | none => .ok ()
  | some managed =>
    let invalid := candidate.filter fun entry => toAsciiLowercase entry ∉ lowercaseSet managed
    if invalid = [] then .ok ()
    else .error (.invalidValue "network.allow_unix_sockets".toList (lib.debugList invalid)
      "subset of managed allow_unix_sockets".toList)

def validatePolicyAgainstConstraints (config : NetworkProxyConfig)
    (constraints : NetworkProxyConstraints) : Validation :=
  let network := config.network
  let allowedDomains := network.allowedDomains.getD []
  let deniedDomains := network.deniedDomains.getD []
  let allowAllUnixSockets :=
    constraints.dangerouslyAllowAllUnixSockets.getD constraints.allowUnixSockets.isNone
  firstError
    [validateNonGlobalWildcardDomainPatterns "network.denied_domains" deniedDomains,
     validateSwitch "network.enabled" constraints.enabled network.enabled,
     validateMode constraints.mode network.mode,
     validateSwitch "network.allow_upstream_proxy" constraints.allowUpstreamProxy
       network.allowUpstreamProxy,
     validateSwitch "network.dangerously_allow_non_loopback_proxy"
       constraints.dangerouslyAllowNonLoopbackProxy network.dangerouslyAllowNonLoopbackProxy,
     validateSwitch "network.dangerously_allow_all_unix_sockets" (some allowAllUnixSockets)
       network.dangerouslyAllowAllUnixSockets,
     validateSwitch "network.allow_local_binding" constraints.allowLocalBinding
       network.allowLocalBinding,
     validateAllowedDomains lib constraints deniedDomains allowedDomains,
     validateDeniedDomains lib constraints deniedDomains,
     validateAllowUnixSockets lib constraints.allowUnixSockets network.allowUnixSockets]

structure MitmUpstreamConfig where
  allowUpstreamProxy : Bool
  allowLocalBinding : Bool
deriving DecidableEq

structure BlockedRequest where
  host : Str
  reason : Str
  client : Option Str
  method : Option Str
  mode : Option NetworkMode
  protocol : Str
  decision : Option Str
  source : Option Str
  port : Option UInt16
  timestamp : ℤ
deriving DecidableEq

/-- A state for the interception of requests is known by what it was made from. -/
structure ConfigState where
  config : NetworkProxyConfig
  allowSet : GlobSet
  denySet : GlobSet
  mitm : Option MitmUpstreamConfig
  constraints : NetworkProxyConstraints
  blocked : List BlockedRequest
  blockedTotal : ℕ
deriving DecidableEq

/-- What the code asks of other libraries. -/
structure ProxyLib extends TextLib, GlobLib where
  mitmError : MitmUpstreamConfig → Option Str

/-- Libraries that accept everything and take every pattern literally. -/
def ProxyLib.literal : ProxyLib where
  parseUrlHost := some
  debugStr text := '"' :: text ++ ['"']
  globError _ := none
  globSetError _ := none
  globMatches pattern text := decide (toAsciiLowercase pattern = toAsciiLowercase text)
  mitmError _ := none

def buildMitm (lib : ProxyLib) (network : NetworkProxySettings) :
    Except AnyhowError (Option MitmUpstreamConfig) :=
  if network.mitm then
    let upstream := ⟨network.allowUpstreamProxy, network.allowLocalBinding⟩
    match lib.mitmError upstream with
    | some error => .error [error]
    | none => .ok (some upstream)
  else .ok none

def buildConfigState (lib : ProxyLib) (config : NetworkProxyConfig)
    (constraints : NetworkProxyConstraints) : Except AnyhowError ConfigState := do
  validateUnixSocketAllowlistPaths lib.toTextLib config
  let allowedDomains := config.network.allowedDomains.getD []
  let deniedDomains := config.network.deniedDomains.getD []
  (validateNonGlobalWildcardDomainPatterns "network.denied_domains" deniedDomains).mapError
    NetworkProxyConstraintError.intoAnyhow
  let denySet ← compileDenylistGlobset lib.toGlobLib deniedDomains
  let allowSet ← compileAllowlistGlobset lib.toGlobLib allowedDomains
  let mitm ← buildMitm lib config.network
  .ok ⟨config, allowSet, denySet, mitm, constraints, [], 0⟩

end CodexRs.NetworkProxy
