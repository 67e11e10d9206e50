import CodexRs.Files.Path

/-!
# Configuration of the network proxy and its domain patterns

The same pattern may be listed several times; the strongest permission counts, in the place of the
first. Enforcement normalizes a pattern as it normalizes hosts. The comparison with managed
patterns has a parser of its own, which reads what a URL parser rejects as empty.
-/
namespace CodexRs.NetworkProxy
open Text Files

section

abbrev AnyhowError := List Str

inductive NetworkDomainPermission where
  | none
  | allow
  | deny
deriving DecidableEq

def NetworkDomainPermission.rank : NetworkDomainPermission → ℕ
  | .none => 0
  | .allow => 1
  | .deny => 2

structure NetworkDomainPermissionEntry where
  pattern : Str
  permission : NetworkDomainPermission
deriving DecidableEq

structure NetworkDomainPermissions where
  entries : List NetworkDomainPermissionEntry
deriving DecidableEq

namespace NetworkDomainPermissions

/-- An entry joins the effective ones: the stronger permission stays. -/
def effect (entry : NetworkDomainPermissionEntry) :
    List NetworkDomainPermissionEntry → List NetworkDomainPermissionEntry
  | [] => [entry]
  | other :: entries =>
    if other.pattern = entry.pattern then
      (if other.permission.rank < entry.permission.rank then entry else other) :: entries
    else other :: effect entry entries

def effectiveEntries (domains : NetworkDomainPermissions) : List NetworkDomainPermissionEntry :=
  domains.entries.foldl (fun entries entry => effect entry entries) []

end NetworkDomainPermissions

inductive NetworkUnixSocketPermission where
  | allow
  | none
deriving DecidableEq

/-- The paths in their order, each with its permission. -/
structure NetworkUnixSocketPermissions where
  entries : List (Str × NetworkUnixSocketPermission)
deriving DecidableEq

inductive NetworkMode where
  | limited
  | full
deriving DecidableEq

structure NetworkProxySettings where
  enabled : Bool
  proxyUrl : Str
  enableSocks5 : Bool
  socksUrl : Str
  enableSocks5Udp : Bool
  allowUpstreamProxy : Bool
  dangerouslyAllowNonLoopbackProxy : Bool
  dangerouslyAllowAllUnixSockets : Bool
  mode : NetworkMode
  domains : Option NetworkDomainPermissions
  unixSockets : Option NetworkUnixSocketPermissions
  allowLocalBinding : Bool
  mitm : Bool
deriving DecidableEq

namespace NetworkProxySettings

def default : NetworkProxySettings where
  enabled := false
  proxyUrl := "http://127.0.0.1:3128".toList
  enableSocks5 := true
  socksUrl := "http://127.0.0.1:8081".toList
  enableSocks5Udp := true
  allowUpstreamProxy := true
  dangerouslyAllowNonLoopbackProxy := false
  dangerouslyAllowAllUnixSockets := false
  mode := .full
  domains := none
  unixSockets := none
  allowLocalBinding := false
  mitm := false

variable (settings : NetworkProxySettings)

def domainEntries (permission : NetworkDomainPermission) : Option (List Str) :=
  (settings.domains.map fun domains =>
    (domains.effectiveEntries.filter (·.permission = permission)).map (·.pattern)).filter
      fun entries => !entries.isEmpty

def allowedDomains : Option (List Str) := settings.domainEntries .allow

def deniedDomains : Option (List Str) := settings.domainEntries .deny

def allowUnixSockets : List Str :=
  match settings.unixSockets with
  | none => []
  | some sockets => (sockets.entries.filter (·.2 = .allow)).map (·.1)

/-- Entries that are the same host once normalized make way for the new one. -/
def upsertDomainPermission (host : Str) (permission : NetworkDomainPermission)
    (normalize : Str → Str) : NetworkProxySettings :=
  let entries := (settings.domains.map (·.entries)).getD []
  let entries := entries.filter fun entry => normalize entry.pattern ≠ normalize host
  { settings with domains := some ⟨entries ++ [⟨host, permission⟩]⟩ }

end NetworkProxySettings

structure NetworkProxyConfig where
  network : NetworkProxySettings
deriving DecidableEq

/-- The domain or address that a URL parser reads in a host, and the quoted form of a text. -/
structure TextLib where
  parseUrlHost : Str → Option Str
  debugStr : Str → Str

variable (lib : TextLib)

/-- The quoted form of a list of texts. -/
def TextLib.debugList (texts : List Str) : Str :=
  '[' :: List.intercalate ", ".toList (texts.map lib.debugStr) ++ [']']

/-- Absolute paths start with a slash here, so the second form is not met. -/
inductive ValidatedUnixSocketPath where
  | native (path : AbsolutePathBuf)
  | unixStyleAbsolute (path : Str)

def ValidatedUnixSocketPath.parse (socketPath : Str) : Except AnyhowError ValidatedUnixSocketPath :=
  if startsWith socketPath ['/'] then .ok (.native (absolutizeFrom socketPath ⟨[], List.forall_mem_nil _⟩))
  else .error ["expected an absolute path, got ".toList ++ lib.debugStr socketPath]

/-- The paths from a place in the list on. -/
def validateUnixSocketPathsFrom (lib : TextLib) : ℕ → List Str → Except AnyhowError Unit
  | _, [] => .ok ()
  | index, path :: paths =>
    match ValidatedUnixSocketPath.parse lib path with
    | .ok _ => validateUnixSocketPathsFrom lib (index + 1) paths
    | .error error =>
      .error (("invalid network.allow_unix_sockets[".toList ++ (Nat.repr index).toList ++ [']'])
        :: error)

def validateUnixSocketAllowlistPaths (config : NetworkProxyConfig) : Except AnyhowError Unit :=
  validateUnixSocketPathsFrom lib 0 config.network.allowUnixSockets

end

section
variable (s : Str)

/-- A decimal octet, without zeros in front. -/
def isIpv4Octet : Bool :=
  s.length ≤ 3 && s.all Char.isDigit && (s = ['0'] || s.head?.any (· ≠ '0')) &&
    decide (s.foldl (fun n c => 10 * n + (c.toNat - '0'.toNat)) 0 ≤ 255)

def isIpv4Addr : Bool :=
  let octets := s.splitOn '.'
  octets.length = 4 && octets.all isIpv4Octet

def isHexDigit (c : Char) : Bool :=
  c.isDigit || ('a' ≤ c && c ≤ 'f') || ('A' ≤ c && c ≤ 'F')

def isIpv6Group : Bool := 1 ≤ s.length && s.length ≤ 4 && s.all isHexDigit

/-- How many groups the parts are; the last may be an IPv4 address, which is two. -/
def ipv6Groups : List Str → Option ℕ
  | [] => some 0
  | [part] => if isIpv6Group part then some 1 else if isIpv4Addr part then some 2 else none
  | part :: parts => if isIpv6Group part then (ipv6Groups parts).map (· + 1) else none

/-- The parts of one side of the double colon. -/
def ipv6Parts : List Str := if s = [] then [] else s.splitOn ':'

/-- The texts before and behind the first place where the delimiter stands. -/
def splitOnce (delimiter : Str) : Str → Option (Str × Str)
  | [] => if delimiter = [] then some ([], []) else none
  | c :: s =>
    match stripPrefix delimiter (c :: s) with
    | some rest => some ([], rest)
    | none => (splitOnce delimiter s).map fun parts => (c :: parts.1, parts.2)

def isIpv6Addr : Bool :=
  match splitOnce "::".toList s with
  | none => ipv6Groups (s.splitOn ':') = some 8
  | some (head, tail) =>
    (ipv6Parts head).all isIpv6Group &&
      (ipv6Groups (ipv6Parts tail)).any fun groups => (ipv6Parts head).length + groups ≤ 7

/-- Whether a text parses as an address, of either version. -/
def isIpAddr : Bool := isIpv4Addr s || isIpv6Addr s

end

def trimEndDots (s : Str) : Str := s.rdropWhile (· = '.')

/-- An address stays as it is, and one with a scope has it behind a single percent sign. -/
def normalizeIpLiteral (host : Str) : Option Str :=
  if isIpAddr host then some host
  else
    (["%25".toList, "%".toList].findSome? fun delimiter =>
      (splitOnce delimiter host).filter fun parts => isIpAddr parts.1).map fun parts =>
        parts.1 ++ '%' :: parts.2

def normalizeDnsHostOrIpLiteral (host : Str) : Str :=
  let host := trimEndDots (toAsciiLowercase host)
  (normalizeIpLiteral host).getD host

/-- Brackets and what follows them go, and so does a port behind the only colon. -/
def normalizeHost (host : Str) : Str :=
  let host := trim host
  match host with
  | '[' :: rest =>
    if ']' ∈ rest then normalizeDnsHostOrIpLiteral (rest.takeWhile (· ≠ ']'))
    else if host.count ':' = 1 then normalizeDnsHostOrIpLiteral (host.takeWhile (· ≠ ':'))
    else normalizeDnsHostOrIpLiteral host
  | _ =>
    if host.count ':' = 1 then normalizeDnsHostOrIpLiteral (host.takeWhile (· ≠ ':'))
    else normalizeDnsHostOrIpLiteral host

/-- `Host::parse`: the host is normalized and not empty. -/
def parseHost (input : Str) : Except AnyhowError Str :=
  let normalized := normalizeHost input
  if normalized = [] then .error ["host is empty".toList] else .ok normalized

def normalizePattern (pattern : Str) : Str :=
  let pattern := trim pattern
  if pattern = ['*'] then ['*']
  else match stripPrefix "**.".toList pattern with
    | some domain => "**.".toList ++ normalizeHost domain
    | none =>
      match stripPrefix "*.".toList pattern with
      | some domain => "*.".toList ++ normalizeHost domain
      | none => normalizeHost pattern

inductive DomainPattern where
  | apexAndSubdomains (domain : Str)
  | subdomainsOnly (domain : Str)
  | exact (domain : Str)
deriving DecidableEq

def normalizeDomain (domain : Str) : Str := toAsciiLowercase (trimEndDots domain)

def domainEq (left right : Str) : Bool := normalizeDomain left = normalizeDomain right

variable (child parent : Str)

/-- The text ends with the domain behind a dot. -/
def endsWithDomain : Bool := ('.' :: parent).isSuffixOf child

def isSubdomainOrEqual : Bool :=
  let child := normalizeDomain child
  let parent := normalizeDomain parent
  child = parent || endsWithDomain child parent

def isStrictSubdomain : Bool :=
  let child := normalizeDomain child
  let parent := normalizeDomain parent
  child ≠ parent && endsWithDomain child parent

/-- What is not an address or a domain is read as empty, unless it has a wildcard or a scope. -/
def parseDomainForConstraints (lib : TextLib) (domain : Str) : Str :=
  let domain := trimEndDots (trim domain)
  if domain = [] then []
  else
    let host :=
      if domain.head? = some '[' ∧ domain.getLast? = some ']' then domain.tail.dropLast else domain
    if '*' ∈ host ∨ '?' ∈ host ∨ '%' ∈ host then domain
    else (lib.parseUrlHost host).getD []

namespace DomainPattern

def parseDomain (domain : Str) (build : Str → DomainPattern) : DomainPattern :=
  let domain := trim domain
  if domain = [] then .exact [] else build domain

def parse (input : Str) : DomainPattern :=
  let input := trim input
  if input = [] then .exact []
  else match stripPrefix "**.".toList input with
    | some domain => parseDomain domain .apexAndSubdomains
    | none =>
      match stripPrefix "*.".toList input with
      | some domain => parseDomain domain .subdomainsOnly
      | none => .exact input

def parseForConstraints (lib : TextLib) (input : Str) : DomainPattern :=
  let input := trim input
  if input = [] then .exact []
  else match stripPrefix "**.".toList input with
    | some domain => .apexAndSubdomains (parseDomainForConstraints lib domain)
    | none =>
      match stripPrefix "*.".toList input with
      | some domain => .subdomainsOnly (parseDomainForConstraints lib domain)
      | none => .exact (parseDomainForConstraints lib input)

def allows : DomainPattern → DomainPattern → Bool
  | .exact domain, .exact candidate => domainEq candidate domain
  | .exact _, _ => false
  | .subdomainsOnly domain, .exact candidate => isStrictSubdomain candidate domain
  | .subdomainsOnly domain, .subdomainsOnly candidate => isSubdomainOrEqual candidate domain
  | .subdomainsOnly domain, .apexAndSubdomains candidate => isStrictSubdomain candidate domain
  | .apexAndSubdomains domain, .exact candidate => isSubdomainOrEqual candidate domain
  | .apexAndSubdomains domain, .subdomainsOnly candidate => isSubdomainOrEqual candidate domain
  | .apexAndSubdomains domain, .apexAndSubdomains candidate => isSubdomainOrEqual candidate domain

/-- The globs that stand for a pattern. -/
def expand : DomainPattern → List Str
  | .exact domain => [domain]
  | .subdomainsOnly domain => ["?*.".toList ++ domain]
  | .apexAndSubdomains domain => [domain, "?*.".toList ++ domain]

end DomainPattern

def expandDomainPattern (pattern : Str) : List Str := (DomainPattern.parse pattern).expand

def isGlobalWildcardDomainPattern (pattern : Str) : Bool :=
  ['*'] ∈ expandDomainPattern (normalizePattern pattern)

/-- Whether patterns can be built, and whether one matches a text without regard to case. -/
structure GlobLib where
  globError : Str → Option Str
  globSetError : List Str → Option Str
  globMatches : Str → Str → Bool

abbrev GlobSet := List Str

variable (lib : GlobLib)

def GlobLib.isMatch (set : GlobSet) (host : Str) : Bool :=
  set.any fun pattern => lib.globMatches pattern host

inductive GlobalWildcard where
  | allow
  | reject
deriving DecidableEq

/-- A pattern that was added before is not added again. -/
def addGlobs (lib : GlobLib) : List Str → GlobSet → Except AnyhowError GlobSet
  | [], set => .ok set
  | candidate :: candidates, set =>
    if candidate ∈ set then addGlobs lib candidates set
    else match lib.globError candidate with
      | some error => .error ["invalid glob pattern: ".toList ++ candidate, error]
      | none => addGlobs lib candidates (set ++ [candidate])

def compilePatterns (lib : GlobLib) (globalWildcard : GlobalWildcard) :
    List Str → GlobSet → Except AnyhowError GlobSet
  | [], set => .ok set
  | pattern :: patterns, set =>
    if globalWildcard = .reject ∧ isGlobalWildcardDomainPattern pattern then
      .error [("unsupported global wildcard domain pattern \"*\"; use exact hosts or scoped " ++
        "wildcards like *.example.com or **.example.com").toList]
    else match addGlobs lib (expandDomainPattern (normalizePattern pattern)) set with
      | .error error => .error error
      | .ok set => compilePatterns lib globalWildcard patterns set

variable (patterns : List Str)

def compileGlobsetWithPolicy (globalWildcard : GlobalWildcard) : Except AnyhowError GlobSet :=
  match compilePatterns lib globalWildcard patterns [] with
  | .error error => .error error
  | .ok set =>
    match lib.globSetError set with
    | some error => .error [error]
    | none => .ok set

def compileAllowlistGlobset : Except AnyhowError GlobSet :=
  compileGlobsetWithPolicy lib patterns .allow

def compileDenylistGlobset : Except AnyhowError GlobSet :=
  compileGlobsetWithPolicy lib patterns .reject

end CodexRs.NetworkProxy
