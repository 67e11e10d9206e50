import CodexRs.Library.Base64
import CodexRs.Library.FreshName

/-!
# Names of tools for the model

For the model each tool gets a namespace and a name of a restricted alphabet, with digits of a
hash where needed.
-/
namespace CodexRs.CodexMcp
open Text Base64 FreshName

structure ToolInfo where
  serverName : Str
  callableNamespace : Str
  callableName : Str
  connectorId : Option Str
  /-- The name of the tool in its raw definition. -/
  toolName : Str

/-- Letters, digits and the underscore stay, everything else becomes an underscore. -/
def isLegal (c : Char) : Bool := c.isAlphanum || c = '_'

def sanitizeResponsesApiToolName (name : Str) : Str :=
  let sanitized := name.map fun c => if isLegal c then c else '_'
  if sanitized = [] then ['_'] else sanitized

def nul : Char := Char.ofNat 0

namespace ToolInfo
variable (tool : ToolInfo)

def rawNamespaceIdentity : Str :=
  tool.serverName ++ nul :: tool.callableNamespace ++ nul :: tool.connectorId.getD []

def rawToolIdentity : Str :=
  tool.rawNamespaceIdentity ++ nul :: tool.callableName ++ nul :: tool.toolName

end ToolInfo

structure CallableToolCandidate where
  tool : ToolInfo
  rawNamespaceIdentity : Str
  rawToolIdentity : Str
  callableNamespace : Str
  callableName : Str

def mcpToolNameDelimiter : Str := "__".toList
def maxToolNameLength : ℕ := 64
def callableNameHashLen : ℕ := 12

section

def candidateOf (tool : ToolInfo) : CallableToolCandidate where
  tool := tool
  rawNamespaceIdentity := tool.rawNamespaceIdentity
  rawToolIdentity := tool.rawToolIdentity
  callableNamespace := sanitizeResponsesApiToolName tool.callableNamespace
  callableName := sanitizeResponsesApiToolName tool.callableName

/-- The candidates, without those whose identity has been seen. -/
def collectCandidates : List Str → List ToolInfo → List CallableToolCandidate
  | _, [] => []
  | seenRawNames, tool :: tools =>
    if tool.rawToolIdentity ∈ seenRawNames then collectCandidates seenRawNames tools
    else candidateOf tool :: collectCandidates (tool.rawToolIdentity :: seenRawNames) tools

variable (candidates : List CallableToolCandidate)

/-- Several namespaces became this one. -/
def collidingNamespace (ns : Str) : Bool :=
  1 < ((candidates.filter (·.callableNamespace = ns)).map (·.rawNamespaceIdentity)).dedup.length

/-- Several tools became this one. -/
def collidingTool (ns name : Str) : Bool :=
  1 < ((candidates.filter fun candidate =>
    candidate.callableNamespace = ns ∧ candidate.callableName = name).map
      (·.rawToolIdentity)).dedup.length

end

variable (sha1Hex : Str → Str)

section

def callableNameHashSuffix (rawIdentity : Str) : Str :=
  '_' :: (sha1Hex rawIdentity).take callableNameHashLen

def appendHashSuffix (value rawIdentity : Str) : Str :=
  value ++ callableNameHashSuffix sha1Hex rawIdentity

/-- The digits stand in front of a delimiter at the end. -/
def appendNamespaceHashSuffix (ns rawIdentity : Str) : Str :=
  if mcpToolNameDelimiter <:+ ns then
    ns.take (ns.length - mcpToolNameDelimiter.length) ++
      callableNameHashSuffix sha1Hex rawIdentity ++ mcpToolNameDelimiter
  else appendHashSuffix sha1Hex ns rawIdentity

variable (candidates : List CallableToolCandidate)

def hashCollidingNamespaces : List CallableToolCandidate :=
  candidates.map fun candidate =>
    if collidingNamespace candidates candidate.callableNamespace then
      { candidate with
        callableNamespace :=
          appendNamespaceHashSuffix sha1Hex candidate.callableNamespace
            candidate.rawNamespaceIdentity }
    else candidate

def hashCollidingTools : List CallableToolCandidate :=
  candidates.map fun candidate =>
    if collidingTool candidates candidate.callableNamespace candidate.callableName then
      { candidate with
        callableName :=
          appendHashSuffix sha1Hex candidate.callableName candidate.rawToolIdentity }
    else candidate

end

section

def truncateName (value : Str) (maxLen : ℕ) : Str := value.take maxLen

/-- The name is cut to make room for the digits, or the namespace if it leaves too little. -/
def fitCallablePartsWithHash (ns toolName rawIdentity : Str) : Str × Str :=
  let suffix := callableNameHashSuffix sha1Hex rawIdentity
  let maxToolLen := maxToolNameLength - utf8Length ns
  if utf8Length suffix ≤ maxToolLen then
    (ns, truncateName toolName (maxToolLen - utf8Length suffix) ++ suffix)
  else (truncateName ns (maxToolNameLength - utf8Length suffix), suffix)

/-- What is hashed in an attempt. -/
def hashInput (rawIdentity : Str) (attempt : ℕ) : Str :=
  if attempt = 0 then rawIdentity else rawIdentity ++ nul :: (Nat.repr attempt).toList

variable (candidate : CallableToolCandidate)

def attemptParts (attempt : ℕ) : Str × Str :=
  fitCallablePartsWithHash sha1Hex candidate.callableNamespace candidate.callableName
    (hashInput candidate.rawToolIdentity attempt)

def qualifiedName (parts : Str × Str) : Str := parts.1 ++ parts.2

/-- The parts as they are can be used. -/
def fitsUnchanged (usedNames : List Str) : Bool :=
  let qualified := qualifiedName (candidate.callableNamespace, candidate.callableName)
  utf8Length qualified ≤ maxToolNameLength && qualified ∉ usedNames

/-- The source bounds the attempts, by more than any list of fewer tools can need. -/
def uniqueCallableParts (fuel : ℕ) (candidate : CallableToolCandidate) (usedNames : List Str) :
    Option (Str × Str) :=
  if fitsUnchanged candidate usedNames then
    some (candidate.callableNamespace, candidate.callableName)
  else
    (firstFresh (fun attempt => qualifiedName (attemptParts sha1Hex candidate attempt)) usedNames
      fuel 0).map (attemptParts sha1Hex candidate)

end

abbrev ToolMap := AList fun _ : Str => ToolInfo

/-- The tool under the names it gets. -/
def renamed (tool : ToolInfo) (parts : Str × Str) : ToolInfo :=
  { tool with callableNamespace := parts.1, callableName := parts.2 }

def nameAll (fuel : ℕ) : List CallableToolCandidate → List Str → ToolMap → Option ToolMap
  | [], _, qualifiedTools => some qualifiedTools
  | candidate :: candidates, usedNames, qualifiedTools =>
    (uniqueCallableParts sha1Hex fuel candidate usedNames).bind fun parts =>
      nameAll fuel candidates (qualifiedName parts :: usedNames)
        (qualifiedTools.insert (qualifiedName parts) (renamed candidate.tool parts))

/-- The candidates in the order in which they are named. -/
def orderedCandidates (tools : List ToolInfo) : List CallableToolCandidate :=
  (hashCollidingTools sha1Hex
    (hashCollidingNamespaces sha1Hex (collectCandidates [] tools))).insertionSort
      fun left right => left.rawToolIdentity ≤ right.rawToolIdentity

/-- `fuel` bounds the attempts for each tool; nothing is returned if it is too small for one. -/
def qualifyTools (fuel : ℕ) (tools : List ToolInfo) : Option ToolMap :=
  nameAll sha1Hex fuel (orderedCandidates sha1Hex tools) [] ∅

/-- What is hashed while the candidates are named. -/
def hashedWhileNaming (fuel : ℕ) : List CallableToolCandidate → List Str → List Str
  | [], _ => []
  | candidate :: candidates, usedNames =>
    (if fitsUnchanged candidate usedNames then []
      else (tried (fun attempt => qualifiedName (attemptParts sha1Hex candidate attempt)) usedNames
        fuel 0).map (hashInput candidate.rawToolIdentity)) ++
      match uniqueCallableParts sha1Hex fuel candidate usedNames with
      | none => []
      | some parts => hashedWhileNaming fuel candidates (qualifiedName parts :: usedNames)

/-- Everything that is hashed for the tools. -/
def hashedStrings (fuel : ℕ) (tools : List ToolInfo) : List Str :=
  let candidates := collectCandidates [] tools
  let inNamespaces := hashCollidingNamespaces sha1Hex candidates
  (candidates.filter (collidingNamespace candidates ·.callableNamespace)).map
      (·.rawNamespaceIdentity) ++
    (inNamespaces.filter fun candidate =>
      collidingTool inNamespaces candidate.callableNamespace candidate.callableName).map
        (·.rawToolIdentity) ++
    hashedWhileNaming sha1Hex fuel (orderedCandidates sha1Hex tools) []

end CodexRs.CodexMcp
