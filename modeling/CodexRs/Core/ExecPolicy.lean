import CodexRs.ExecPolicy.Policy
import CodexRs.Protocol.Permissions
import CodexRs.ShellCommand.Disjoint

/-!
# Whether a command needs approval

Commands that no rule matches are left to the classifiers, the approval policy and the sandbox.
-/
namespace CodexRs.Core
open Text Files Protocol ExecPolicy ShellCommand

structure GranularApprovalConfig where
  sandboxApproval : Bool
  rules : Bool
  deriving DecidableEq

inductive AskForApproval where
  | unlessTrusted
  | onFailure
  | onRequest
  | granular (config : GranularApprovalConfig)
  | never
  deriving DecidableEq

/-- The kinds of permission profiles, without the permissions of a managed one. -/
inductive PermissionProfile where
  | managed
  | disabled
  | external
  deriving DecidableEq

inductive SandboxPermissions where
  | useDefault
  | requireEscalated
  | withAdditionalPermissions
  deriving DecidableEq

def SandboxPermissions.requestsSandboxOverride (permissions : SandboxPermissions) : Bool :=
  permissions ≠ .useDefault

/-- The words a command is to begin with to be allowed from now on. -/
abbrev ExecPolicyAmendment := List Str

inductive ExecApprovalRequirement where
  | skip (bypassSandbox : Bool) (proposedExecpolicyAmendment : Option ExecPolicyAmendment)
  | needsApproval (reason : Option Str) (proposedExecpolicyAmendment : Option ExecPolicyAmendment)
  | forbidden (reason : Str)
  deriving DecidableEq

structure ExecApprovalRequest where
  command : List Str
  approvalPolicy : AskForApproval
  permissionProfile : PermissionProfile
  fileSystemSandboxPolicy : FileSystemSandboxPolicy
  sandboxPermissions : SandboxPermissions
  prefixRule : Option (List Str)

/-- The disk, the parsers of scripts, and the quoting of words into a line. -/
structure ExecEnv where
  host : Host
  shell : Shell
  shlexTryJoin : List Str → Option Str

structure ExecPolicyCommands where
  commands : List (List Str)
  usedComplexParsing : Bool

def isPolicyMatch : RuleMatch → Bool
  | .prefixRuleMatch .. => true
  | .heuristicsRuleMatch .. => false

def isPolicyMatchWith (decision : Decision) (ruleMatch : RuleMatch) : Bool :=
  isPolicyMatch ruleMatch && ruleMatch.decision = decision

def commandsForExecPolicy (shell : Shell) (command : List Str) : ExecPolicyCommands :=
  match (parseShellLcPlainCommands shell command).filter (· ≠ []) with
  | some commands => ⟨commands, false⟩
  | none =>
    match parseShellLcSingleCommandPrefix shell command with
    | some singleCommand => ⟨[singleCommand], true⟩
    | none => ⟨[command], false⟩

/-- What a command that no rule matches is given in a sandbox of this kind. -/
def decisionInSandbox (kind : FileSystemSandboxKind) (permissions : SandboxPermissions) : Decision :=
  match kind with
  | .unrestricted | .externalSandbox => .allow
  | .restricted => if permissions.requestsSandboxOverride then .prompt else .allow

def renderDecisionForUnmatchedCommand (shell : Shell) (request : ExecApprovalRequest)
    (usedComplexParsing : Bool) (command : List Str) : Decision :=
  if isKnownSafeCommand shell command && !usedComplexParsing then .allow
  else if commandMightBeDangerous shell command then
    match request.approvalPolicy with
    | .never =>
      if request.permissionProfile = .disabled ∨ request.permissionProfile = .external then .allow
      else .forbidden
    | .onFailure | .onRequest | .unlessTrusted | .granular _ => .prompt
  else
    match request.approvalPolicy with
    | .never | .onFailure => .allow
    | .unlessTrusted => .prompt
    | .onRequest | .granular _ =>
      decisionInSandbox request.fileSystemSandboxPolicy.kind request.sandboxPermissions

section

def promptConflictReason : Str :=
  "approval required by policy, but AskForApproval is set to Never".toList

def rejectSandboxApprovalReason : Str :=
  "approval required by policy, but AskForApproval::Granular.sandbox_approval is false".toList

def rejectRulesApprovalReason : Str :=
  "approval required by policy rule, but AskForApproval::Granular.rules is false".toList

/-- Why the user may not be asked, if they may not. -/
def promptIsRejectedByPolicy (approvalPolicy : AskForApproval) (promptIsRule : Bool) : Option Str :=
  match approvalPolicy with
  | .never => some promptConflictReason
  | .onFailure | .onRequest | .unlessTrusted => none
  | .granular config =>
    if promptIsRule then if !config.rules then some rejectRulesApprovalReason else none
    else if !config.sandboxApproval then some rejectSandboxApprovalReason
    else none

variable (env : ExecEnv)

def renderShlexCommand (args : List Str) : Str :=
  (env.shlexTryJoin args).getD (List.intercalate [' '] args)

/-- The longest prefix that a rule with the decision matched, and what justifies that rule; of
several the last. -/
def mostSpecific (decision : Decision) (matchedRules : List RuleMatch) :
    Option (List Str × Option Str) :=
  matchedRules.foldl
    (fun best ruleMatch =>
      match ruleMatch with
      | .heuristicsRuleMatch .. => best
      | .prefixRuleMatch matchedPrefix decision' _ justification =>
        if decision' = decision ∧ best.all (·.1.length ≤ matchedPrefix.length) then
          some (matchedPrefix, justification)
        else best)
    none

variable (commandArgs : List Str) (evaluation : Evaluation)

def derivePromptReason : Option Str :=
  let command := renderShlexCommand env commandArgs
  (mostSpecific .prompt evaluation.matchedRules).map fun best =>
    match best.2 with
    | some justification => '`' :: command ++ "` requires approval: ".toList ++ justification
    | none => '`' :: command ++ "` requires approval by policy".toList

def deriveForbiddenReason : Str :=
  let command := renderShlexCommand env commandArgs
  match mostSpecific .forbidden evaluation.matchedRules with
  | some (_, some justification) => '`' :: command ++ "` rejected: ".toList ++ justification
  | some (matchedPrefix, none) =>
    '`' :: command ++ "` rejected: policy forbids commands starting with `".toList ++
      renderShlexCommand env matchedPrefix ++ "`".toList
  | none => '`' :: command ++ "` rejected: blocked by policy".toList

end

section

def bannedPrefixSuggestions : List (List Str) :=
  ([["python3"], ["python3", "-"], ["python3", "-c"], ["python"], ["python", "-"],
    ["python", "-c"], ["py"], ["py", "-3"], ["pythonw"], ["pyw"], ["pypy"], ["pypy3"], ["git"],
    ["bash"], ["bash", "-lc"], ["sh"], ["sh", "-c"], ["sh", "-lc"], ["zsh"], ["zsh", "-lc"],
    ["/bin/zsh"], ["/bin/zsh", "-lc"], ["/bin/bash"], ["/bin/bash", "-lc"], ["pwsh"],
    ["pwsh", "-Command"], ["pwsh", "-c"], ["powershell"], ["powershell", "-Command"],
    ["powershell", "-c"], ["powershell.exe"], ["powershell.exe", "-Command"],
    ["powershell.exe", "-c"], ["env"], ["sudo"], ["node"], ["node", "-e"], ["perl"],
    ["perl", "-e"], ["ruby"], ["ruby", "-e"], ["php"], ["php", "-r"], ["lua"], ["lua", "-e"],
    ["osascript"]] : List (List String)).map texts

def firstHeuristicsMatch (decision : Decision) (matchedRules : List RuleMatch) :
    Option ExecPolicyAmendment :=
  matchedRules.findSome? fun ruleMatch =>
    match ruleMatch with
    | .heuristicsRuleMatch command decision' => if decision' = decision then some command else none
    | .prefixRuleMatch .. => none

variable (matchedRules : List RuleMatch)

def tryDeriveExecpolicyAmendmentForPromptRules : Option ExecPolicyAmendment :=
  if matchedRules.any (isPolicyMatchWith .prompt) then none
  else firstHeuristicsMatch .prompt matchedRules

def tryDeriveExecpolicyAmendmentForAllowRules : Option ExecPolicyAmendment :=
  if matchedRules.any isPolicyMatch then none else firstHeuristicsMatch .allow matchedRules

variable (env : ExecEnv) (policy : Policy)

def prefixRuleWouldApproveAllCommands (prefixRule : List Str) (commands : List (List Str))
    (fallback : List Str → Decision) (options : MatchOptions) : Bool :=
  match policy.addPrefixRule prefixRule .allow with
  | none => false
  | some policyWithPrefixRule =>
    commands.all fun command =>
      (policyWithPrefixRule.checkWithOptions env.host command fallback options).any
        (·.decision = .allow)

def deriveRequestedExecpolicyAmendmentFromPrefixRule (prefixRule : Option (List Str))
    (matchedRules : List RuleMatch) (commands : List (List Str)) (fallback : List Str → Decision)
    (options : MatchOptions) : Option ExecPolicyAmendment :=
  match prefixRule with
  | none => none
  | some prefixRule =>
    if prefixRule = [] then none
    else if bannedPrefixSuggestions.contains prefixRule then none
    else if matchedRules.any isPolicyMatch then none
    else if prefixRuleWouldApproveAllCommands env policy prefixRule commands fallback options then
      some prefixRule
    else none

end

variable (env : ExecEnv) (policy : Policy) (request : ExecApprovalRequest)

def matchOptions : MatchOptions := ⟨true⟩

/-- Every command is allowed by a rule and not only by the classifiers. -/
def allowedByRules (commands : List (List Str)) : Bool :=
  commands.all fun command =>
    (policy.matchesForCommandWithOptions env.host command none matchOptions).any
      (isPolicyMatchWith .allow)

/-- The requirement that follows from an evaluation of the commands. -/
def requirementFor (parsed : ExecPolicyCommands) (evaluation : Evaluation) :
    ExecApprovalRequirement :=
  let fallback := renderDecisionForUnmatchedCommand env.shell request parsed.usedComplexParsing
  let autoAmendmentAllowed := !parsed.usedComplexParsing
  let requestedAmendment :=
    if autoAmendmentAllowed then
      deriveRequestedExecpolicyAmendmentFromPrefixRule env policy request.prefixRule
        evaluation.matchedRules parsed.commands fallback matchOptions
    else none
  match evaluation.decision with
  | .forbidden => .forbidden (deriveForbiddenReason env request.command evaluation)
  | .prompt =>
    let promptIsRule := evaluation.matchedRules.any (isPolicyMatchWith .prompt)
    match promptIsRejectedByPolicy request.approvalPolicy promptIsRule with
    | some reason => .forbidden reason
    | none =>
      .needsApproval (derivePromptReason env request.command evaluation)
        (requestedAmendment.or
          (if autoAmendmentAllowed then
            tryDeriveExecpolicyAmendmentForPromptRules evaluation.matchedRules
          else none))
  | .allow =>
    .skip (allowedByRules env policy parsed.commands)
      (if autoAmendmentAllowed then
        tryDeriveExecpolicyAmendmentForAllowRules evaluation.matchedRules
      else none)

/-- Nothing is returned only if there is nothing to evaluate, which would be a panic. -/
def createExecApprovalRequirementForCommand : Option ExecApprovalRequirement :=
  let parsed := commandsForExecPolicy env.shell request.command
  (policy.checkMultipleWithOptions env.host parsed.commands
    (renderDecisionForUnmatchedCommand env.shell request parsed.usedComplexParsing)
    matchOptions).map (requirementFor env policy request parsed)

theorem commandsForExecPolicy_ne_nil (shell : Shell) (command : List Str) :
    (commandsForExecPolicy shell command).commands ≠ [] := by
  unfold commandsForExecPolicy
  split
  · rename_i commands hcommands
    simpa using (Option.filter_eq_some_iff.mp hcommands).2
  · split <;> simp

theorem createExecApprovalRequirementForCommand_isSome :
    (createExecApprovalRequirementForCommand env policy request).isSome = true := by
  unfold createExecApprovalRequirementForCommand
  rw [Option.isSome_map]
  exact checkMultiple_isSome (commandsForExecPolicy_ne_nil env.shell request.command) _

/-- A request is not asked about exactly if, for every segment, all that decides about it allows
it. -/
theorem skipped_iff_segments_allowed :
    (∃ bypass amendment, createExecApprovalRequirementForCommand env policy request =
        some (.skip bypass amendment)) ↔
      ∀ segment ∈ (commandsForExecPolicy env.shell request.command).commands,
        ∀ ruleMatch ∈ policy.matchesForCommandWithOptions env.host segment
          (some (renderDecisionForUnmatchedCommand env.shell request
            (commandsForExecPolicy env.shell request.command).usedComplexParsing))
          matchOptions, ruleMatch.decision = .allow := by
  obtain ⟨requirement, hrequirement⟩ := Option.isSome_iff_exists.mp
    (createExecApprovalRequirementForCommand_isSome env policy request)
  obtain ⟨evaluation, heval, rfl⟩ := Option.map_eq_some_iff.mp hrequirement
  obtain ⟨decision, hmax, rfl⟩ := Option.map_eq_some_iff.mp heval
  have hle (decision : Decision) := (Decision.allow_le decision).ge_iff_eq'
  -- the strictest decision is to allow exactly if all of them are
  have hall := List.max?_le_iff hmax (x := Decision.allow)
  rw [List.forall_mem_map, List.forall_mem_flatMap] at hall
  simp only [hle] at hall
  rw [hrequirement, ← hall]
  unfold requirementFor
  cases decision <;> simp
  split <;> simp

section
variable {env policy request}

/-- The sandbox was switched off and so were the questions. -/
def RunsUnasked (request : ExecApprovalRequest) : Prop :=
  request.approvalPolicy = .never ∧
    (request.permissionProfile = .disabled ∨ request.permissionProfile = .external)

instance (request : ExecApprovalRequest) : Decidable (RunsUnasked request) :=
  inferInstanceAs (Decidable (_ ∧ _))

theorem renderDecision_of_dangerous (hagree : ScriptsAgree env.shell) {command : List Str}
    (hdangerous : commandMightBeDangerous env.shell command = true)
    (hasked : ¬ RunsUnasked request) (usedComplexParsing : Bool) :
    renderDecisionForUnmatchedCommand env.shell request usedComplexParsing command ≠ .allow := by
  have hsafe := not_known_safe_of_might_be_dangerous hagree hdangerous
  unfold renderDecisionForUnmatchedCommand
  rw [hsafe, Bool.false_and, if_pos hdangerous]
  cases happroval : request.approvalPolicy with
  | never =>
    have hprofile : ¬ (request.permissionProfile = .disabled ∨
        request.permissionProfile = .external) := fun h => hasked ⟨happroval, h⟩
    simp [hprofile]
  | unlessTrusted => simp
  | onFailure => simp
  | onRequest => simp
  | granular config => simp

variable {amendment : Option ExecPolicyAmendment}

theorem decision_of_skip {parsed : ExecPolicyCommands} {evaluation : Evaluation} {bypass : Bool}
    (h : requirementFor env policy request parsed evaluation = .skip bypass amendment) :
    evaluation.decision = .allow := by
  unfold requirementFor at h
  dsimp only at h
  split at h
  · cases h
  · split at h <;> cases h
  · assumption

/-- What is skipped has only segments that a rule matches or the fallback allows. -/
theorem allow_of_skip {bypass : Bool} {segment : List Str}
    (hskip : createExecApprovalRequirementForCommand env policy request =
      some (.skip bypass amendment))
    (hsegment : segment ∈ (commandsForExecPolicy env.shell request.command).commands)
    (hno : policy.matchesForCommandWithOptions env.host segment none matchOptions = []) :
    renderDecisionForUnmatchedCommand env.shell request
      (commandsForExecPolicy env.shell request.command).usedComplexParsing segment = .allow := by
  obtain ⟨evaluation, heval, hrequirement⟩ := Option.map_eq_some_iff.mp hskip
  have hle := fallback_le_checkMultiple heval hsegment hno
  rw [decision_of_skip hrequirement] at hle
  exact le_antisymm hle (Decision.allow_le _)

end

/-- A segment that no rule matches and that might be dangerous is not run without a question,
unless both questions and sandbox are off. -/
theorem dangerous_segment_not_skipped (env : ExecEnv) (hagree : ScriptsAgree env.shell) :
    (∀ command, ¬ (isKnownSafeCommand env.shell command = true ∧
      commandMightBeDangerous env.shell command = true)) ∧
    ∀ (policy : Policy) (request : ExecApprovalRequest),
      ∀ segment ∈ (commandsForExecPolicy env.shell request.command).commands,
        policy.matchesForCommandWithOptions env.host segment none matchOptions = [] →
        commandMightBeDangerous env.shell segment = true →
        ¬ RunsUnasked request →
        ∀ bypass amendment, createExecApprovalRequirementForCommand env policy request ≠
          some (.skip bypass amendment) := by
  constructor
  · rintro command ⟨hsafe, hdangerous⟩
    rw [not_known_safe_of_might_be_dangerous hagree hdangerous] at hsafe
    cases hsafe
  · intro policy request segment hsegment hno hdangerous hasked bypass amendment hskip
    exact renderDecision_of_dangerous hagree hdangerous hasked _ (allow_of_skip hskip hsegment hno)

/-- A parser that splits every script at blanks, and knows nothing else. -/
def splittingShell : Shell where
  linux := true
  parsePlainCommands script := some [script.splitOn ' ']
  parseHeredocCommand _ := none
  parseWithPowershellAst _ _ := none

def requestOf (command : List String) : ExecApprovalRequest where
  command := texts command
  approvalPolicy := .onRequest
  permissionProfile := .managed
  fileSystemSandboxPolicy := ⟨.restricted, none, []⟩
  sandboxPermissions := .useDefault
  prefixRule := none

theorem dangerous_segment_not_skipped_rm :
    let env : ExecEnv := ⟨.bare, splittingShell, fun _ => none⟩
    ScriptsAgree env.shell ∧ texts ["rm", "-rf", "x"] ∈ (commandsForExecPolicy env.shell
        (requestOf ["bash", "-c", "rm -rf x"]).command).commands ∧
      ∀ bypass amendment, createExecApprovalRequirementForCommand env .empty
        (requestOf ["bash", "-c", "rm -rf x"]) ≠ some (.skip bypass amendment) := by
  intro env
  have hagree : ScriptsAgree env.shell := by decide +kernel
  have hsegment : texts ["rm", "-rf", "x"] ∈ (commandsForExecPolicy env.shell
      (requestOf ["bash", "-c", "rm -rf x"]).command).commands := by decide +kernel
  exact ⟨hagree, hsegment, (dangerous_segment_not_skipped env hagree).2 .empty _ _ hsegment rfl
    (by decide +kernel) (by decide +kernel)⟩

/-- The script `zsh` is dangerous, `bash` is safe, and anything else a shell that is given the
script `zsh`. -/
def confusedShell : Shell where
  linux := true
  parsePlainCommands script :=
    if script = "zsh".toList then some [texts ["rm", "-rf", "/"]]
    else if script = "bash".toList then some [texts ["ls"]]
    else some [texts ["bash", "-c", "zsh"]]
  parseHeredocCommand _ := none
  parseWithPowershellAst _ _ := none

/-- With such a parser a command is on both lists, and a request for it is not asked about. -/
theorem script_zsh_skipped :
    let env : ExecEnv := ⟨.bare, confusedShell, fun _ => none⟩
    let segment := texts ["bash", "-c", "zsh"]
    let request := requestOf ["bash", "-c", "x"]
    isKnownSafeCommand env.shell segment = true ∧ commandMightBeDangerous env.shell segment = true ∧
      segment ∈ (commandsForExecPolicy env.shell request.command).commands ∧
      Policy.empty.matchesForCommandWithOptions env.host segment none matchOptions = [] ∧
      ¬ RunsUnasked request ∧
      createExecApprovalRequirementForCommand env .empty request =
        some (.skip false (some segment)) := by
  refine ⟨by decide +kernel, by decide +kernel, by decide +kernel, rfl, by decide +kernel,
    by decide +kernel⟩

end CodexRs.Core
