import Mathlib.Order.MinMax
import CodexRs.Files.Host

/-!
# Rules for commands

Rules are filed under the program they are for, and the strictest decision counts.
-/
namespace CodexRs.ExecPolicy
open Text Files

/-- The decisions, from the most lenient to the strictest. -/
inductive Decision where
  | allow
  | prompt
  | forbidden
  deriving DecidableEq

namespace Decision

def rank : Decision → ℕ
  | allow => 0
  | prompt => 1
  | forbidden => 2

theorem rank_injective : Function.Injective rank := by
  intro a b h
  cases a <;> cases b <;> first | rfl | cases h

instance : LinearOrder Decision := LinearOrder.lift' rank rank_injective

theorem allow_le (decision : Decision) : allow ≤ decision := Nat.zero_le decision.rank

end Decision

inductive PatternToken where
  | single (expected : Str)
  | alts (alternatives : List Str)

def PatternToken.matches (pattern : PatternToken) (token : Str) : Bool :=
  match pattern with
  | .single expected => expected = token
  | .alts alternatives => alternatives.any (· = token)

structure PrefixPattern where
  first : Str
  rest : List PatternToken

/-- The words of the command that the pattern stands for, if it matches them. -/
def PrefixPattern.matchesPrefix (pattern : PrefixPattern) (cmd : List Str) : Option (List Str) :=
  let patternLength := pattern.rest.length + 1
  if cmd.length < patternLength ∨ cmd.head? ≠ some pattern.first then none
  else if (pattern.rest.zip cmd.tail).all fun pair => pair.1.matches pair.2 then
    some (cmd.take patternLength)
  else none

inductive RuleMatch where
  | prefixRuleMatch (matchedPrefix : List Str) (decision : Decision)
      (resolvedProgram : Option AbsolutePathBuf) (justification : Option Str)
  | heuristicsRuleMatch (command : List Str) (decision : Decision)

def RuleMatch.decision : RuleMatch → Decision
  | .prefixRuleMatch _ decision _ _ => decision
  | .heuristicsRuleMatch _ decision => decision

def RuleMatch.withResolvedProgram (ruleMatch : RuleMatch) (program : AbsolutePathBuf) : RuleMatch :=
  match ruleMatch with
  | .prefixRuleMatch matchedPrefix decision _ justification =>
    .prefixRuleMatch matchedPrefix decision (some program) justification
  | other => other

structure PrefixRule where
  pattern : PrefixPattern
  decision : Decision
  justification : Option Str

def PrefixRule.matches (rule : PrefixRule) (cmd : List Str) : Option RuleMatch :=
  (rule.pattern.matchesPrefix cmd).map fun matchedPrefix =>
    .prefixRuleMatch matchedPrefix rule.decision none rule.justification

structure Policy where
  /-- The rules with the program each is filed under, in the order they were added. -/
  rulesByProgram : List (Str × PrefixRule)
  hostExecutablesByName : List (Str × List AbsolutePathBuf)

def Policy.empty : Policy := ⟨[], []⟩

structure MatchOptions where
  resolveHostExecutables : Bool

structure Evaluation where
  decision : Decision
  matchedRules : List RuleMatch

/-- The strictest of the decisions; there must be one. -/
def Evaluation.fromMatches (matchedRules : List RuleMatch) : Option Evaluation :=
  (matchedRules.map RuleMatch.decision).max?.map fun decision => ⟨decision, matchedRules⟩

namespace Policy
variable (host : Host) (policy : Policy)

def getVec (program : Str) : Option (List PrefixRule) :=
  let rules := policy.rulesByProgram.filterMap fun entry =>
    if entry.1 = program then some entry.2 else none
  if rules = [] then none else some rules

/-- A rule that allows or not every command that begins with these words. -/
def addPrefixRule (words : List Str) (decision : Decision) : Option Policy :=
  match words with
  | [] => none
  | firstToken :: rest =>
    some { policy with
      rulesByProgram := policy.rulesByProgram ++
        [(firstToken, ⟨⟨firstToken, rest.map .single⟩, decision, none⟩)] }

variable (cmd : List Str)

def matchExactRules : Option (List RuleMatch) :=
  cmd.head?.map fun first =>
    ((policy.getVec first).map fun rules => rules.filterMap (·.matches cmd)).getD []

def matchHostExecutableRules : List RuleMatch :=
  match cmd with
  | [] => []
  | first :: args =>
    match AbsolutePathBuf.fromAbsolutePath host first with
    | none => []
    | some program =>
      match program.components.getLast? with
      | none => []
      | some basename =>
        match policy.getVec basename with
        | none => []
        | some rules =>
          if (policy.hostExecutablesByName.lookup basename).any (program ∉ ·) then []
          else (rules.filterMap (·.matches (basename :: args))).map (·.withResolvedProgram program)

def matchesForCommandWithOptions (heuristicsFallback : Option (List Str → Decision))
    (options : MatchOptions) : List RuleMatch :=
  let exact := (policy.matchExactRules cmd).getD []
  let matchedRules :=
    if exact ≠ [] then exact
    else if options.resolveHostExecutables then policy.matchHostExecutableRules host cmd
    else []
  match heuristicsFallback with
  | none => matchedRules
  | some fallback =>
    if matchedRules = [] then [.heuristicsRuleMatch cmd (fallback cmd)] else matchedRules

def checkWithOptions (heuristicsFallback : List Str → Decision)
    (options : MatchOptions) : Option Evaluation :=
  Evaluation.fromMatches
    (policy.matchesForCommandWithOptions host cmd (some heuristicsFallback) options)

def checkMultipleWithOptions (commands : List (List Str)) (heuristicsFallback : List Str → Decision)
    (options : MatchOptions) : Option Evaluation :=
  Evaluation.fromMatches <| commands.flatMap fun command =>
    policy.matchesForCommandWithOptions host command (some heuristicsFallback) options

end Policy

variable {host : Host} {policy : Policy} {options : MatchOptions} {matchedRules : List RuleMatch}

variable {evaluation : Evaluation}

theorem le_of_mem_fromMatches
    (h : Evaluation.fromMatches matchedRules = some evaluation) {ruleMatch : RuleMatch}
    (hmem : ruleMatch ∈ matchedRules) : ruleMatch.decision ≤ evaluation.decision := by
  obtain ⟨decision, hmax, rfl⟩ := Option.map_eq_some_iff.mp h
  exact (List.max?_le_iff hmax).mp le_rfl _ (List.mem_map_of_mem hmem)

/-- A command that no rule matches is decided by the fallback. -/
theorem matches_of_no_rule {cmd : List Str} (fallback : List Str → Decision)
    (h : policy.matchesForCommandWithOptions host cmd none options = []) :
    policy.matchesForCommandWithOptions host cmd (some fallback) options =
      [.heuristicsRuleMatch cmd (fallback cmd)] := by
  unfold Policy.matchesForCommandWithOptions at h ⊢
  dsimp only at h ⊢
  rw [h]
  exact if_pos rfl

/-- With a fallback there is always a decision, whatever the rules. -/
theorem matches_ne_nil (policy : Policy) (cmd : List Str) (fallback : List Str → Decision) :
    policy.matchesForCommandWithOptions host cmd (some fallback) options ≠ [] := by
  unfold Policy.matchesForCommandWithOptions
  dsimp only
  split_ifs <;> simp_all

theorem fromMatches_isSome (h : matchedRules ≠ []) :
    (Evaluation.fromMatches matchedRules).isSome = true := by
  rw [Evaluation.fromMatches, Option.isSome_map]
  simpa using h

variable {commands : List (List Str)}

theorem checkMultiple_isSome (h : commands ≠ []) (fallback : List Str → Decision) :
    (policy.checkMultipleWithOptions host commands fallback options).isSome = true := by
  apply fromMatches_isSome
  obtain ⟨command, hmem⟩ := List.exists_mem_of_ne_nil commands h
  intro hnil
  exact matches_ne_nil policy command fallback (List.flatMap_eq_nil_iff.mp hnil command hmem)

theorem fallback_le_checkMultiple {fallback : List Str → Decision} {cmd : List Str}
    (heval : policy.checkMultipleWithOptions host commands fallback options = some evaluation)
    (hmem : cmd ∈ commands) (hno : policy.matchesForCommandWithOptions host cmd none options = []) :
    fallback cmd ≤ evaluation.decision := by
  have hle : (RuleMatch.heuristicsRuleMatch cmd (fallback cmd)).decision ≤ evaluation.decision := by
    apply le_of_mem_fromMatches heval
    apply List.mem_flatMap.mpr
    exact ⟨cmd, hmem, by rw [matches_of_no_rule fallback hno]; exact List.mem_singleton_self _⟩
  exact hle

end CodexRs.ExecPolicy
