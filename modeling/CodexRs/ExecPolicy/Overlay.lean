import CodexRs.ExecPolicy.Policy

/-!
# Policies merged with others

Rules for the first word of a command as written hide those for the file name of its program, so
rules that are added can hide others that are stricter.
-/
namespace CodexRs.ExecPolicy
open Text Files AbsolutePathBuf List Option Policy

namespace Policy

def mergeOverlay (base overlay : Policy) : Policy where
  rulesByProgram := base.rulesByProgram ++ overlay.rulesByProgram
  hostExecutablesByName := overlay.hostExecutablesByName ++ base.hostExecutablesByName

/-- The rules that match the command as it is written. -/
def exactMatches (policy : Policy) (cmd : List Str) : List RuleMatch :=
  (policy.matchExactRules cmd).getD []

/-- The table of the policy lists the file name of the program, but not the program. -/
def excludesProgram (host : Host) (policy : Policy) (cmd : List Str) : Bool :=
  (cmd.head?.bind (AbsolutePathBuf.fromAbsolutePath host)).any fun program =>
    program.components.getLast?.any fun basename =>
      (policy.hostExecutablesByName.lookup basename).any (program ∉ ·)

/-- The base has a rule for the command as it is written; or the overlay has such rules and one is
as strict; or it has none, and either does not exclude the program or the fallback is as strict.
-/
def KeepsDecision (host : Host) (base overlay : Policy) (cmd : List Str)
    (fallback : List Str → Decision) (decision : Decision) : Prop :=
  base.exactMatches cmd ≠ [] ∨ (∃ ruleMatch ∈ overlay.exactMatches cmd, decision ≤ ruleMatch.decision) ∨
    overlay.exactMatches cmd = [] ∧
      (overlay.excludesProgram host cmd = false ∨ decision ≤ fallback cmd)

end Policy

section
variable {host : Host} {base overlay : Policy} {cmd : List Str} {options : MatchOptions}

variable (policy : Policy)

theorem getD_getVec (program : Str) :
    (policy.getVec program).getD [] = policy.rulesByProgram.filterMap fun entry =>
      if entry.1 = program then some entry.2 else none := by
  unfold getVec
  dsimp only
  split_ifs with h
  · exact h.symm
  · rfl

theorem exactMatches_cons (first : Str) (args : List Str) : policy.exactMatches (first :: args) =
      ((policy.getVec first).getD []).filterMap (·.matches (first :: args)) := by
  rw [exactMatches, matchExactRules]
  cases h : policy.getVec first <;> simp [h]

theorem exactMatches_mergeOverlay (base overlay : Policy) (cmd : List Str) :
    (base.mergeOverlay overlay).exactMatches cmd =
      base.exactMatches cmd ++ overlay.exactMatches cmd := by
  cases cmd with
  | nil => rfl
  | cons first args =>
    simp only [exactMatches_cons, getD_getVec, mergeOverlay, filterMap_append]

theorem matchHostExecutableRules_cons (first : Str) (args : List Str) :
    policy.matchHostExecutableRules host (first :: args) =
      (fromAbsolutePath host first).elim [] fun program =>
        program.components.getLast?.elim [] fun basename =>
          if (policy.hostExecutablesByName.lookup basename).any (program ∉ ·) = true then []
          else (((policy.getVec basename).getD []).filterMap (·.matches (basename :: args))).map
            (·.withResolvedProgram program) := by
  unfold matchHostExecutableRules
  dsimp only
  cases fromAbsolutePath host first with
  | none => rfl
  | some program =>
    cases hname : program.components.getLast? with
    | none => simp [hname]
    | some basename => cases hrules : policy.getVec basename <;> simp [hname, hrules]

/-- An overlay that excludes the program leaves no rule for its file name. -/
theorem hostMatches_of_excluded (h : overlay.excludesProgram host cmd = true) :
    (base.mergeOverlay overlay).matchHostExecutableRules host cmd = [] := by
  cases cmd with
  | nil => rfl
  | cons first args =>
    rw [matchHostExecutableRules_cons]
    simp only [excludesProgram, head?_cons, bind_some] at h
    cases hprogram : fromAbsolutePath host first with
    | none => rfl
    | some program =>
      rw [hprogram, any_some] at h
      cases hname : program.components.getLast? with
      | none => simp [hname]
      | some basename =>
        rw [hname, any_some] at h
        obtain ⟨paths, hpaths, hnot⟩ := (any_eq_true _ _).mp h
        simp only [elim_some, hname, mergeOverlay, lookup_append, hpaths,
          some_or, any_some, hnot, if_true]

/-- An overlay that does not exclude the program keeps the rules of the base for its file name. -/
theorem hostMatches_of_not_excluded (h : overlay.excludesProgram host cmd = false)
    {ruleMatch : RuleMatch} (hmem : ruleMatch ∈ base.matchHostExecutableRules host cmd) :
    ruleMatch ∈ (base.mergeOverlay overlay).matchHostExecutableRules host cmd := by
  cases cmd with
  | nil => cases hmem
  | cons first args =>
    rw [matchHostExecutableRules_cons] at hmem ⊢
    simp only [excludesProgram, head?_cons, bind_some] at h
    cases hprogram : fromAbsolutePath host first with
    | none => simp [hprogram] at hmem
    | some program =>
      rw [hprogram, any_some] at h
      cases hname : program.components.getLast? with
      | none => simp [hprogram, hname] at hmem
      | some basename =>
        rw [hname, any_some] at h
        simp only [hprogram, hname, elim_some, getD_getVec, mergeOverlay,
          lookup_append, filterMap_append, map_append] at hmem ⊢
        cases hpaths : overlay.hostExecutablesByName.lookup basename with
        | none =>
          rw [none_or]
          split_ifs at hmem ⊢
          · cases hmem
          · exact mem_append_left _ hmem
        | some paths =>
          rw [hpaths] at h
          rw [some_or, if_neg (by rw [h]; exact Bool.false_ne_true)]
          split_ifs at hmem
          · cases hmem
          · exact mem_append_left _ hmem

theorem matchesForCommand_eq (cmd : List Str) (fallback : List Str → Decision) :
    policy.matchesForCommandWithOptions host cmd (some fallback) options =
      if policy.matchesForCommandWithOptions host cmd none options = [] then
        [.heuristicsRuleMatch cmd (fallback cmd)]
      else policy.matchesForCommandWithOptions host cmd none options := rfl

theorem matchesForCommand_none (cmd : List Str) :
    policy.matchesForCommandWithOptions host cmd none options =
      if policy.exactMatches cmd ≠ [] then policy.exactMatches cmd
      else if options.resolveHostExecutables then policy.matchHostExecutableRules host cmd
      else [] := rfl

variable {evaluation : Evaluation}

theorem exists_mem_of_fromMatches {matchedRules : List RuleMatch}
    (h : Evaluation.fromMatches matchedRules = some evaluation) :
    ∃ ruleMatch ∈ matchedRules, ruleMatch.decision = evaluation.decision := by
  obtain ⟨decision, hmax, rfl⟩ := map_eq_some_iff.mp h
  exact mem_map.mp (List.max?_mem hmax)

theorem checkWithOptions_eq_some (host : Host) (policy : Policy) (cmd : List Str)
    (fallback : List Str → Decision) (options : MatchOptions) :
    ∃ evaluation, policy.checkWithOptions host cmd fallback options = some evaluation :=
  isSome_iff_exists.mp (fromMatches_isSome (matches_ne_nil policy cmd fallback))

/-- The decision of the merged policy is at least that strict if it has a match that is. -/
theorem le_check_iff {policy : Policy} {fallback : List Str → Decision}
    (h : policy.checkWithOptions host cmd fallback options = some evaluation) (decision : Decision) :
    decision ≤ evaluation.decision ↔ ∃ ruleMatch ∈
      policy.matchesForCommandWithOptions host cmd (some fallback) options,
        decision ≤ ruleMatch.decision := by
  constructor
  · intro hle
    obtain ⟨ruleMatch, hmem, heq⟩ := exists_mem_of_fromMatches h
    exact ⟨ruleMatch, hmem, heq ▸ hle⟩
  · rintro ⟨ruleMatch, hmem, hle⟩
    exact hle.trans (le_of_mem_fromMatches h hmem)

/-- For a command that the base matches, the merged policy is as strict exactly when the overlay
does not hide the rules of the base. -/
theorem mergeOverlay_stricter_iff
    (hmatch : base.matchesForCommandWithOptions host cmd none options ≠ []) (overlay : Policy)
    (fallback : List Str → Decision) :
    ∃ before after, base.checkWithOptions host cmd fallback options = some before ∧
      (base.mergeOverlay overlay).checkWithOptions host cmd fallback options = some after ∧
      (before.decision ≤ after.decision ↔
        base.KeepsDecision host overlay cmd fallback before.decision) := by
  obtain ⟨before, hbefore⟩ := checkWithOptions_eq_some host base cmd fallback options
  obtain ⟨after, hafter⟩ :=
    checkWithOptions_eq_some host (base.mergeOverlay overlay) cmd fallback options
  refine ⟨before, after, hbefore, hafter, ?_⟩
  obtain ⟨top, htop, hdecision⟩ := exists_mem_of_fromMatches hbefore
  rw [le_check_iff hafter]
  rw [matchesForCommand_eq, if_neg hmatch] at htop
  rw [matchesForCommand_eq, matchesForCommand_none, exactMatches_mergeOverlay]
  unfold KeepsDecision
  rw [matchesForCommand_none] at hmatch htop
  by_cases hbase : base.exactMatches cmd = []
  · simp only [hbase, ne_eq, not_true_eq_false, if_false, List.nil_append] at hmatch htop ⊢
    split_ifs at hmatch htop with hresolve
    · by_cases hoverlay : overlay.exactMatches cmd = []
      · simp only [hoverlay, not_true_eq_false, if_false, hresolve, if_true]
        cases hexcluded : overlay.excludesProgram host cmd with
        | true =>
          rw [hostMatches_of_excluded hexcluded]
          simp [RuleMatch.decision]
        | false =>
          have hmem := hostMatches_of_not_excluded hexcluded htop
          rw [if_neg (ne_nil_of_mem hmem)]
          simpa using ⟨top, hmem, hdecision.ge⟩
      · simp [hoverlay]
    · exact absurd rfl hmatch
  · have hmem : top ∈ base.exactMatches cmd ++ overlay.exactMatches cmd := by
      rw [if_pos hbase] at htop
      exact mem_append_left _ htop
    have hne : base.exactMatches cmd ++ overlay.exactMatches cmd ≠ [] := ne_nil_of_mem hmem
    simp only [hne, ne_eq, not_false_eq_true, if_true, hbase, true_or, iff_true]
    exact ⟨top, hmem, hdecision.ge⟩

end

def ruleFor (words : List Str) (decision : Decision) : Policy :=
  (Policy.empty.addPrefixRule words decision).getD .empty

def gitPush : List Str := ["/usr/bin/git".toList, "push".toList]

theorem mergeOverlay_stricter_added :
    ∃ before after, (ruleFor ["git".toList] .forbidden).checkWithOptions .bare gitPush
        (fun _ => .allow) ⟨true⟩ = some before ∧
      ((ruleFor ["git".toList] .forbidden).mergeOverlay (ruleFor ["ls".toList] .prompt)).checkWithOptions
        .bare gitPush (fun _ => .allow) ⟨true⟩ = some after ∧ before.decision ≤ after.decision := by
  have hmatch : (ruleFor ["git".toList] .forbidden).matchesForCommandWithOptions .bare gitPush none
      ⟨true⟩ ≠ [] := by decide +kernel
  obtain ⟨before, after, hbefore, hafter, hiff⟩ :=
    mergeOverlay_stricter_iff hmatch (ruleFor ["ls".toList] .prompt) fun _ => .allow
  exact ⟨before, after, hbefore, hafter, hiff.mpr (.inr (.inr ⟨by decide +kernel,
    .inl (by decide +kernel)⟩))⟩

/-- A rule for the program as it is written hides the one that forbids it by its file name. -/
theorem mergeOverlay_hides_forbidden :
    ((ruleFor ["git".toList] .forbidden).checkWithOptions .bare gitPush (fun _ => .allow)
        ⟨true⟩).map Evaluation.decision = some .forbidden ∧
      (((ruleFor ["git".toList] .forbidden).mergeOverlay
        (ruleFor ["/usr/bin/git".toList] .prompt)).checkWithOptions .bare gitPush (fun _ => .allow)
          ⟨true⟩).map Evaluation.decision = some .prompt := by
  decide +kernel

end CodexRs.ExecPolicy
