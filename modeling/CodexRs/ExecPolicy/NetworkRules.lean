import Mathlib.Data.List.Nodup
import CodexRs.ExecPolicy.Policy

/-!
# Network rules

A host moves to the end of a list with each rule that decides about it.
-/
namespace CodexRs.ExecPolicy
open Text List

structure NetworkRule where
  host : Str
  decision : Decision

def upsertDomain (entries : List Str) (host : Str) : List Str :=
  entries.filter (· ≠ host) ++ [host]

def compileRule (domains : List Str × List Str) (rule : NetworkRule) : List Str × List Str :=
  match rule.decision with
  | .allow => (upsertDomain domains.1 rule.host, domains.2.filter (· ≠ rule.host))
  | .forbidden => (domains.1.filter (· ≠ rule.host), upsertDomain domains.2 rule.host)
  | .prompt => domains

/-- The allowed and the denied hosts. -/
def compiledNetworkDomains (networkRules : List NetworkRule) : List Str × List Str :=
  networkRules.foldl compileRule ([], [])

def NetworkRule.decides (rule : NetworkRule) (host : Str) : Bool :=
  rule.host = host && rule.decision ≠ .prompt

/-- The last rule that decides about the host, with its position. -/
def lastDeciding (rules : List NetworkRule) (host : Str) : Option (NetworkRule × ℕ) :=
  (rules.zipIdx.filter (·.1.decides host)).getLast?

def lastDecision (rules : List NetworkRule) (host : Str) : Option Decision :=
  (lastDeciding rules host).map (·.1.decision)

def lastPosition (rules : List NetworkRule) (host : Str) : Option ℕ :=
  (lastDeciding rules host).map (·.2)

open NetworkRule

section
variable {rules : List NetworkRule} {rule : NetworkRule} {host : Str}

theorem lastDeciding_concat : lastDeciding (rules ++ [rule]) host =
    if rule.decides host then some (rule, rules.length) else lastDeciding rules host := by
  rw [lastDeciding, zipIdx_append]
  split_ifs with h <;> simp [h, lastDeciding]

theorem lastPosition_lt {i : ℕ} (h : lastPosition rules host = some i) : i < rules.length := by
  obtain ⟨⟨last, j⟩, hlast, rfl⟩ := Option.map_eq_some_iff.mp h
  exact (mem_zipIdx' (mem_of_mem_filter (mem_of_getLast? hlast))).1

theorem lastDeciding_of_ne (h : host ≠ rule.host) :
    lastDeciding (rules ++ [rule]) host = lastDeciding rules host := by
  rw [lastDeciding_concat]
  simpa [decides] using fun heq => absurd heq.symm h

end

/-- The hosts whose last deciding rule decides so, in the order of these rules. -/
structure Compiled (rules : List NetworkRule) (decision : Decision) (entries : List Str) : Prop where
  mem : ∀ host, host ∈ entries ↔ lastDecision rules host = some decision
  sorted : entries.Pairwise fun a b =>
    ∀ i j, lastPosition rules a = some i → lastPosition rules b = some j → i < j
  nodup : entries.Nodup

section
variable {rules : List NetworkRule} {rule : NetworkRule} {decision : Decision} {entries : List Str}

variable (h : Compiled rules decision entries)
include h

theorem Compiled.sorted_filter : (entries.filter (· ≠ rule.host)).Pairwise fun a b => ∀ i j,
      lastPosition (rules ++ [rule]) a = some i →
        lastPosition (rules ++ [rule]) b = some j → i < j := by
  apply (h.sorted.sublist filter_sublist).imp_of_mem
  intro a b ha hb hlt
  rw [lastPosition, lastPosition, lastDeciding_of_ne (by simpa using (mem_filter.mp ha).2),
    lastDeciding_of_ne (by simpa using (mem_filter.mp hb).2)]
  exact hlt

theorem Compiled.mem_filter {host : Str} (hhost : host ≠ rule.host) :
    host ∈ entries.filter (· ≠ rule.host) ↔ lastDecision (rules ++ [rule]) host = some decision := by
  rw [lastDecision, lastDeciding_of_ne hhost, List.mem_filter, h.mem, lastDecision]
  simp [hhost]

theorem Compiled.retain (hrule : rule.decision ≠ decision) (hprompt : rule.decision ≠ .prompt) :
    Compiled (rules ++ [rule]) decision (entries.filter (· ≠ rule.host)) where
  mem host := by
    by_cases hhost : host = rule.host
    · subst hhost
      simp [lastDecision, lastDeciding_concat, decides, hprompt, hrule]
    · exact h.mem_filter hhost
  sorted := h.sorted_filter
  nodup := h.nodup.filter _

theorem Compiled.upsert (hrule : rule.decision = decision) (hprompt : decision ≠ .prompt) :
    Compiled (rules ++ [rule]) decision (upsertDomain entries rule.host) where
  mem host := by
    by_cases hhost : host = rule.host
    · subst hhost
      simp [upsertDomain, lastDecision, lastDeciding_concat, decides, hrule, hprompt]
    · rw [← h.mem_filter hhost]
      simp [upsertDomain, hhost]
  sorted := by
    refine pairwise_append.mpr ⟨h.sorted_filter, pairwise_singleton _ _, ?_⟩
    intro a ha b hb i j hi hj
    obtain rfl := mem_singleton.mp hb
    rw [lastPosition, lastDeciding_of_ne (by simpa using (List.mem_filter.mp ha).2)] at hi
    simp only [lastPosition, lastDeciding_concat, decides, hrule, hprompt, ne_eq,
      not_false_eq_true, decide_true, Bool.and_self, if_true, Option.map_some,
      Option.some.injEq] at hj
    exact hj ▸ lastPosition_lt hi
  nodup := Nodup.append (h.nodup.filter _) (nodup_singleton _) (by simp)

theorem Compiled.skip (hprompt : rule.decision = .prompt) :
    Compiled (rules ++ [rule]) decision entries := by
  have hsame : lastDeciding (rules ++ [rule]) = lastDeciding rules := by
    funext host
    rw [lastDeciding_concat, if_neg (by simp [decides, hprompt])]
  exact ⟨by simpa [lastDecision, hsame] using h.mem, by simpa [lastPosition, hsame] using h.sorted,
    h.nodup⟩

end

/-- A host is where its last deciding rule puts it, in the order of these rules. -/
theorem compiledNetworkDomains_lastWins (rules : List NetworkRule) :
    let domains := compiledNetworkDomains rules
    Compiled rules .allow domains.1 ∧ Compiled rules .forbidden domains.2 ∧
      domains.1.Disjoint domains.2 := by
  have hboth : Compiled rules .allow (compiledNetworkDomains rules).1 ∧
      Compiled rules .forbidden (compiledNetworkDomains rules).2 := by
    induction rules using reverseRecOn with
    | nil => exact ⟨⟨by simp [lastDecision, lastDeciding, compiledNetworkDomains], .nil, .nil⟩,
        ⟨by simp [lastDecision, lastDeciding, compiledNetworkDomains], .nil, .nil⟩⟩
    | append_singleton rules rule ih =>
      obtain ⟨hallowed, hdenied⟩ := ih
      rw [compiledNetworkDomains, foldl_append, foldl_cons, compileRule]
      cases hdecision : rule.decision with
      | allow =>
        exact ⟨hallowed.upsert hdecision (by simp),
          hdenied.retain (by simp [hdecision]) (by simp [hdecision])⟩
      | forbidden =>
        exact ⟨hallowed.retain (by simp [hdecision]) (by simp [hdecision]),
          hdenied.upsert hdecision (by simp)⟩
      | prompt => exact ⟨hallowed.skip hdecision, hdenied.skip hdecision⟩
  refine ⟨hboth.1, hboth.2, ?_⟩
  intro host hallowed hdenied
  rw [hboth.1.mem] at hallowed
  rw [hboth.2.mem, hallowed] at hdenied
  cases hdenied

end CodexRs.ExecPolicy
