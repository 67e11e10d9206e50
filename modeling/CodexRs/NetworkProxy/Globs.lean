import Mathlib
import CodexRs.NetworkProxy.State
import CodexRs.Library.SuffixPattern

/-!
# Globs of a domain list

A glob without special characters is a literal, and one for the subdomains of such a domain
matches what is below it. Of other globs nothing is assumed.
-/
namespace CodexRs.NetworkProxy
open Text SuffixPattern DomainPattern List

/-- The globs that enforcement makes of an entry. -/
def globs (pattern : Str) : List Str := expandDomainPattern (normalizePattern pattern)

section

/-- The text has no upper-case letters. -/
def Lowered (s : Str) : Prop := ∀ c ∈ s, c.toLower = c

variable {s t : Str}

theorem Lowered.toAsciiLowercase_eq (h : Lowered s) : toAsciiLowercase s = s := by
  rw [toAsciiLowercase, map_congr_left h, map_id']

theorem Lowered.sublist (h : Lowered t) (hs : s.Sublist t) : Lowered s :=
  fun c hc => h c (hs.subset hc)

theorem Lowered.append (hs : Lowered s) (ht : Lowered t) : Lowered (s ++ t) := fun c hc =>
  (mem_append.mp hc).elim (hs c) (ht c)

theorem lowered_toAsciiLowercase (s : Str) : Lowered (toAsciiLowercase s) := by
  intro c hc
  obtain ⟨d, -, rfl⟩ := mem_map.mp hc
  exact Char.toLower_toLower_eq_toLower d

theorem Lowered.trim (h : Lowered s) : Lowered (trim s) :=
  h.sublist ((List.rdropWhile_prefix _ _).sublist.trans (dropWhile_sublist _))

theorem Lowered.of_stripPrefix {p : Str} (h : Lowered s) (hs : stripPrefix p s = some t) :
    Lowered t := by
  rw [stripPrefix_eq_some.mp hs] at h
  exact h.sublist (sublist_append_right _ _)

theorem splitOnce_eq_some {delimiter : Str} {parts : Str × Str}
    (h : splitOnce delimiter s = some parts) : s = parts.1 ++ delimiter ++ parts.2 := by
  induction s generalizing parts with
  | nil =>
    simp only [splitOnce] at h
    split_ifs at h with hdelimiter
    cases h
    simp [hdelimiter]
  | cons c s ih =>
    simp only [splitOnce] at h
    split at h
    · rename_i rest hrest
      cases h
      simpa using stripPrefix_eq_some.mp hrest
    · obtain ⟨parts, hparts, rfl⟩ := Option.map_eq_some_iff.mp h
      rw [ih hparts]
      simp

theorem lowered_normalizeIpLiteral {ip : Str} (hs : Lowered s)
    (h : normalizeIpLiteral s = some ip) : Lowered ip := by
  simp only [normalizeIpLiteral] at h
  split_ifs at h
  · cases h
    exact hs
  obtain ⟨parts, hparts, rfl⟩ := Option.map_eq_some_iff.mp h
  obtain ⟨delimiter, -, hfind⟩ := exists_of_findSome?_eq_some hparts
  obtain ⟨hsplit, -⟩ := Option.filter_eq_some_iff.mp hfind
  rw [splitOnce_eq_some hsplit] at hs
  refine (hs.sublist ?_).append ((show Lowered ['%'] by simp [Lowered]).append (hs.sublist ?_))
  · rw [append_assoc]
    exact sublist_append_left _ _
  · exact sublist_append_right _ _

theorem lowered_normalizeDnsHostOrIpLiteral (host : Str) :
    Lowered (normalizeDnsHostOrIpLiteral host) := by
  have hlowered : Lowered (trimEndDots (toAsciiLowercase host)) :=
    (lowered_toAsciiLowercase host).sublist (List.rdropWhile_prefix _ _).sublist
  unfold normalizeDnsHostOrIpLiteral
  cases h : normalizeIpLiteral (trimEndDots (toAsciiLowercase host)) with
  | none => simpa [h] using hlowered
  | some ip => simpa [h] using lowered_normalizeIpLiteral hlowered h

theorem lowered_normalizeHost (host : Str) : Lowered (normalizeHost host) := by
  unfold normalizeHost
  simp only
  split
  · split_ifs <;> exact lowered_normalizeDnsHostOrIpLiteral _
  · split_ifs <;> exact lowered_normalizeDnsHostOrIpLiteral _

theorem lowered_normalizePattern (pattern : Str) : Lowered (normalizePattern pattern) := by
  unfold normalizePattern
  simp only
  split_ifs
  · simp [Lowered]
  split
  · exact (show Lowered "**.".toList by simp [Lowered]).append (lowered_normalizeHost _)
  split
  · exact (show Lowered "*.".toList by simp [Lowered]).append (lowered_normalizeHost _)
  · exact lowered_normalizeHost _

theorem lowered_parseDomain {build : Str → DomainPattern} (hs : Lowered s)
    (hbuild : ∀ domain, Lowered domain → ∀ glob ∈ (build domain).expand, Lowered glob) :
    ∀ glob ∈ (parseDomain s build).expand, Lowered glob := by
  unfold parseDomain
  simp only
  split_ifs
  · simp [expand, Lowered]
  · exact hbuild _ hs.trim

theorem lowered_subdomains {domain : Str} (h : Lowered domain) : Lowered ("?*.".toList ++ domain) :=
  (show Lowered "?*.".toList by simp [Lowered]).append h

theorem lowered_of_mem_globs {glob pattern : Str} (h : glob ∈ globs pattern) : Lowered glob := by
  have hpattern := (lowered_normalizePattern pattern).trim
  unfold globs expandDomainPattern parse at h
  simp only at h
  split_ifs at h
  · simp only [expand, mem_singleton] at h
    subst h
    exact forall_mem_nil _
  split at h
  · rename_i domain hdomain
    refine lowered_parseDomain (hpattern.of_stripPrefix hdomain) (fun domain hdomain => ?_) glob h
    simp only [expand, forall_mem_cons]
    exact ⟨hdomain, lowered_subdomains hdomain, forall_mem_nil _⟩
  split at h
  · rename_i domain hdomain
    refine lowered_parseDomain (hpattern.of_stripPrefix hdomain) (fun domain hdomain => ?_) glob h
    simp only [expand, forall_mem_singleton]
    exact lowered_subdomains hdomain
  · simp only [expand, mem_singleton] at h
    subst h
    exact hpattern

end

section
variable {lib : GlobLib} {globalWildcard : GlobalWildcard} {glob : Str}

theorem mem_addGlobs {candidates : List Str} {set set' : GlobSet}
    (h : addGlobs lib candidates set = .ok set') :
    glob ∈ set' ↔ glob ∈ set ∨ glob ∈ candidates := by
  induction candidates generalizing set with
  | nil =>
    cases h
    simp
  | cons candidate candidates ih =>
    simp only [addGlobs] at h
    split_ifs at h with hmem
    · rw [ih h, mem_cons]
      constructor
      · exact fun h => h.imp_right Or.inr
      · rintro (h | rfl | h)
        · exact .inl h
        · exact .inl hmem
        · exact .inr h
    split at h
    · cases h
    · rw [ih h, mem_append, mem_singleton, mem_cons, or_assoc]

variable {patterns : List Str}

theorem mem_compilePatterns {set set' : GlobSet}
    (h : compilePatterns lib globalWildcard patterns set = .ok set') :
    glob ∈ set' ↔ glob ∈ set ∨ glob ∈ patterns.flatMap globs := by
  induction patterns generalizing set with
  | nil =>
    cases h
    simp
  | cons pattern patterns ih =>
    simp only [compilePatterns] at h
    split_ifs at h
    split at h
    · cases h
    · rename_i hadd
      rw [ih h, mem_addGlobs hadd, flatMap_cons, mem_append, or_assoc, globs]

theorem mem_compileAllowlistGlobset {set : GlobSet}
    (h : compileAllowlistGlobset lib patterns = .ok set) :
    glob ∈ set ↔ glob ∈ patterns.flatMap globs := by
  unfold compileAllowlistGlobset compileGlobsetWithPolicy at h
  split at h
  · cases h
  rename_i hcompile
  split at h
  · cases h
  cases h
  simp [mem_compilePatterns hcompile]

theorem isMatch_iff {set : GlobSet} {host : Str}
    (h : compileAllowlistGlobset lib patterns = .ok set) :
    lib.isMatch set host = true ↔
      ∃ glob ∈ patterns.flatMap globs, lib.globMatches glob host = true := by
  simp only [GlobLib.isMatch, any_eq_true, mem_compileAllowlistGlobset h]

end

/-- The characters that may mean something in a glob. -/
def isGlobSyntax (c : Char) : Bool := c ∈ ['*', '?', '[', ']', '\x7b', '\x7d', '\\']

def Plain (s : Str) : Prop := ∀ c ∈ s, isGlobSyntax c = false

-- Given by name, since characters are finitely many and would be gone through one by one.
instance : DecidablePred Plain := fun s => List.decidableBAll _ s

/-- Plain globs match literally, and those for subdomains something before a dot and the domain,
without regard to case. -/
structure GlobLib.Lawful (lib : GlobLib) : Prop where
  literal : ∀ {glob : Str}, Plain glob → ∀ text : Str,
    lib.globMatches glob text = true ↔ toAsciiLowercase text = toAsciiLowercase glob
  subdomains : ∀ {domain : Str}, Plain domain → ∀ text : Str,
    lib.globMatches ("?*.".toList ++ domain) text = true ↔
      ∃ label ≠ [], toAsciiLowercase text = label ++ '.' :: toAsciiLowercase domain

/-- A glob of one of the two kinds. -/
def readGlob (glob : Str) : Option (Pattern Char) :=
  if Plain glob then some (.literal glob)
  else match stripPrefix "?*.".toList glob with
    | some domain => if Plain domain then some (.below domain) else none
    | none => none

variable {glob : Str} {p : Pattern Char}

theorem readGlob_literal (h : Plain glob) : readGlob glob = some (.literal glob) := if_pos h

theorem readGlob_subdomains {domain : Str} (h : Plain domain) :
    readGlob ("?*.".toList ++ domain) = some (.below domain) := by
  have hnot : ¬ Plain ("?*.".toList ++ domain) := fun hplain =>
    absurd (hplain '?' (by simp)) (by decide)
  exact if_pos h

theorem readGlob_eq_some (h : readGlob glob = some p) : (Plain glob ∧ p = .literal glob) ∨
      ∃ domain, Plain domain ∧ glob = "?*.".toList ++ domain ∧ p = .below domain := by
  unfold readGlob at h
  split_ifs at h with hplain
  · cases h
    exact .inl ⟨hplain, rfl⟩
  split at h
  · rename_i domain hdomain
    split_ifs at h with hplain
    cases h
    exact .inr ⟨domain, hplain, stripPrefix_eq_some.mp hdomain, rfl⟩
  · cases h

theorem GlobLib.Lawful.matches_iff {lib : GlobLib} (hlib : lib.Lawful) (hglob : Lowered glob)
    (h : readGlob glob = some p) (text : Str) :
    lib.globMatches glob text = true ↔ p.Matches '.' (toAsciiLowercase text) := by
  rcases readGlob_eq_some h with ⟨hplain, rfl⟩ | ⟨domain, hplain, rfl, rfl⟩
  · rw [hlib.literal hplain, hglob.toAsciiLowercase_eq]
    rfl
  · have hdomain : Lowered domain := hglob.sublist (sublist_append_right _ _)
    rw [hlib.subdomains hplain, hdomain.toAsciiLowercase_eq]
    rfl

/-- Whether a pattern that was read matches a text, without regard to case. -/
def patternMatches (text : Str) : Pattern Char → Bool
  | .literal literal => decide (toAsciiLowercase text = toAsciiLowercase literal)
  | .below domain =>
    ('.' :: toAsciiLowercase domain).isSuffixOf (toAsciiLowercase text) &&
      decide ('.' :: toAsciiLowercase domain ≠ toAsciiLowercase text)

/-- A library that matches no more than it must, but for one host with one other glob. -/
def GlobLib.sparse (otherGlob host : Str) : GlobLib where
  globError _ := none
  globSetError _ := none
  globMatches glob text :=
    ((readGlob glob).map (patternMatches text)).getD (decide (glob = otherGlob ∧ text = host))

theorem GlobLib.sparse_matches {otherGlob host text : Str} (h : readGlob glob = some p) :
    (GlobLib.sparse otherGlob host).globMatches glob text = patternMatches text p := by
  simp only [GlobLib.sparse, h, Option.map_some, Option.getD_some]

theorem GlobLib.lawful_sparse (otherGlob host : Str) : (GlobLib.sparse otherGlob host).Lawful where
  literal hplain text := by
    rw [sparse_matches (readGlob_literal hplain), patternMatches, decide_eq_true_eq]
  subdomains {domain} hplain text := by
    have hmatches : (Pattern.below (toAsciiLowercase domain)).Matches '.' (toAsciiLowercase text) ↔
        _ := Pattern.matches_below_iff
    rw [sparse_matches (readGlob_subdomains hplain), patternMatches, Bool.and_eq_true,
      isSuffixOf_iff_suffix, decide_eq_true_eq]
    exact hmatches.symm

end CodexRs.NetworkProxy
