import CodexRs.NetworkProxy.Globs

/-!
# The managed allowlist as a bound

Entries are compared with the managed ones as one routine reads them and compiled as another does.
Those with a port are read as empty by the comparison only.
-/
namespace CodexRs.NetworkProxy
open Text SuffixPattern DomainPattern GlobLib List

/-- Managed domains that may not be added to. -/
def NetworkProxyConstraints.managing (constraints : NetworkProxyConstraints)
    (managed : List Str) : NetworkProxyConstraints :=
  { constraints with allowedDomains := some managed, allowlistExpansionEnabled := none }

/-- If the configuration is accepted, every host that its allowed domains match is matched by the
managed domains. -/
def ManagedBounds (text : TextLib) (config : NetworkProxyConfig)
    (constraints : NetworkProxyConstraints) (managed : List Str) : Prop :=
  validatePolicyAgainstConstraints text config (constraints.managing managed) = .ok () →
    ∀ lib : GlobLib, lib.Lawful → ∀ allowSet managedSet,
      compileAllowlistGlobset lib (config.network.allowedDomains.getD []) = .ok allowSet →
      compileAllowlistGlobset lib managed = .ok managedSet →
      ∀ host, lib.isMatch allowSet host = true → lib.isMatch managedSet host = true

section

/-- A glob is one of the others or contained in one of them. -/
def GlobCovered (others : List Str) (glob : Str) : Prop :=
  glob ∈ others ∨
    ∃ p ∈ readGlob glob, ∃ other ∈ others, ∃ q ∈ readGlob other, q.Covers '.' p

variable {others : List Str} {glob host : Str} {lib : GlobLib}

theorem matches_of_covered (hlib : lib.Lawful) (hothers : ∀ other ∈ others, Lowered other)
    (hglob : Lowered glob) (h : GlobCovered others glob)
    (hmatch : lib.globMatches glob host = true) :
    ∃ other ∈ others, lib.globMatches other host = true := by
  rcases h with h | ⟨p, hp, other, hother, q, hq, hcovers⟩
  · exact ⟨glob, h, hmatch⟩
  · rw [hlib.matches_iff hglob hp] at hmatch
    exact ⟨other, hother,
      (hlib.matches_iff (hothers other hother) hq host).mpr (hcovers.matches hmatch)⟩

end

variable {text : TextLib} {config : NetworkProxyConfig} {constraints : NetworkProxyConstraints}
  {managed : List Str}

theorem lowered_of_mem_flatMap_globs {glob : Str} {patterns : List Str}
    (h : glob ∈ patterns.flatMap globs) : Lowered glob := by
  obtain ⟨pattern, -, h⟩ := mem_flatMap.mp h
  exact lowered_of_mem_globs h

theorem managedBounds_of_covered
    (h : validatePolicyAgainstConstraints text config (constraints.managing managed) = .ok () →
      ∀ glob ∈ (config.network.allowedDomains.getD []).flatMap globs,
        GlobCovered (managed.flatMap globs) glob) :
    ManagedBounds text config constraints managed := by
  intro hvalid lib hlib allowSet managedSet hallow hmanaged host hmatch
  obtain ⟨glob, hglob, hmatch⟩ := (isMatch_iff hallow).mp hmatch
  rw [isMatch_iff hmanaged]
  exact matches_of_covered hlib (fun _ => lowered_of_mem_flatMap_globs)
    (lowered_of_mem_flatMap_globs hglob) (h hvalid glob hglob) hmatch

/-- A library that takes hosts without a colon as they are. -/
def TextLib.colonless : TextLib where
  parseUrlHost host := if ':' ∈ host then none else some (toAsciiLowercase host)
  debugStr text := '"' :: text ++ ['"']

/-- A configuration that allows one entry. -/
def allowingEntry (entry : String) : NetworkProxyConfig :=
  ⟨{ NetworkProxySettings.default with domains := some ⟨[⟨entry.toList, .allow⟩]⟩ }⟩

/-- Entries with a port are all read as empty in the comparison, and without it otherwise. -/
theorem entry_with_port_escapes_managed_allowlist :
    validatePolicyAgainstConstraints .colonless (allowingEntry "b.com:443")
      (NetworkProxyConstraints.default.managing ["a.com:443".toList]) = .ok () ∧
    compileAllowlistGlobset (.sparse [] []) ["b.com:443".toList] = .ok ["b.com".toList] ∧
    compileAllowlistGlobset (.sparse [] []) ["a.com:443".toList] = .ok ["a.com".toList] ∧
    (GlobLib.sparse [] []).isMatch ["b.com".toList] "b.com".toList = true ∧
    (GlobLib.sparse [] []).isMatch ["a.com".toList] "b.com".toList = false ∧
    ¬ ManagedBounds .colonless (allowingEntry "b.com:443") .default ["a.com:443".toList] := by
  have hvalid : validatePolicyAgainstConstraints .colonless (allowingEntry "b.com:443")
      (NetworkProxyConstraints.default.managing ["a.com:443".toList]) = .ok () := by
    decide +kernel
  have hallow : compileAllowlistGlobset (.sparse [] []) ["b.com:443".toList] =
      .ok ["b.com".toList] := by
    decide +kernel
  have hmanaged : compileAllowlistGlobset (.sparse [] []) ["a.com:443".toList] =
      .ok ["a.com".toList] := by
    decide +kernel
  have hmatch : (sparse [] []).isMatch ["b.com".toList] "b.com".toList = true := by
    decide +kernel
  have hnot : (sparse [] []).isMatch ["a.com".toList] "b.com".toList = false := by
    decide +kernel
  refine ⟨hvalid, hallow, hmanaged, hmatch, hnot, fun hbounds => ?_⟩
  have hhost := hbounds hvalid _ (lawful_sparse [] []) _ _ hallow hmanaged _ hmatch
  exact absurd (hhost.symm.trans hnot) (by decide)

namespace DomainPattern

def domain : DomainPattern → Str
  | .apexAndSubdomains domain | .subdomainsOnly domain | .exact domain => domain

def mapDomain (f : Str → Str) : DomainPattern → DomainPattern
  | .apexAndSubdomains domain => .apexAndSubdomains (f domain)
  | .subdomainsOnly domain => .subdomainsOnly (f domain)
  | .exact domain => .exact (f domain)

end DomainPattern

/-- Comparison and enforcement read the entry as the same kind of pattern with the same plain
domain. -/
structure ReadAlike (text : TextLib) (pattern : Str) : Prop where
  same : (DomainPattern.parseForConstraints text pattern).mapDomain normalizeDomain =
    DomainPattern.parse (normalizePattern pattern)
  plain : Plain (DomainPattern.parse (normalizePattern pattern)).domain
  head : (DomainPattern.parse (normalizePattern pattern)).domain.head? ≠ some '.'

variable {others : List Str} {child parent : Str}

theorem endsWithDomain_iff : endsWithDomain child parent = true ↔ '.' :: parent <:+ child := by
  rw [endsWithDomain, isSuffixOf_iff_suffix]

theorem covered_literal (hchild : Plain child) (hhead : child.head? ≠ some '.')
    (hparent : Plain parent) (hmem : "?*.".toList ++ parent ∈ others)
    (h : endsWithDomain child parent = true) : GlobCovered others child := by
  refine .inr ⟨_, readGlob_literal hchild, _, hmem, _, readGlob_subdomains hparent, ?_⟩
  refine Pattern.matches_below_iff.mpr ⟨endsWithDomain_iff.mp h, ?_⟩
  rintro rfl
  exact hhead rfl

theorem covered_subdomains (hchild : Plain child) (hparent : Plain parent)
    (hmem : "?*.".toList ++ parent ∈ others) (h : endsWithDomain child parent = true) :
    GlobCovered others ("?*.".toList ++ child) := by
  refine .inr ⟨_, readGlob_subdomains hchild, _, hmem, _, readGlob_subdomains hparent, ?_⟩
  exact (endsWithDomain_iff.mp h).trans (suffix_cons _ _)

theorem isSubdomainOrEqual_iff : isSubdomainOrEqual child parent = true ↔
    normalizeDomain child = normalizeDomain parent ∨
      endsWithDomain (normalizeDomain child) (normalizeDomain parent) = true := by
  simp [isSubdomainOrEqual]

theorem endsWithDomain_of_isStrictSubdomain (h : isStrictSubdomain child parent = true) :
    endsWithDomain (normalizeDomain child) (normalizeDomain parent) = true := by
  simp only [isStrictSubdomain, Bool.and_eq_true] at h
  exact h.2

attribute [local simp] DomainPattern.domain

/-- A pattern that another allows has no globs that the other's do not cover. -/
theorem covered_of_allows {pattern entry : DomainPattern}
    (hpattern : Plain (normalizeDomain pattern.domain))
    (hentry : Plain (normalizeDomain entry.domain))
    (hhead : (normalizeDomain entry.domain).head? ≠ some '.') (h : pattern.allows entry = true) :
    ∀ glob ∈ (entry.mapDomain normalizeDomain).expand,
      GlobCovered (pattern.mapDomain normalizeDomain).expand glob := by
  cases pattern with
  | exact parent =>
    cases entry with
    | exact child =>
      have hsame : normalizeDomain child = normalizeDomain parent := by
        simpa [allows, domainEq] using h
      simp only [mapDomain, expand, forall_mem_singleton]
      exact .inl (by simp [hsame])
    | subdomainsOnly child => cases h
    | apexAndSubdomains child => cases h
  | subdomainsOnly parent =>
    cases entry with
    | exact child =>
      have hends := endsWithDomain_of_isStrictSubdomain h
      simp only [mapDomain, expand, forall_mem_singleton]
      exact covered_literal hentry hhead hpattern (by simp) hends
    | subdomainsOnly child =>
      simp only [mapDomain, expand, forall_mem_singleton]
      rcases isSubdomainOrEqual_iff.mp h with hsame | hends
      · exact .inl (by simp [hsame])
      · exact covered_subdomains hentry hpattern (by simp) hends
    | apexAndSubdomains child =>
      have hends := endsWithDomain_of_isStrictSubdomain h
      simp only [mapDomain, expand, forall_mem_cons]
      exact ⟨covered_literal hentry hhead hpattern (by simp) hends,
        covered_subdomains hentry hpattern (by simp) hends, forall_mem_nil _⟩
  | apexAndSubdomains parent =>
    cases entry with
    | exact child =>
      simp only [mapDomain, expand, forall_mem_singleton]
      rcases isSubdomainOrEqual_iff.mp h with hsame | hends
      · exact .inl (by simp [hsame])
      · exact covered_literal hentry hhead hpattern (by simp) hends
    | subdomainsOnly child =>
      simp only [mapDomain, expand, forall_mem_singleton]
      rcases isSubdomainOrEqual_iff.mp h with hsame | hends
      · exact .inl (by simp [hsame])
      · exact covered_subdomains hentry hpattern (by simp) hends
    | apexAndSubdomains child =>
      simp only [mapDomain, expand, forall_mem_cons]
      rcases isSubdomainOrEqual_iff.mp h with hsame | hends
      · exact ⟨.inl (by simp [hsame]), .inl (by simp [hsame]), forall_mem_nil _⟩
      · exact ⟨covered_literal hentry hhead hpattern (by simp) hends,
          covered_subdomains hentry hpattern (by simp) hends, forall_mem_nil _⟩

theorem GlobCovered.mono {others' : List Str} {glob : Str} (h : GlobCovered others glob)
    (hsubset : others ⊆ others') : GlobCovered others' glob := by
  rcases h with h | ⟨p, hp, other, hother, hcovers⟩
  · exact .inl (hsubset h)
  · exact .inr ⟨p, hp, other, hsubset hother, hcovers⟩

theorem domain_mapDomain (f : Str → Str) (pattern : DomainPattern) :
    (pattern.mapDomain f).domain = f pattern.domain := by
  cases pattern <;> rfl

theorem ReadAlike.domain_eq {pattern : Str} (h : ReadAlike text pattern) :
    normalizeDomain (parseForConstraints text pattern).domain =
      (parse (normalizePattern pattern)).domain := by
  rw [← domain_mapDomain normalizeDomain, h.same]

theorem isManaged_of_valid
    (h : validatePolicyAgainstConstraints text config (constraints.managing managed) = .ok ()) :
    ∀ entry ∈ config.network.allowedDomains.getD [], isManaged text managed entry = true := by
  rw [validatePolicyAgainstConstraints, firstError_eq_ok] at h
  have hallowed : validateAllowedDomains text (constraints.managing managed)
      (config.network.deniedDomains.getD []) (config.network.allowedDomains.getD []) = .ok () :=
    h _ (by simp)
  rw [validateAllowedDomains, NetworkProxyConstraints.managing, firstError_eq_ok] at hallowed
  have hlist : validateAllowlist text managed (config.network.allowedDomains.getD []) = .ok () :=
    hallowed _ (by simp)
  simp only [validateAllowlist] at hlist
  split_ifs at hlist with hinvalid
  intro entry hentry
  simpa using filter_eq_nil_iff.mp hinvalid entry hentry

/-- What the comparison takes to be under a managed entry is so as it is enforced, if both are read
alike. -/
theorem covered_of_readAlike {entry pattern : Str} (he : ReadAlike text entry)
    (hp : ReadAlike text pattern) (hpattern : pattern ∈ managed)
    (hallows : (parseForConstraints text pattern).allows (parseForConstraints text entry) = true) :
    ∀ glob ∈ globs entry, GlobCovered (managed.flatMap globs) glob := by
  intro glob hglob
  have hcovered := covered_of_allows (hp.domain_eq ▸ hp.plain) (he.domain_eq ▸ he.plain)
    (he.domain_eq ▸ he.head) hallows
  rw [hp.same, he.same] at hcovered
  refine (hcovered glob hglob).mono ?_
  exact fun other hother => mem_flatMap.mpr ⟨pattern, hpattern, hother⟩

/-- The entry is enforced as a managed one is, or it is read alike and so is a managed entry that
admits it, if there is one that does. -/
def ReadTogether (text : TextLib) (managed : List Str) (entry : Str) : Prop :=
  (∃ pattern ∈ managed, globs entry ⊆ globs pattern) ∨
    ReadAlike text entry ∧ (isManaged text managed entry = true → ∃ pattern ∈ managed,
      ReadAlike text pattern ∧
        (parseForConstraints text pattern).allows (parseForConstraints text entry) = true)

/-- The managed list is a bound where no entry is read in one way by the comparison and in another
when it is enforced. -/
theorem managed_allowlist_bounds
    (h : ∀ entry ∈ config.network.allowedDomains.getD [], ReadTogether text managed entry) :
    ManagedBounds text config constraints managed := by
  refine managedBounds_of_covered fun hvalid glob hglob => ?_
  obtain ⟨entry, hentry, hglob⟩ := mem_flatMap.mp hglob
  rcases h entry hentry with ⟨pattern, hpattern, hsubset⟩ | ⟨halike, hadmitted⟩
  · exact .inl (mem_flatMap.mpr ⟨pattern, hpattern, hsubset hglob⟩)
  · obtain ⟨pattern, hpattern, hp, hallows⟩ := hadmitted (isManaged_of_valid hvalid entry hentry)
    exact covered_of_readAlike halike hp hpattern hallows glob hglob

/-- One entry with a port, which is managed as it stands, and one below a managed domain. -/
def allowingTwo : NetworkProxyConfig :=
  ⟨{ NetworkProxySettings.default with
    domains := some ⟨[⟨"b.com:443".toList, .allow⟩, ⟨"b.a.com".toList, .allow⟩]⟩ }⟩

theorem managed_allowlist_bounds_two :
    validatePolicyAgainstConstraints .colonless allowingTwo
      (NetworkProxyConstraints.default.managing ["b.com:443".toList, "*.a.com".toList]) = .ok () ∧
    ManagedBounds .colonless allowingTwo .default ["b.com:443".toList, "*.a.com".toList] := by
  refine ⟨by decide +kernel, managed_allowlist_bounds (forall_mem_cons.mpr ⟨.inl ?_,
    forall_mem_singleton.mpr (.inr ⟨⟨by decide +kernel, by decide +kernel, by decide +kernel⟩,
      fun _ => ?_⟩)⟩)⟩
  · exact ⟨_, mem_cons_self, fun _ h => h⟩
  · exact ⟨_, mem_cons_of_mem _ mem_cons_self,
      ⟨by decide +kernel, by decide +kernel, by decide +kernel⟩, by decide +kernel⟩

/-- Where entries are read alike the comparison makes the managed list a bound. -/
theorem managedBounds_of_readAlike
    (hallowed : ∀ entry ∈ config.network.allowedDomains.getD [], ReadAlike text entry)
    (hmanaged : ∀ pattern ∈ managed, ReadAlike text pattern) :
    ManagedBounds text config constraints managed := by
  refine managedBounds_of_covered fun hvalid glob hglob => ?_
  obtain ⟨entry, hentry, hglob⟩ := mem_flatMap.mp hglob
  obtain ⟨pattern, hpattern, hallows⟩ := any_eq_true.mp (isManaged_of_valid hvalid entry hentry)
  exact covered_of_readAlike (hallowed entry hentry) (hmanaged pattern hpattern) hpattern hallows
    glob hglob

theorem managedBounds_of_readAlike_subdomain :
    validatePolicyAgainstConstraints .colonless (allowingEntry "b.a.com")
      (NetworkProxyConstraints.default.managing ["*.a.com".toList]) = .ok () ∧
    ManagedBounds .colonless (allowingEntry "b.a.com") .default ["*.a.com".toList] :=
  ⟨by decide +kernel, managedBounds_of_readAlike
    (forall_mem_singleton.mpr ⟨by decide +kernel, by decide +kernel, by decide +kernel⟩)
    (forall_mem_singleton.mpr ⟨by decide +kernel, by decide +kernel, by decide +kernel⟩)⟩

end CodexRs.NetworkProxy
