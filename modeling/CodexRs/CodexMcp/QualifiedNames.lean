import CodexRs.CodexMcp.Tools

/-!
# The names are unique, short and legal, in whatever order the tools come

The hash is needed for one thing only: that new attempts lead to new names.
-/
namespace CodexRs.CodexMcp
open Text Base64 FreshName List ToolInfo

section

/-- What tells a tool from the others, with no connector read as the empty one. -/
def ToolInfo.rawIdentity (tool : ToolInfo) : Str × Str × Str × Str × Str :=
  (tool.serverName, tool.callableNamespace, tool.connectorId.getD [], tool.callableName,
    tool.toolName)

structure ToolInfo.NulFree (tool : ToolInfo) : Prop where
  serverName : nul ∉ tool.serverName
  callableNamespace : nul ∉ tool.callableNamespace
  connectorId : nul ∉ tool.connectorId.getD []
  callableName : nul ∉ tool.callableName
  toolName : nul ∉ tool.toolName

/-- A text up to the first separator is read back from the joined text. -/
theorem append_cons_inj {sep : Char} {a b r s : Str} (ha : sep ∉ a) (hb : sep ∉ b)
    (h : a ++ sep :: r = b ++ sep :: s) : a = b ∧ r = s := by
  induction a generalizing b with
  | nil => cases b <;> grind
  | cons c a ih => cases b <;> grind

theorem rawToolIdentity_eq (tool : ToolInfo) :
    tool.rawToolIdentity = tool.serverName ++ nul :: (tool.callableNamespace ++
      nul :: (tool.connectorId.getD [] ++ nul :: (tool.callableName ++ nul :: tool.toolName))) := by
  simp [rawToolIdentity, rawNamespaceIdentity]

theorem rawIdentity_of_rawToolIdentity {tool tool' : ToolInfo} (h : tool.NulFree)
    (h' : tool'.NulFree) (heq : tool.rawToolIdentity = tool'.rawToolIdentity) :
    tool.rawIdentity = tool'.rawIdentity := by
  rw [rawToolIdentity_eq, rawToolIdentity_eq] at heq
  obtain ⟨hserver, heq⟩ := append_cons_inj h.serverName h'.serverName heq
  obtain ⟨hnamespace, heq⟩ := append_cons_inj h.callableNamespace h'.callableNamespace heq
  obtain ⟨hconnector, heq⟩ := append_cons_inj h.connectorId h'.connectorId heq
  obtain ⟨hname, htool⟩ := append_cons_inj h.callableName h'.callableName heq
  simp only [rawIdentity, hserver, hnamespace, hconnector, hname, htool]

variable {tools : List ToolInfo}

theorem nodup_rawToolIdentity (hnul : ∀ tool ∈ tools, tool.NulFree)
    (h : (tools.map rawIdentity).Nodup) :
    (tools.map rawToolIdentity).Nodup := by
  apply Nodup.map_on
  · intro tool htool tool' htool' heq
    exact inj_on_of_nodup_map h htool htool'
      (rawIdentity_of_rawToolIdentity (hnul tool htool) (hnul tool' htool') heq)
  · exact Nodup.of_map _ h

theorem collectCandidates_eq_map {seen : List Str} (h : (tools.map rawToolIdentity).Nodup)
    (hseen : ∀ tool ∈ tools, tool.rawToolIdentity ∉ seen) :
    collectCandidates seen tools = tools.map candidateOf := by
  induction tools generalizing seen with
  | nil => rfl
  | cons tool tools ih =>
    rw [map_cons, nodup_cons] at h
    rw [collectCandidates, if_neg (hseen tool (by simp))]
    congr 1
    apply ih h.2
    grind

end

def Legal (s : Str) : Prop := ∀ c ∈ s, isLegal c = true

theorem Legal.append {s t : Str} (hs : Legal s) (ht : Legal t) : Legal (s ++ t) :=
  forall_mem_append.mpr ⟨hs, ht⟩

theorem Legal.take {s : Str} (hs : Legal s) (n : ℕ) : Legal (s.take n) :=
  fun c hc => hs c (mem_of_mem_take hc)

theorem legal_sanitize (name : Str) : Legal (sanitizeResponsesApiToolName name) := by
  intro c hc
  simp only [sanitizeResponsesApiToolName] at hc
  split_ifs at hc
  · rw [mem_singleton.mp hc]
    rfl
  · obtain ⟨d, -, rfl⟩ := mem_map.mp hc
    split_ifs with hd
    · exact hd
    · rfl

theorem utf8Size_of_isLegal {c : Char} (h : isLegal c = true) : c.utf8Size = 1 := by
  have hlt : c.val.toNat < 128 := by
    simp only [isLegal, Char.isAlphanum, Char.isAlpha, Char.isUpper, Char.isLower, Char.isDigit,
      Bool.or_eq_true, Bool.and_eq_true, decide_eq_true_eq] at h
    rcases h with ((h | h) | h) | rfl
    · exact lt_of_le_of_lt h.2 (by decide)
    · exact lt_of_le_of_lt h.2 (by decide)
    · exact lt_of_le_of_lt h.2 (by decide)
    · decide
  unfold Char.utf8Size
  rw [if_pos]
  exact Nat.le_of_lt_succ hlt

theorem utf8Length_of_legal {s : Str} (h : Legal s) : utf8Length s = s.length := by
  induction s with
  | nil => rfl
  | cons c s ih =>
    obtain ⟨hc, hs⟩ := forall_mem_cons.mp h
    have hc := utf8Size_of_isLegal hc
    have hs := ih hs
    simp only [utf8Length, map_cons, sum_cons, length_cons] at hs ⊢
    omega

/-- What is known of the digest: forty hexadecimal digits in lower case. -/
structure IsHexDigest (sha1Hex : Str → Str) : Prop where
  length (s : Str) : (sha1Hex s).length = 40
  digit (s : Str) : ∀ c ∈ sha1Hex s, c.isDigit = true ∨ ('a' ≤ c ∧ c ≤ 'f')

variable {sha1Hex : Str → Str} {candidate : CallableToolCandidate} {usedNames : List Str}
  {fuel : ℕ}

theorem legal_callableNameHashSuffix (h : IsHexDigest sha1Hex) (rawIdentity : Str) :
    Legal (callableNameHashSuffix sha1Hex rawIdentity) := by
  intro c hc
  rcases mem_cons.mp hc with rfl | hc
  · rfl
  · simp only [isLegal, Char.isAlphanum, Char.isAlpha, Char.isLower, Bool.or_eq_true,
      Bool.and_eq_true, decide_eq_true_eq]
    rcases h.digit rawIdentity c (mem_of_mem_take hc) with hdigit | ⟨hlow, hhigh⟩
    · exact .inl (.inr hdigit)
    · exact .inl (.inl (.inr ⟨hlow, hhigh.trans (by decide)⟩))

theorem length_callableNameHashSuffix (h : IsHexDigest sha1Hex) (rawIdentity : Str) :
    (callableNameHashSuffix sha1Hex rawIdentity).length = 13 := by
  rw [callableNameHashSuffix, length_cons, length_take, h.length]
  rfl

theorem legal_appendNamespaceHashSuffix (h : IsHexDigest sha1Hex) {ns : Str} (hns : Legal ns)
    (rawIdentity : Str) : Legal (appendNamespaceHashSuffix sha1Hex ns rawIdentity) := by
  have hsuffix := legal_callableNameHashSuffix h rawIdentity
  unfold appendNamespaceHashSuffix
  split_ifs
  · apply Legal.append ((hns.take _).append hsuffix)
    intro c hc
    obtain rfl : c = '_' := by simpa [mcpToolNameDelimiter] using hc
    rfl
  · exact hns.append hsuffix

/-- A candidate whose names have legal letters only. -/
structure CallableToolCandidate.IsLegal (candidate : CallableToolCandidate) : Prop where
  ns : Legal candidate.callableNamespace
  name : Legal candidate.callableName

/-- The parts of an attempt are the digits behind something that all attempts share. -/
theorem attemptParts_spec (h : IsHexDigest sha1Hex) (hlegal : candidate.IsLegal) :
    ∃ ns name : Str, Legal ns ∧ Legal name ∧ ns.length + name.length ≤ 51 ∧
      ∀ attempt, attemptParts sha1Hex candidate attempt =
        (ns, name ++ callableNameHashSuffix sha1Hex
          (hashInput candidate.rawToolIdentity attempt)) := by
  have hsuffix : ∀ s, utf8Length (callableNameHashSuffix sha1Hex s) = 13 := fun s =>
    (utf8Length_of_legal (legal_callableNameHashSuffix h s)).trans
      (length_callableNameHashSuffix h s)
  have hns := utf8Length_of_legal hlegal.ns
  simp only [attemptParts, fitCallablePartsWithHash, hsuffix, hns]
  by_cases hroom : 13 ≤ 64 - candidate.callableNamespace.length
  · refine ⟨candidate.callableNamespace,
      candidate.callableName.take (64 - candidate.callableNamespace.length - 13), hlegal.ns,
      hlegal.name.take _, ?_, fun attempt => if_pos hroom⟩
    have := length_take_le (64 - candidate.callableNamespace.length - 13)
      candidate.callableName
    omega
  · refine ⟨candidate.callableNamespace.take (64 - 13), [], hlegal.ns.take _, nofun, ?_,
      fun attempt => if_neg hroom⟩
    have := length_take_le (64 - 13) candidate.callableNamespace
    omega

theorem hashInput_injective (rawIdentity : Str) : Function.Injective (hashInput rawIdentity) := by
  intro a b h
  unfold hashInput at h
  split_ifs at h with ha hb hb
  · rw [ha, hb]
  · have := congrArg length h
    simp at this
  · have := congrArg length h
    simp at this
  · have hrepr := (cons.inj (append_cancel_left h)).2
    exact Nat.repr_inj.mp (String.toList_injective hrepr)

/-- The digits that are kept of their hashes tell the strings apart. -/
def HashesApart (sha1Hex : Str → Str) (strings : List Str) : Prop :=
  Set.InjOn (fun s => (sha1Hex s).take callableNameHashLen) {s | s ∈ strings}

/-- Attempts that hash to different digits lead to different names. -/
theorem injOn_attempts (h : IsHexDigest sha1Hex) (hlegal : candidate.IsLegal) {attempts : List ℕ}
    (hinj : HashesApart sha1Hex (attempts.map (hashInput candidate.rawToolIdentity))) :
    Set.InjOn (fun attempt => qualifiedName (attemptParts sha1Hex candidate attempt))
      {attempt | attempt ∈ attempts} := by
  obtain ⟨ns, name, -, -, -, hparts⟩ := attemptParts_spec h hlegal
  intro a ha b hb hab
  simp only [hparts] at hab
  have hsuffix := append_cancel_left (append_cancel_left hab)
  apply hashInput_injective candidate.rawToolIdentity
  apply hinj
  · exact mem_map_of_mem ha
  · exact mem_map_of_mem hb
  · exact (cons.inj hsuffix).2

/-- The parts that a candidate gets make a short and legal name that is not in use. -/
theorem uniqueCallableParts_spec (h : IsHexDigest sha1Hex) (hlegal : candidate.IsLegal)
    {parts : Str × Str}
    (hparts : uniqueCallableParts sha1Hex fuel candidate usedNames = some parts) :
    qualifiedName parts ∉ usedNames ∧ Legal (qualifiedName parts) ∧
      utf8Length (qualifiedName parts) ≤ maxToolNameLength := by
  unfold uniqueCallableParts at hparts
  split_ifs at hparts with hfits
  · cases hparts
    rw [fitsUnchanged, Bool.and_eq_true, decide_eq_true_eq, decide_eq_true_eq] at hfits
    exact ⟨hfits.2, hlegal.ns.append hlegal.name, hfits.1⟩
  · obtain ⟨attempt, hfresh, rfl⟩ := Option.map_eq_some_iff.mp hparts
    obtain ⟨ns, name, hns, hname, hlength, hspec⟩ := attemptParts_spec h hlegal
    have hsuffix := legal_callableNameHashSuffix h (hashInput candidate.rawToolIdentity attempt)
    have hqualified : Legal (qualifiedName (attemptParts sha1Hex candidate attempt)) := by
      rw [hspec]
      exact hns.append (hname.append hsuffix)
    refine ⟨not_mem_used_of_firstFresh hfresh, hqualified, ?_⟩
    rw [utf8Length_of_legal hqualified, hspec, qualifiedName, length_append,
      length_append, length_callableNameHashSuffix h, maxToolNameLength]
    dsimp only
    omega

theorem uniqueCallableParts_isSome (h : IsHexDigest sha1Hex) (hlegal : candidate.IsLegal)
    (hfuel : usedNames.length < fuel)
    (hinj : fitsUnchanged candidate usedNames = false →
      HashesApart sha1Hex ((tried (fun attempt => qualifiedName (attemptParts sha1Hex candidate
        attempt)) usedNames fuel 0).map (hashInput candidate.rawToolIdentity))) :
    (uniqueCallableParts sha1Hex fuel candidate usedNames).isSome = true := by
  unfold uniqueCallableParts
  split_ifs with hfits
  · rfl
  · rw [Option.isSome_map]
    apply firstFresh_isSome hfuel
    exact injOn_attempts h hlegal (hinj (Bool.not_eq_true _ ▸ hfits))

/-- The entry of a tool: under the name that it shows to the model, and otherwise unchanged. -/
def IsEntryOf (tool : ToolInfo) (entry : Sigma fun _ : Str => ToolInfo) : Prop :=
  entry.1 = entry.2.callableNamespace ++ entry.2.callableName ∧
    entry.2 = renamed tool (entry.2.callableNamespace, entry.2.callableName)

/-- A name as the model may be shown it. -/
def IsGoodName (key : Str) : Prop := utf8Length key ≤ maxToolNameLength ∧ Legal key

theorem nameAll_spec (h : IsHexDigest sha1Hex) {candidates}
    (hlegal : ∀ candidate ∈ candidates, candidate.IsLegal) {qualifiedTools : ToolMap}
    (hused : ∀ key ∈ qualifiedTools.keys, key ∈ usedNames)
    (hfuel : usedNames.length + candidates.length ≤ fuel)
    (hinj : HashesApart sha1Hex (hashedWhileNaming sha1Hex fuel candidates usedNames)) :
    ∃ (result : ToolMap) (entries : List (Sigma fun _ : Str => ToolInfo)),
      nameAll sha1Hex fuel candidates usedNames qualifiedTools = some result ∧
        result.entries.Perm (entries ++ qualifiedTools.entries) ∧
        Forall₂ (fun candidate entry => IsEntryOf candidate.tool entry) candidates entries ∧
        ∀ entry ∈ entries, IsGoodName entry.1 := by
  induction candidates generalizing usedNames qualifiedTools with
  | nil => exact ⟨qualifiedTools, [], rfl, .refl _, .nil, nofun⟩
  | cons candidate candidates ih =>
    obtain ⟨hcandidate, hlegal⟩ := forall_mem_cons.mp hlegal
    rw [length_cons] at hfuel
    have hsome : (uniqueCallableParts sha1Hex fuel candidate usedNames).isSome = true := by
      apply uniqueCallableParts_isSome h hcandidate
      · omega
      · intro hfits
        apply hinj.mono
        intro s hs
        rw [hashedWhileNaming, if_neg (by simp [hfits])]
        exact mem_append_left _ hs
    obtain ⟨parts, hparts⟩ := Option.isSome_iff_exists.mp hsome
    obtain ⟨hfresh, hgood, hshort⟩ := uniqueCallableParts_spec h hcandidate hparts
    have hnew : qualifiedName parts ∉ qualifiedTools.keys := fun hmem => hfresh (hused _ hmem)
    have hkeys : ∀ key ∈ (qualifiedTools.insert (qualifiedName parts)
        (renamed candidate.tool parts)).keys, key ∈ qualifiedName parts :: usedNames := by
      intro key hkey
      rcases (AList.mem_insert _).mp (AList.mem_keys.mpr hkey) with rfl | hkey
      · exact mem_cons_self
      · exact mem_cons_of_mem _ (hused key (AList.mem_keys.mp hkey))
    have hrest : HashesApart sha1Hex (hashedWhileNaming sha1Hex fuel candidates
        (qualifiedName parts :: usedNames)) := by
      apply hinj.mono
      intro s hs
      rw [hashedWhileNaming, hparts]
      exact mem_append_right _ hs
    obtain ⟨result, entries, hresult, hperm, hentries, hnames⟩ := ih hlegal hkeys
      (by rw [length_cons]; omega) hrest
    refine ⟨result, ⟨qualifiedName parts, renamed candidate.tool parts⟩ :: entries, ?_, ?_,
      .cons ⟨rfl, rfl⟩ hentries, ?_⟩
    · rw [nameAll, hparts]
      exact hresult
    · rw [AList.entries_insert_of_notMem hnew] at hperm
      exact hperm.trans perm_middle
    · exact forall_mem_cons.mpr ⟨⟨hshort, hgood⟩, hnames⟩

section
variable {candidates candidates' : List CallableToolCandidate} {tools tools' : List ToolInfo}

theorem map_tool_hashCollidingNamespaces (candidates : List CallableToolCandidate) :
    (hashCollidingNamespaces sha1Hex candidates).map (·.tool) = candidates.map (·.tool) := by
  rw [hashCollidingNamespaces, map_map]
  apply map_congr_left
  intro candidate _
  simp only [Function.comp_apply]
  split_ifs <;> rfl

theorem map_tool_hashCollidingTools (candidates : List CallableToolCandidate) :
    (hashCollidingTools sha1Hex candidates).map (·.tool) = candidates.map (·.tool) := by
  rw [hashCollidingTools, map_map]
  apply map_congr_left
  intro candidate _
  simp only [Function.comp_apply]
  split_ifs <;> rfl

/-- The identity that a candidate carries is that of its tool. -/
def Identified (candidate : CallableToolCandidate) : Prop :=
  candidate.rawToolIdentity = candidate.tool.rawToolIdentity

theorem forall_mem_map_ite {α : Type*} {P : α → Prop} {xs : List α} (hall : ∀ x ∈ xs, P x)
    {q : α → Prop} [DecidablePred q] {f : α → α} (hf : ∀ x, P x → P (f x)) :
    ∀ y ∈ xs.map fun x => if q x then f x else x, P y := by
  intro y hy
  obtain ⟨x, hx, rfl⟩ := mem_map.mp hy
  split_ifs
  · exact hf x (hall x hx)
  · exact hall x hx

section
variable (h : IsHexDigest sha1Hex)
  (hall : ∀ candidate ∈ candidates, candidate.IsLegal ∧ Identified candidate)
include h hall

theorem hashCollidingNamespaces_spec : ∀ candidate ∈ hashCollidingNamespaces sha1Hex candidates,
    candidate.IsLegal ∧ Identified candidate := by
  refine forall_mem_map_ite hall fun _ ⟨hlegal, hidentified⟩ => ⟨⟨?_, hlegal.name⟩, hidentified⟩
  exact legal_appendNamespaceHashSuffix h hlegal.ns _

theorem hashCollidingTools_spec : ∀ candidate ∈ hashCollidingTools sha1Hex candidates,
    candidate.IsLegal ∧ Identified candidate := by
  refine forall_mem_map_ite hall fun _ ⟨hlegal, hidentified⟩ => ⟨⟨hlegal.ns, ?_⟩, hidentified⟩
  exact hlegal.name.append (legal_callableNameHashSuffix h _)

end

theorem hashCollidingNamespaces_perm (h : candidates.Perm candidates') :
    (hashCollidingNamespaces sha1Hex candidates).Perm
      (hashCollidingNamespaces sha1Hex candidates') := by
  have hsame : collidingNamespace candidates = collidingNamespace candidates' := by
    funext ns
    simp only [collidingNamespace, (((h.filter _).map _).dedup).length_eq]
  unfold hashCollidingNamespaces
  rw [hsame]
  exact h.map _

theorem hashCollidingTools_perm (h : candidates.Perm candidates') :
    (hashCollidingTools sha1Hex candidates).Perm (hashCollidingTools sha1Hex candidates') := by
  have hsame : collidingTool candidates = collidingTool candidates' := by
    funext ns name
    simp only [collidingTool, (((h.filter _).map _).dedup).length_eq]
  unfold hashCollidingTools
  rw [hsame]
  exact h.map _

/-- The candidates of the tools, before they are put in order. -/
def hashedCandidates (sha1Hex : Str → Str) (tools : List ToolInfo) : List CallableToolCandidate :=
  hashCollidingTools sha1Hex (hashCollidingNamespaces sha1Hex (tools.map candidateOf))

theorem orderedCandidates_perm (sha1Hex : Str → Str) (h : (tools.map rawToolIdentity).Nodup) :
    (orderedCandidates sha1Hex tools).Perm (hashedCandidates sha1Hex tools) := by
  unfold orderedCandidates
  rw [collectCandidates_eq_map h fun _ _ => not_mem_nil]
  exact perm_insertionSort _ _

theorem hashedCandidates_spec (h : IsHexDigest sha1Hex) (tools : List ToolInfo) :
    ∀ candidate ∈ hashedCandidates sha1Hex tools, candidate.IsLegal ∧ Identified candidate := by
  apply hashCollidingTools_spec h
  apply hashCollidingNamespaces_spec h
  intro candidate hmem
  obtain ⟨tool, -, rfl⟩ := mem_map.mp hmem
  exact ⟨⟨legal_sanitize _, legal_sanitize _⟩, rfl⟩

theorem map_tool_hashedCandidates (sha1Hex : Str → Str) (tools : List ToolInfo) :
    (hashedCandidates sha1Hex tools).map (·.tool) = tools := by
  rw [hashedCandidates, map_tool_hashCollidingTools, map_tool_hashCollidingNamespaces, map_map]
  exact map_id tools

theorem pairwise_orderedCandidates (tools : List ToolInfo) :
    (orderedCandidates sha1Hex tools).Pairwise fun left right =>
      left.rawToolIdentity ≤ right.rawToolIdentity := by
  let r := fun left right : CallableToolCandidate => left.rawToolIdentity ≤ right.rawToolIdentity
  exact pairwise_insertionSort r _

/-- Tools in another order lead to the same candidates in the same order. -/
theorem orderedCandidates_eq_of_perm (hsha : IsHexDigest sha1Hex)
    (h : (tools.map rawToolIdentity).Nodup) (hperm : tools'.Perm tools) :
    orderedCandidates sha1Hex tools' = orderedCandidates sha1Hex tools := by
  have h' : (tools'.map rawToolIdentity).Nodup := (hperm.map _).nodup_iff.mpr h
  have hhashed : (hashedCandidates sha1Hex tools').Perm (hashedCandidates sha1Hex tools) :=
    hashCollidingTools_perm (hashCollidingNamespaces_perm (hperm.map _))
  have hidentities : (hashedCandidates sha1Hex tools).map (·.rawToolIdentity) =
      tools.map rawToolIdentity := by
    conv_rhs => rw [← map_tool_hashedCandidates sha1Hex tools, map_map]
    apply map_congr_left
    exact fun candidate hmem => (hashedCandidates_spec hsha tools candidate hmem).2
  have hleft := (orderedCandidates_perm sha1Hex h').trans hhashed
  have hright := orderedCandidates_perm sha1Hex h
  apply Perm.eq_of_pairwise _ (pairwise_orderedCandidates tools')
    (pairwise_orderedCandidates tools) (hleft.trans hright.symm)
  intro a b ha hb hab hba
  exact inj_on_of_nodup_map (hidentities ▸ h) (hleft.subset ha) (hright.subset hb)
    (le_antisymm hab hba)

end

/-- Every tool gets one entry, under a short, legal name of its own, whatever the order of the
tools. The hash is injective on what is hashed. -/
theorem qualifyTools_names {tools : List ToolInfo} (hsha : IsHexDigest sha1Hex)
    (hnul : ∀ tool ∈ tools, tool.NulFree) (hdistinct : (tools.map ToolInfo.rawIdentity).Nodup)
    (hfuel : tools.length ≤ fuel) (hinj : HashesApart sha1Hex (hashedStrings sha1Hex fuel tools)) :
    ∃ result, qualifyTools sha1Hex fuel tools = some result ∧
      (∃ entries, result.entries.Perm entries ∧ List.Forall₂ IsEntryOf tools entries) ∧
      (∀ key ∈ result.keys, IsGoodName key) ∧
      ∀ tools', tools'.Perm tools → qualifyTools sha1Hex fuel tools' = some result := by
  have hidentities := nodup_rawToolIdentity hnul hdistinct
  have hordered := orderedCandidates_perm sha1Hex hidentities
  have hlegal : ∀ candidate ∈ orderedCandidates sha1Hex tools, candidate.IsLegal :=
    fun candidate hmem => (hashedCandidates_spec hsha tools candidate (hordered.subset hmem)).1
  have htools : ((orderedCandidates sha1Hex tools).map (·.tool)).Perm tools := by
    have := hordered.map (·.tool)
    rwa [map_tool_hashedCandidates] at this
  have hlength : (orderedCandidates sha1Hex tools).length ≤ fuel := by
    rw [← length_map (·.tool), htools.length_eq]
    exact hfuel
  have hnaming : HashesApart sha1Hex
      (hashedWhileNaming sha1Hex fuel (orderedCandidates sha1Hex tools) []) :=
    hinj.mono fun s hs => mem_append_right _ hs
  have hnone : ∀ key ∈ (∅ : ToolMap).keys, key ∈ ([] : List Str) := fun key hkey => hkey
  have hroom : ([] : List Str).length + (orderedCandidates sha1Hex tools).length ≤ fuel := by
    rw [length_nil, Nat.zero_add]
    exact hlength
  obtain ⟨result, entries, hresult, hperm, hentries, hnames⟩ :=
    nameAll_spec hsha hlegal hnone hroom hnaming
  rw [show (∅ : ToolMap).entries = [] from rfl, append_nil] at hperm
  refine ⟨result, hresult, ?_, ?_, ?_⟩
  · have hnamed : Forall₂ IsEntryOf ((orderedCandidates sha1Hex tools).map (·.tool)) entries :=
      forall₂_map_left_iff.mpr hentries
    obtain ⟨entries', hentries', hperm'⟩ := perm_comp_forall₂ htools.symm hnamed
    exact ⟨entries', hperm.trans hperm'.symm, hentries'⟩
  · intro key hkey
    obtain ⟨entry, hentry, rfl⟩ := mem_map.mp hkey
    exact hnames entry (hperm.subset hentry)
  · intro tools' hperm'
    rw [qualifyTools, orderedCandidates_eq_of_perm hsha hidentities hperm']
    exact hresult

def dashTool : ToolInfo :=
  ⟨"s".toList, "mcp__s__".toList, "a-b".toList, none, "a-b".toList⟩

def dotTool : ToolInfo :=
  ⟨"s".toList, "mcp__s__".toList, "a.b".toList, none, "a.b".toList⟩

/-- The digests of the identities of the two tools; of other texts, none that is needed. -/
def twoDigests (s : Str) : Str :=
  if s = dashTool.rawToolIdentity then "644e2c708d7ae57bc4bc798006a10bbf0c84275d".toList
  else if s = dotTool.rawToolIdentity then "05ebae946fe03615e6aa23baca03fd8371be13eb".toList
  else replicate 40 '0'

theorem isHexDigest_twoDigests : IsHexDigest twoDigests where
  length s := by
    unfold twoDigests
    split_ifs <;> rfl
  digit s := by
    have hall : ∀ digest : Str,
        digest.all (fun c => c.isDigit || (decide ('a' ≤ c) && decide (c ≤ 'f'))) = true →
          ∀ c ∈ digest, c.isDigit = true ∨ ('a' ≤ c ∧ c ≤ 'f') := by
      intro digest h c hc
      simpa using all_eq_true.mp h c hc
    apply hall
    unfold twoDigests
    split_ifs <;> decide +kernel

/-- The names of two tools become the same, so both get digits. -/
theorem qualifyTools_names_twoTools :
    ∃ result, qualifyTools twoDigests 2 [dashTool, dotTool] = some result ∧
      result.keys = ["mcp__s__a_b_05ebae946fe0".toList, "mcp__s__a_b_644e2c708d7a".toList] ∧
      (∃ entries, result.entries.Perm entries ∧
        List.Forall₂ IsEntryOf [dashTool, dotTool] entries) ∧
      qualifyTools twoDigests 2 [dotTool, dashTool] = some result := by
  have hnul : ∀ tool ∈ [dashTool, dotTool], tool.NulFree := by
    refine forall_mem_cons.mpr ⟨?_, forall_mem_singleton.mpr ?_⟩ <;>
      exact ⟨by decide, by decide, by decide, by decide, by decide⟩
  have hdistinct : ([dashTool, dotTool].map rawIdentity).Nodup := by decide
  have hhashed : hashedStrings twoDigests 2 [dashTool, dotTool] =
      [dashTool.rawToolIdentity, dotTool.rawToolIdentity] := by decide +kernel
  have hinj : HashesApart twoDigests (hashedStrings twoDigests 2 [dashTool, dotTool]) := by
    have hdiffer : ∀ s ∈ [dashTool.rawToolIdentity, dotTool.rawToolIdentity],
        ∀ t ∈ [dashTool.rawToolIdentity, dotTool.rawToolIdentity],
          (twoDigests s).take callableNameHashLen = (twoDigests t).take callableNameHashLen →
            s = t := by decide +kernel
    exact fun s hs t ht => hdiffer s hs t ht
  have htwo : [dashTool, dotTool].length ≤ 2 := le_rfl
  obtain ⟨result, hresult, hentries, -, hperm⟩ :=
    qualifyTools_names isHexDigest_twoDigests hnul hdistinct htwo hinj
  have hkeys : (qualifyTools twoDigests 2 [dashTool, dotTool]).map AList.keys =
      some ["mcp__s__a_b_05ebae946fe0".toList, "mcp__s__a_b_644e2c708d7a".toList] := by
    decide +kernel
  rw [hresult] at hkeys
  exact ⟨result, hresult, Option.some.inj hkeys, hentries, hperm _ (.swap ..)⟩

end CodexRs.CodexMcp
