import CodexRs.Core.AgentSlots

/-!
# Nicknames of agents

The set of used nicknames forgets its names whenever the candidates run out.
-/
namespace CodexRs.Core.Agents
open Text Tasks Machine AgentRegistry List

/-- The name has no ordinal behind it. -/
def NoOrdinal (name : Str) : Prop :=
  ∀ base resetCount, resetCount ≠ 0 → name ≠ formatAgentNickname base resetCount

/-- The nickname is one that candidates get only after more resets. -/
def Later (resetCount : ℕ) (nickname : Str) : Prop :=
  ∃ name count, NoOrdinal name ∧ resetCount < count ∧ nickname = formatAgentNickname name count

theorem length_ordinalSuffix (value : ℕ) : (ordinalSuffix value).length = 2 := by
  unfold ordinalSuffix
  split_ifs
  · rfl
  · split <;> rfl

theorem formatAgentNickname_of_ne_zero (name : Str) {count : ℕ} (h : count ≠ 0) :
    formatAgentNickname name count =
      name ++ " the ".toList ++ (toString (count + 1)).toList ++ ordinalSuffix (count + 1) := by
  cases count with
  | zero => exact absurd rfl h
  | succ count => rfl

/-- Behind the article, digits are what a text ends with. -/
theorem rtakeWhile_digits (s : Str) {digits : Str} (h : ∀ c ∈ digits, c.isDigit = true) :
    (s ++ " the ".toList ++ digits).rtakeWhile Char.isDigit = digits := by
  induction digits using reverseRecOn with
  | nil => simp
  | append_singleton digits c ih =>
    obtain ⟨hdigits, hc⟩ := forall_mem_append.mp h
    rw [← append_assoc, rtakeWhile_concat_pos _ _ c (hc c (by simp)), ih hdigits]

theorem isDigit_of_mem_toString (n : ℕ) : ∀ c ∈ (toString n).toList, c.isDigit = true := by
  intro c hc
  rw [Nat.toString_eq_ofList_toDigits, String.toList_ofList] at hc
  exact Nat.isDigit_of_mem_toDigits (by decide) (by decide) hc

/-- Where the name has no ordinal, the count is the one in the text. -/
theorem not_later_format {name : Str} (hname : NoOrdinal name) (m : ℕ) :
    ¬ Later m (formatAgentNickname name m) := by
  rintro ⟨other, n, -, hlt, h⟩
  have hn : n ≠ 0 := by omega
  by_cases hm : m = 0
  · subst hm
    exact hname other n hn h
  · rw [formatAgentNickname_of_ne_zero name hm, formatAgentNickname_of_ne_zero other hn] at h
    have hdigits := (append_inj' h (by simp only [length_ordinalSuffix])).1
    have hsame := congrArg (rtakeWhile Char.isDigit) hdigits
    rw [rtakeWhile_digits name (isDigit_of_mem_toString _),
      rtakeWhile_digits other (isDigit_of_mem_toString _)] at hsame
    have hvalue : m + 1 = n + 1 := Nat.repr_inj.mp (String.toList_injective hsame)
    omega

theorem Later.mono {m n : ℕ} {nickname : Str} (hle : m ≤ n) (h : Later n nickname) :
    Later m nickname := by
  obtain ⟨name, count, hname, hlt, rfl⟩ := h
  exact ⟨name, count, hname, hle.trans_lt hlt, rfl⟩

variable {ι ThreadId : Type*} {registry s : AgentRegistry ThreadId}

section

def markUsed (registry : AgentRegistry ThreadId) (nickname : Str) : AgentRegistry ThreadId :=
  { registry with usedAgentNicknames := nickname :: registry.usedAgentNicknames }

def resetPool (registry : AgentRegistry ThreadId) : AgentRegistry ThreadId :=
  { registry with
    usedAgentNicknames := [], nicknameResetCount := registry.nicknameResetCount + 1 }

/-- What a reservation of a nickname leaves and gives. -/
inductive Reserved (registry : AgentRegistry ThreadId) (names : List Str) :
    Option Str → AgentRegistry ThreadId → Option Str → Prop
  | nothing : Reserved registry names none registry none
  | preferred (nickname : Str) :
      Reserved registry names (some nickname) (markUsed registry nickname) (some nickname)
  | available {name nickname : Str} (hmem : name ∈ names)
      (heq : nickname = formatAgentNickname name registry.nicknameResetCount)
      (hunused : nickname ∉ registry.usedAgentNicknames) :
      Reserved registry names none (markUsed registry nickname) (some nickname)
  | reset {name nickname : Str} (hmem : name ∈ names)
      (heq : nickname = formatAgentNickname name (registry.nicknameResetCount + 1)) :
      Reserved registry names none (markUsed (resetPool registry) nickname) (some nickname)

theorem reserved_reserveAgentNickname (registry : AgentRegistry ThreadId) (names : List Str)
    (preferred : Option Str) (pick : ℕ) :
    Reserved registry names preferred (registry.reserveAgentNickname names preferred pick).1
      (registry.reserveAgentNickname names preferred pick).2 := by
  unfold reserveAgentNickname
  cases preferred with
  | some nickname => exact .preferred nickname
  | none =>
    by_cases hnames : names = []
    · rw [if_pos hnames]
      exact .nothing
    rw [if_neg hnames, chooseNickname]
    cases havailable : chooseAny (registry.availableNames names) pick with
    | some nickname =>
      obtain ⟨hmem, hunused⟩ := mem_filter.mp (mem_of_getElem? havailable)
      obtain ⟨name, hname, rfl⟩ := mem_map.mp hmem
      exact .available hname rfl (of_decide_eq_true hunused)
    | none =>
      have hlt : pick % names.length < names.length := Nat.mod_lt _ (length_pos_iff.mpr hnames)
      rw [chooseAny, getElem?_eq_getElem hlt]
      exact .reset (getElem_mem hlt) rfl

variable {names : List Str} {preferred result : Option Str}

theorem Reserved.count_le (h : Reserved registry names preferred s result) :
    registry.nicknameResetCount ≤ s.nicknameResetCount := by
  cases h with
  | reset => exact Nat.le_succ _
  | _ => exact le_rfl

/-- An agent of the table has the nickname. -/
def Bears (registry : AgentRegistry ThreadId) (nickname : Str) : Prop :=
  ∃ key metadata, registry.agentTree.lookup key = some metadata ∧
    metadata.agentNickname = some nickname

theorem Bears.of_insertAgent {key nickname : Str} {metadata : AgentMetadata ThreadId}
    (h : Bears (registry.insertAgent key metadata) nickname) :
    metadata.agentNickname = some nickname ∨ Bears registry nickname := by
  obtain ⟨other, found, hlookup, hnickname⟩ := h
  rw [insertAgent, Table.lookup_insert_eq_ite] at hlookup
  split_ifs at hlookup
  · cases hlookup
    exact .inl hnickname
  · exact .inr ⟨other, found, hlookup, hnickname⟩

theorem Bears.of_removeAgent {key nickname : Str} (h : Bears (registry.removeAgent key) nickname) :
    Bears registry nickname := by
  obtain ⟨other, found, hlookup, hnickname⟩ := h
  exact ⟨other, found, (Table.lookup_of_lookup_erase hlookup).2, hnickname⟩

/-- A nickname that is still to come is borne by nobody, and one that may be chosen now is
borne only if it is marked as used. -/
def Marked (registry : AgentRegistry ThreadId) : Prop :=
  ∀ nickname, Bears registry nickname → ¬ Later registry.nicknameResetCount nickname ∧
    ∀ name, NoOrdinal name → nickname = formatAgentNickname name registry.nicknameResetCount →
      nickname ∈ registry.usedAgentNicknames

theorem Marked.reserve (h : Marked registry)
    (hreserved : Reserved registry names preferred s result) : Marked s := by
  intro nickname hbears
  cases hreserved with
  | nothing => exact h nickname hbears
  | preferred | available =>
    obtain ⟨hlater, hused⟩ := h nickname hbears
    exact ⟨hlater, fun name hname heq => mem_cons_of_mem _ (hused name hname heq)⟩
  | reset =>
    -- what is borne then has none of the ordinals to come, so that it need not be marked
    have hlater := (h nickname hbears).1
    refine ⟨fun hlate => hlater (hlate.mono (Nat.le_succ _)), fun name hname heq => ?_⟩
    exact absurd ⟨name, _, hname, Nat.lt_succ_self _, heq⟩ hlater

end

variable {display : ThreadId → Str} {action : Action ThreadId} {t t' : Caller}

/-- The caller has reserved the nickname. -/
def HoldsNickname (caller : Caller) (nickname : Str) : Prop :=
  ∃ reservation, caller = .holding reservation ∧ reservation.reservedAgentNickname = some nickname

/-- Candidates have no ordinals, and no other nickname that is reserved or committed has one
that is still to come. -/
def NicknameTurn (c : AgentConfig ι ThreadId) (turn : Turn ι (Action ThreadId)) : Prop :=
  match turn.action, c.task turn.task with
  | .reserveAgentNickname names none _, _ => ∀ name ∈ names, NoOrdinal name
  | .reserveAgentNickname _ (some preferred) _, _ => ¬ Later c.shared.nicknameResetCount preferred
  | .commit metadata, caller => ∀ nickname, metadata.agentNickname = some nickname →
    HoldsNickname caller nickname ∨ ¬ Later c.shared.nicknameResetCount nickname
  | _, _ => True

/-- A section that neither gives nor takes a nickname. -/
structure Quiet (registry s : AgentRegistry ThreadId) (t t' : Caller) : Prop where
  used : s.usedAgentNicknames = registry.usedAgentNicknames
  count : s.nicknameResetCount = registry.nicknameResetCount
  bears : ∀ nickname, Bears s nickname → Bears registry nickname
  holds : ∀ nickname, HoldsNickname t' nickname → HoldsNickname t nickname

variable [DecidableEq ThreadId]

attribute [local grind] HoldsNickname tryIncrementSpawned in
theorem callerSection_nickname (h : callerSection display action registry t = some (s, t')) :
    Quiet registry s t t' ∨
    (∃ names preferred pick result, action = .reserveAgentNickname names preferred pick ∧
      Reserved registry names preferred s result ∧
      ∀ nickname, HoldsNickname t' nickname → HoldsNickname t nickname ∨ result = some nickname) ∨
    ∃ metadata reservation, action = .commit metadata ∧ t = .holding reservation ∧
      t' = .committed ∧ s = registerSpawnedThread display registry metadata := by
  unfold callerSection at h
  split at h
  case h_4 names preferred pick reservation =>
    have hreserved := reserved_reserveAgentNickname registry names preferred pick
    refine .inr (.inl ⟨names, preferred, pick, (registry.reserveAgentNickname names preferred pick).2,
      rfl, ?_⟩)
    split at h <;> rename_i heq <;> cases h <;> rw [heq] at hreserved ⊢
    · exact ⟨hreserved, fun _ h => .inl h⟩
    · exact ⟨hreserved, by grind⟩
  case h_7 metadata reservation =>
    cases h
    exact .inr (.inr ⟨metadata, reservation, rfl, rfl, rfl, rfl⟩)
  all_goals left
  case h_5 path reservation =>
    split_ifs at h
    cases h
    exact ⟨rfl, rfl, fun _ h => h.of_insertAgent.resolve_left nofun, by grind⟩
  case h_8 path =>
    cases h
    rw [releaseReservedAgentPath]
    split_ifs
    · exact ⟨rfl, rfl, fun _ h => h.of_removeAgent, by grind⟩
    · exact ⟨rfl, rfl, fun _ h => h, by grind⟩
  case h_11 threadId =>
    cases h
    rw [registerRootThread]
    split_ifs
    · exact ⟨rfl, rfl, fun _ h => h, by grind⟩
    · exact ⟨rfl, rfl, fun _ h => h.of_insertAgent.resolve_left nofun, by grind⟩
  case h_13 threadId key =>
    split at h
    · cases h
    · split_ifs at h <;> cases h <;> exact ⟨rfl, rfl, fun _ h => h.of_removeAgent, by grind⟩
  case h_15 => cases h
  -- nothing but the counter of slots changes
  all_goals
    first
    | (cases h; exact ⟨rfl, rfl, fun _ h => h, by grind⟩)
    | (split_ifs at h <;> cases h <;> exact ⟨rfl, rfl, fun _ h => h, by grind⟩)

omit [DecidableEq ThreadId] in
theorem registerSpawnedThread_nickname (metadata : AgentMetadata ThreadId) :
    let s := registerSpawnedThread display registry metadata
    s.nicknameResetCount = registry.nicknameResetCount ∧
      (∀ nickname ∈ registry.usedAgentNicknames, nickname ∈ s.usedAgentNicknames) ∧
      ∀ nickname, Bears s nickname → Bears registry nickname ∨
        metadata.agentNickname = some nickname ∧ nickname ∈ s.usedAgentNicknames := by
  unfold registerSpawnedThread
  cases metadata.agentId with
  | none => exact ⟨rfl, fun _ h => h, fun _ h => .inl h⟩
  | some threadId =>
    refine ⟨rfl, ?_, fun nickname h => ?_⟩
    · cases metadata.agentNickname with
      | none => exact fun _ h => h
      | some nickname => exact fun _ h => mem_cons_of_mem _ h
    · rcases h.of_insertAgent with hown | hbears
      · refine .inr ⟨hown, ?_⟩
        rw [hown]
        exact mem_cons_self
      · exact .inl hbears

/-- The table and the reservations never run ahead of the ordinals. -/
theorem kept_marked : Kept (fun _ : ι => callerSection display) NicknameTurn Marked
    fun _ registry caller => ∀ nickname, HoldsNickname caller nickname →
      ¬ Later registry.nicknameResetCount nickname := by
  refine .ofRely (R := fun _ registry s => registry.nicknameResetCount ≤ s.nicknameResetCount)
    ?_ ?_ ?_
  · intro c i action s t hmarked hheld hallowed hsec
    rcases callerSection_nickname hsec with
      hquiet | ⟨names, preferred, pick, result, rfl, hreserved, hholds⟩ |
      ⟨metadata, -, rfl, -, rfl, rfl⟩
    · constructor
      · intro nickname hbears
        rw [hquiet.count, hquiet.used]
        exact hmarked nickname (hquiet.bears nickname hbears)
      · intro nickname hnickname
        rw [hquiet.count]
        exact hheld i nickname (hquiet.holds nickname hnickname)
    · refine ⟨hmarked.reserve hreserved, fun nickname hnickname => ?_⟩
      rcases hholds nickname hnickname with hold | rfl
      · exact fun hlate => hheld i nickname hold (hlate.mono hreserved.count_le)
      · cases hreserved with
        | preferred => exact hallowed
        | available hmem heq | reset hmem heq => exact heq ▸ not_later_format (hallowed _ hmem) _
    · obtain ⟨hcount, hused, hbears⟩ := @registerSpawnedThread_nickname _ c.shared display metadata
      refine ⟨fun nickname hborne => ?_, fun nickname ⟨_, h, _⟩ => nomatch h⟩
      rw [hcount]
      rcases hbears nickname hborne with hbefore | ⟨hnew, hmem⟩
      · obtain ⟨hlater, hmarks⟩ := hmarked nickname hbefore
        exact ⟨hlater, fun name hname heq => hused _ (hmarks name hname heq)⟩
      · exact ⟨(hallowed nickname hnew).elim (hheld i nickname) id, fun _ _ _ => hmem⟩
  · intro c i j action s t _ _ _ hsec
    rcases callerSection_nickname hsec with
      hquiet | ⟨names, preferred, pick, result, -, hreserved, -⟩ | ⟨metadata, -, -, -, -, rfl⟩
    · exact hquiet.count.ge
    · exact hreserved.count_le
    · exact (registerSpawnedThread_nickname metadata).1.ge
  · intro j registry s t hle hheld nickname hnickname hlate
    exact hheld nickname hnickname (hlate.mono hle)

/-- A nickname that is chosen from candidates differs from that of every agent in the table. -/
theorem chosen_nickname_unused [DecidableEq ι] {turns : List (Turn ι (Action ThreadId))}
    {c : AgentConfig ι ThreadId}
    (hrun : Run (Step (fun _ => callerSection display) NicknameTurn) start turns c)
    {names : List Str} (hnames : ∀ name ∈ names, NoOrdinal name) (pick : ℕ) {nickname : Str}
    (h : (c.shared.reserveAgentNickname names none pick).2 = some nickname) :
    ∀ key metadata, c.shared.agentTree.lookup key = some metadata →
      metadata.agentNickname ≠ some nickname := by
  have hstart : Marked (start : AgentConfig ι ThreadId).shared := fun _ ⟨_, _, h, _⟩ => nomatch h
  have hmarked := (kept_marked.run hrun ⟨hstart, fun _ _ ⟨_, h, _⟩ => nomatch h⟩).1
  have hreserved := reserved_reserveAgentNickname c.shared names none pick
  rw [h] at hreserved
  generalize (c.shared.reserveAgentNickname names none pick).1 = s at hreserved
  intro key metadata hlookup hsame
  obtain ⟨hlater, hused⟩ := hmarked nickname ⟨key, metadata, hlookup, hsame⟩
  cases hreserved with
  | available hmem heq hunused => exact hunused (hused _ (hnames _ hmem) heq)
  | reset hmem heq => exact hlater ⟨_, _, hnames _ hmem, Nat.lt_succ_self _, heq⟩

theorem noOrdinal_plato : NoOrdinal "Plato".toList := by
  intro base count hcount h
  have hlast := congrArg getLast? h
  rw [formatAgentNickname_of_ne_zero base hcount, getLast?_append, ordinalSuffix] at hlast
  split_ifs at hlast
  · cases hlast
  · split at hlast <;> cases hlast

theorem chosen_nickname_unused_plato : ∃ c : AgentConfig ℕ ℕ, ∃ chosen,
    (c.shared.agentTree.lookup "thread:".toList).bind AgentMetadata.agentNickname =
      some "Plato".toList ∧
    (c.shared.reserveAgentNickname ["Plato".toList] none 0).2 = some chosen ∧
    ∀ key metadata, c.shared.agentTree.lookup key = some metadata →
      metadata.agentNickname ≠ some chosen := by
  have hnames : ∀ name ∈ ["Plato".toList], NoOrdinal name := forall_mem_singleton.mpr noOrdinal_plato
  have hrun : Run (Step (fun _ => callerSection fun n : ℕ => replicate n 'i') NicknameTurn)
      (start : AgentConfig ℕ ℕ)
      [⟨0, .reserveSpawnSlot none⟩, ⟨0, .reserveAgentNickname ["Plato".toList] none 0⟩,
        ⟨0, .commit ⟨some 0, none, some "Plato".toList⟩⟩] _ :=
    .cons ⟨trivial, rfl⟩ (.cons ⟨hnames, rfl⟩ (.cons ⟨fun _ h => .inl ⟨_, rfl, h⟩, rfl⟩ (.nil _)))
  exact ⟨_, "Plato the 2nd".toList, by decide +kernel, rfl, chosen_nickname_unused hrun hnames 0 rfl⟩

/-- A resumed agent is called `Plato the 2nd` when the only candidate `Plato` is given twice. -/
theorem chosen_nickname_of_resumed :
    let take := Config.take (fun _ : ℕ => callerSection fun n : ℕ => replicate n 'i')
    let nickname := "Plato the 2nd".toList
    let turns : List (Turn ℕ (Action ℕ)) :=
      [⟨0, .reserveSpawnSlot none⟩, ⟨0, .reserveAgentNickname [] (some nickname) 0⟩,
        ⟨0, .commit ⟨some 0, none, some nickname⟩⟩, ⟨1, .reserveSpawnSlot none⟩,
        ⟨1, .reserveAgentNickname ["Plato".toList] none 0⟩]
    NoOrdinal "Plato".toList ∧ (turns.foldlM take start).map (fun c =>
      ((c.shared.agentTree.lookup "thread:".toList).bind AgentMetadata.agentNickname,
        (c.shared.reserveAgentNickname ["Plato".toList] none 0).2)) =
      some (some nickname, some nickname) :=
  ⟨noOrdinal_plato, by decide +kernel⟩

end CodexRs.Core.Agents
