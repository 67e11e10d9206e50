import CodexRs.Core.AgentRegistry

/-!
# Slots are accounted exactly

Every slot belongs to a reservation, to an agent in the table, or to a release under way.
-/
namespace CodexRs.Core.Agents
open Text Tasks Machine AgentMetadata AgentRegistry Function Option

variable {ι ThreadId : Type*}

abbrev AgentConfig (ι ThreadId : Type*) := Config ι (AgentRegistry ThreadId) Caller

def start : AgentConfig ι ThreadId := ⟨.empty, fun _ => .idle⟩

section
variable [DecidableEq ThreadId]

/-- No agent in the table has the id. -/
def isFresh (tree : AgentTree ThreadId) (threadId : ThreadId) : Bool :=
  tree.entries.all fun entry => entry.2.agentId ≠ some threadId

variable (c : AgentConfig ι ThreadId) (turn : Turn ι (Action ThreadId))

/-- A commit carries a fresh id and the path its reservation holds. -/
def commitsOwn : Bool :=
  match turn.action, c.task turn.task with
  | .commit metadata, .holding reservation =>
    metadata.agentId.any (isFresh c.shared.agentTree) &&
      metadata.agentPath = reservation.reservedAgentPath
  | _, _ => true

/-- A reservation takes one path at most, and not that of the root. -/
def reservesOnePath : Bool :=
  match turn.action, c.task turn.task with
  | .reserveAgentPath path, .holding reservation =>
    reservation.reservedAgentPath = none && !path.isRoot
  | _, _ => true

def AllowedTurn : Prop :=
  commitsOwn c turn = true ∧ reservesOnePath c turn = true

instance (c : AgentConfig ι ThreadId) (turn : Turn ι (Action ThreadId)) :
    Decidable (AllowedTurn c turn) := inferInstanceAs (Decidable (_ ∧ _))

end

def Outstanding : Caller → Prop
  | .holding _ => True
  | .dropping => True
  | _ => False

instance : DecidablePred Outstanding := fun caller => by
  cases caller <;> first | exact isTrue trivial | exact isFalse id

def Releasing (caller : Caller) : Prop := caller = .releasing

instance : DecidablePred Releasing := fun caller => inferInstanceAs (Decidable (caller = _))

/-- How many agents of the table are registered and not the root. -/
def registeredAgents (tree : AgentTree ThreadId) : ℕ :=
  Table.total (fun metadata => metadata.isCounted.toNat) tree

/-- The slots that a caller has, of either kind. -/
def slots (caller : Caller) : ℕ :=
  (if Outstanding caller then 1 else 0) + (if Releasing caller then 1 else 0)

def Balanced (c : AgentConfig ι ThreadId) : Prop :=
  c.shared.totalCount =
    count Outstanding c.task + registeredAgents c.shared.agentTree + count Releasing c.task

/-- The caller has a reservation that holds the path. -/
def HoldsPath (caller : Caller) (path : AgentPath) : Prop :=
  ∃ nickname, caller = .holding ⟨nickname, some path⟩

theorem HoldsPath.elim {caller : Caller} {path : AgentPath} {P : Prop} (hheld : HoldsPath caller path)
    (h : ∀ reservation, caller ≠ .holding reservation) : P := by
  obtain ⟨_, hcaller⟩ := hheld
  exact absurd hcaller (h _)

/-- Every registered agent stands under its own key, and everything else keeps a path. -/
def Keyed (display : ThreadId → Str) (tree : AgentTree ThreadId) : Prop :=
  ∀ key metadata, tree.lookup key = some metadata →
    (∀ threadId, metadata.agentId = some threadId → key = metadata.key display threadId) ∧
      (metadata.agentId = none → ∃ path : AgentPath, key = path.text)

structure Sound (display : ThreadId → Str) (c : AgentConfig ι ThreadId) : Prop where
  finite : FinitelyMany Outstanding c.task ∧ FinitelyMany Releasing c.task
  balanced : Balanced c
  keyed : Keyed display c.shared.agentTree
  held : ∀ i path, HoldsPath (c.task i) path →
    c.shared.agentTree.lookup path.text = some (.placeholder path) ∧ path.isRoot = false
  unique : ∀ i j path, HoldsPath (c.task i) path → HoldsPath (c.task j) path → i = j

variable {display : ThreadId → Str} {c : AgentConfig ι ThreadId} {i : ι}
  {s : AgentRegistry ThreadId} {t : Caller}

section
variable [DecidableEq ι]

/-- A turn neither makes nor loses slots, leaves alone the paths of others, and a path it holds is
its own. -/
theorem Sound.update (h : Sound display c)
    (hslots : s.totalCount + slots (c.task i) + registeredAgents c.shared.agentTree =
      c.shared.totalCount + slots t + registeredAgents s.agentTree)
    (hkeyed : Keyed display s.agentTree)
    (hothers : ∀ j ≠ i, ∀ path, HoldsPath (c.task j) path →
      s.agentTree.lookup path.text = c.shared.agentTree.lookup path.text)
    (hown : ∀ path, HoldsPath t path →
      (s.agentTree.lookup path.text = some (.placeholder path) ∧ path.isRoot = false) ∧
        ∀ j ≠ i, ¬ HoldsPath (c.task j) path) :
    Sound display ⟨s, update c.task i t⟩ where
  finite := ⟨finitelyMany_update h.finite.1 i t, finitelyMany_update h.finite.2 i t⟩
  balanced := by
    have hbalanced := h.balanced
    have houtstanding := count_update h.finite.1 i t
    have hreleasing := count_update h.finite.2 i t
    simp only [Balanced, slots] at hbalanced hslots ⊢
    omega
  keyed := hkeyed
  held j path hj := by
    have hheld := h.held j path
    grind
  unique j k path hj hk := by
    have hunique := h.unique j k path
    grind

/-- A turn that leaves the table alone and takes no path. -/
theorem Sound.update_sameTree (h : Sound display c) (htree : s.agentTree = c.shared.agentTree)
    (hslots : s.totalCount + slots (c.task i) = c.shared.totalCount + slots t)
    (hpath : ∀ path, HoldsPath t path → HoldsPath (c.task i) path) :
    Sound display ⟨s, Function.update c.task i t⟩ := by
  apply h.update
  · rw [htree, hslots]
  · rw [htree]
    exact h.keyed
  · intro j hj path hpath
    rw [htree]
  · intro path ht
    have hi := hpath path ht
    rw [htree]
    exact ⟨h.held i path hi, fun j hj hheld => hj (h.unique j i path hheld hi)⟩

end

theorem Sound.totalCount_pos (h : Sound display c) (hi : slots (c.task i) = 1) :
    0 < c.shared.totalCount := by
  have hbalanced := h.balanced
  simp only [Balanced, slots] at hbalanced hi
  by_cases houtstanding : Outstanding (c.task i)
  · have := count_pos h.finite.1 houtstanding
    omega
  · by_cases hreleasing : Releasing (c.task i)
    · have := count_pos h.finite.2 hreleasing
      omega
    · simp [houtstanding, hreleasing] at hi

theorem totalCount_lowerCount (h : 0 < s.totalCount) :
    s.lowerCount.totalCount + 1 = s.totalCount := by
  unfold lowerCount
  dsimp only
  rw [if_neg h.ne']
  omega

theorem reserveAgentNickname_frame (names : List Str) (preferred : Option Str) (pick : ℕ) :
    (s.reserveAgentNickname names preferred pick).1.agentTree = s.agentTree ∧
      (s.reserveAgentNickname names preferred pick).1.totalCount = s.totalCount := by
  have hchoose : (s.chooseNickname names pick).1.agentTree = s.agentTree ∧
      (s.chooseNickname names pick).1.totalCount = s.totalCount := by
    unfold chooseNickname
    split <;> exact ⟨rfl, rfl⟩
  unfold reserveAgentNickname
  cases preferred with
  | some preferred => exact ⟨rfl, rfl⟩
  | none =>
    dsimp only
    split_ifs with hnames
    · exact ⟨rfl, rfl⟩
    · split <;> simp_all

section
variable {tree : AgentTree ThreadId} {key : Str} {metadata : AgentMetadata ThreadId}

theorem registeredAgents_erase (tree : AgentTree ThreadId) (key : Str) :
    registeredAgents tree = (tree.lookup key).elim 0 (fun metadata => metadata.isCounted.toNat) +
        registeredAgents (tree.erase key) :=
  Table.total_erase _ tree key

theorem registeredAgents_insert (tree : AgentTree ThreadId) (key : Str)
    (metadata : AgentMetadata ThreadId) :
    registeredAgents (tree.insert key metadata) =
      metadata.isCounted.toNat + registeredAgents (tree.erase key) :=
  Table.total_insert _ tree key metadata

theorem AgentPath.ext {path path' : AgentPath} (h : path.text = path'.text) : path = path' := by
  cases path
  cases path'
  simpa using h

theorem thread_ne_path (threadId : ThreadId) (path : AgentPath) :
    "thread:".toList ++ display threadId ≠ path.text := by
  intro h
  have hhead := path.head_text
  rw [← h] at hhead
  cases hhead

/-- The key of a fresh agent without a path is not in use. -/
theorem Keyed.lookup_thread (h : Keyed display tree) (hdisplay : Injective display)
    [DecidableEq ThreadId] {threadId : ThreadId} (hfresh : isFresh tree threadId = true) :
    tree.lookup ("thread:".toList ++ display threadId) = none := by
  by_contra hsome
  obtain ⟨metadata, hlookup⟩ := ne_none_iff_exists'.mp hsome
  obtain ⟨hid, hnone⟩ := h _ _ hlookup
  cases hagent : metadata.agentId with
  | none =>
    obtain ⟨path, hpath⟩ := hnone hagent
    exact thread_ne_path threadId path hpath
  | some other =>
    have hkey := hid other hagent
    cases hpath : metadata.agentPath with
    | some path =>
      rw [key_of_path hpath] at hkey
      exact thread_ne_path threadId path hkey
    | none =>
      rw [key_of_no_path hpath] at hkey
      have hother : threadId = other := hdisplay (List.append_cancel_left hkey)
      have hentry := List.all_eq_true.mp hfresh _ (Table.mem_entries_of_lookup hlookup)
      simp [hagent, hother] at hentry

end

section
variable {path : AgentPath} {reservation : SpawnReservation}

theorem holdsPath_holding_iff :
    HoldsPath (.holding reservation) path ↔ reservation.reservedAgentPath = some path := by
  constructor
  · rintro ⟨nickname, h⟩
    cases h
    rfl
  · intro h
    exact ⟨reservation.reservedAgentNickname, by rw [← h]⟩

variable [DecidableEq ι]

attribute [local grind] HoldsPath slots Outstanding Releasing Keyed placeholder
  isCounted isRoot key insertAgent
  removeAgent
attribute [local grind =] holdsPath_holding_iff Bool.toNat_true Bool.toNat_false
attribute [local grind →] AgentPath.ext

theorem Sound.reserveAgentPath (h : Sound display c) (hi : c.task i = .holding reservation)
    (hfree : c.shared.agentTree.lookup path.text = none) (hroot : path.isRoot = false) :
    Sound display ⟨c.shared.insertAgent path.text (.placeholder path), Function.update c.task i
        (.holding { reservation with reservedAgentPath := some path })⟩ := by
  have hregistered := registeredAgents_erase c.shared.agentTree path.text
  have hinsert := registeredAgents_insert c.shared.agentTree path.text (.placeholder path)
  have hkeyed := h.keyed
  have hheld := h.held
  apply h.update <;> grind

theorem Sound.releaseReservedAgentPath (h : Sound display c) (hi : HoldsPath (c.task i) path) :
    Sound display ⟨c.shared.releaseReservedAgentPath path, Function.update c.task i .dropping⟩ := by
  have hlookup := (h.held i path hi).1
  have hremove : c.shared.releaseReservedAgentPath path = c.shared.removeAgent path.text := by
    unfold AgentRegistry.releaseReservedAgentPath
    rw [hlookup]
    rfl
  have hregistered := registeredAgents_erase c.shared.agentTree path.text
  have hkeyed := h.keyed
  have hunique := h.unique
  apply h.update <;> grind

theorem Sound.registerRootThread (h : Sound display c) (hi : c.task i = .idle)
    (threadId : ThreadId) :
    Sound display ⟨c.shared.registerRootThread threadId, Function.update c.task i .finished⟩ := by
  unfold AgentRegistry.registerRootThread
  split_ifs with hroot
  · exact h.update_sameTree rfl (by grind) (by grind)
  · have hregistered := registeredAgents_erase c.shared.agentTree AgentPath.root.text
    have hinsert := registeredAgents_insert c.shared.agentTree AgentPath.root.text
      ⟨some threadId, some .root, none⟩
    have hnot : (⟨some threadId, some .root, none⟩ : AgentMetadata ThreadId).isCounted = false := rfl
    rw [not_isSome_iff_eq_none.mp hroot, elim_none] at hregistered
    have hkeyed := h.keyed
    have hheld := h.held
    apply h.update <;> grind

variable {metadata : AgentMetadata ThreadId} {threadId : ThreadId}

theorem Sound.removeAgent (h : Sound display c) (hi : c.task i = .idle) {key : Str}
    (hlookup : c.shared.agentTree.lookup key = some metadata)
    (hid : metadata.agentId = some threadId) :
    Sound display ⟨c.shared.removeAgent key,
      Function.update c.task i (if metadata.isRoot then .finished else .releasing)⟩ := by
  have hregistered := registeredAgents_erase c.shared.agentTree key
  have hkeyed := h.keyed
  have hheld := h.held
  apply h.update <;> grind

omit [DecidableEq ι] in
/-- The entry that a commit writes takes the place of the one that kept its path. -/
theorem registeredAgents_commit (h : Sound display c) (hdisplay : Injective display)
    [DecidableEq ThreadId] (hi : c.task i = .holding reservation)
    (hfresh : isFresh c.shared.agentTree threadId = true) (hid : metadata.agentId = some threadId)
    (hpath : metadata.agentPath = reservation.reservedAgentPath) :
    registeredAgents (c.shared.agentTree.insert (metadata.key display threadId) metadata) =
      registeredAgents c.shared.agentTree + 1 := by
  have hregistered := registeredAgents_erase c.shared.agentTree (metadata.key display threadId)
  rw [registeredAgents_insert, hregistered]
  suffices hkey : metadata.isCounted = true ∧
      (c.shared.agentTree.lookup (metadata.key display threadId)).elim 0
        (fun metadata => metadata.isCounted.toNat) = 0 by
    rw [hkey.1, hkey.2, Bool.toNat_true]
    omega
  cases hreserved : reservation.reservedAgentPath with
  | none =>
    have hnone := hpath.trans hreserved
    rw [key_of_no_path hnone, h.keyed.lookup_thread hdisplay hfresh]
    simp [isCounted, isRoot, hid, hnone]
  | some path =>
    have hsome := hpath.trans hreserved
    have hheld := h.held i path (by rw [hi]; exact holdsPath_holding_iff.mpr hreserved)
    rw [key_of_path hsome, hheld.1]
    simp [isCounted, isRoot, placeholder, hid, hsome, hheld.2]

theorem Sound.commit (h : Sound display c) (hdisplay : Injective display)
    [DecidableEq ThreadId] (hi : c.task i = .holding reservation)
    (hfresh : isFresh c.shared.agentTree threadId = true) (hid : metadata.agentId = some threadId)
    (hpath : metadata.agentPath = reservation.reservedAgentPath) :
    Sound display ⟨c.shared.registerSpawnedThread display metadata,
      Function.update c.task i .committed⟩ := by
  have hregister : (c.shared.registerSpawnedThread display metadata).totalCount =
        c.shared.totalCount ∧
      (c.shared.registerSpawnedThread display metadata).agentTree =
        c.shared.agentTree.insert (metadata.key display threadId) metadata := by
    unfold registerSpawnedThread
    rw [hid]
    exact ⟨rfl, rfl⟩
  have hcount := registeredAgents_commit h hdisplay hi hfresh hid hpath
  have hthread : ∀ path : AgentPath, "thread:".toList ++ display threadId ≠ path.text :=
    thread_ne_path threadId
  have hkeyed := h.keyed
  have hunique := h.unique
  apply h.update <;> grind

end

section
variable [DecidableEq ι]

/-- A slot is given back: the counter is not at zero then. -/
theorem Sound.lowerCount (h : Sound display c) (hi : slots (c.task i) = 1) (ht : slots t = 0)
    (hpath : ∀ path, ¬ HoldsPath t path) :
    Sound display ⟨c.shared.lowerCount, Function.update c.task i t⟩ := by
  apply h.update_sameTree (s := c.shared.lowerCount) rfl
  · rw [hi, ht]
    exact totalCount_lowerCount (h.totalCount_pos hi)
  · intro path ht
    exact absurd ht (hpath path)

variable [DecidableEq ThreadId] {action : Action ThreadId}

attribute [local grind] tryIncrementSpawned raiseCount HoldsPath slots Outstanding Releasing
attribute [local grind =] holdsPath_holding_iff

theorem Sound.step (hdisplay : Injective display) (h : Sound display c)
    (hallowed : AllowedTurn c ⟨i, action⟩)
    (hsec : callerSection display action c.shared (c.task i) = some (s, t)) :
    Sound display ⟨s, Function.update c.task i t⟩ := by
  obtain ⟨hcommit, hone⟩ := hallowed
  unfold commitsOwn at hcommit
  unfold reservesOnePath at hone
  unfold callerSection at hsec
  have hnickname := reserveAgentNickname_frame (s := c.shared)
  generalize hi : c.task i = caller at hsec hcommit hone
  split at hsec
  case h_4 names preferred pick reservation =>
    obtain ⟨htree, hcount⟩ := hnickname names preferred pick
    split at hsec <;> rename_i hreserve <;> rw [hreserve] at htree hcount <;> cases hsec <;>
      exact h.update_sameTree htree (by grind) (by grind)
  case h_5 path reservation =>
    split_ifs at hsec with hsome
    cases hsec
    rw [Bool.and_eq_true, Bool.not_eq_true'] at hone
    exact h.reserveAgentPath hi (not_isSome_iff_eq_none.mp hsome) hone.2
  case h_7 metadata reservation =>
    cases hsec
    rw [Bool.and_eq_true] at hcommit
    obtain ⟨threadId, hid, hfresh⟩ := (any_eq_true _ _).mp hcommit.1
    exact h.commit hdisplay hi hfresh hid (of_decide_eq_true hcommit.2)
  case h_8 nickname path =>
    cases hsec
    exact h.releaseReservedAgentPath ⟨nickname, hi⟩
  case h_9 | h_10 | h_14 =>
    cases hsec
    exact h.lowerCount (by rw [hi]; rfl) rfl fun _ hheld => hheld.elim nofun
  case h_11 =>
    cases hsec
    exact h.registerRootThread hi _
  case h_13 =>
    split at hsec
    · cases hsec
    · rename_i hlookup
      obtain ⟨hid, hsec⟩ := ite_none_right_eq_some.mp hsec
      cases hsec
      exact h.removeAgent hi hlookup hid
  -- the counter may change with the slots of the caller, and the table does not
  all_goals exact h.update_sameTree (by grind) (by grind) (by grind)

end

theorem sound_start : Sound display (start : AgentConfig ι ThreadId) where
  finite := ⟨finitelyMany_of_none fun _ h => h, finitelyMany_of_none fun _ h => nomatch h⟩
  balanced := by
    have houtstanding : count Outstanding (start : AgentConfig ι ThreadId).task = 0 :=
      count_eq_zero fun _ h => h
    have hreleasing : count Releasing (start : AgentConfig ι ThreadId).task = 0 :=
      count_eq_zero fun _ h => nomatch h
    rw [Balanced, houtstanding, hreleasing]
    rfl
  keyed key metadata hlookup := nomatch hlookup
  held j path := fun ⟨_, h⟩ => nomatch h
  unique j k path := fun ⟨_, h⟩ => nomatch h

variable [DecidableEq ι] [DecidableEq ThreadId] {d : AgentConfig ι ThreadId}
  {action : Action ThreadId} {turns : List (Turn ι (Action ThreadId))}

abbrev AgentStep (display : ThreadId → Str) :
    AgentConfig ι ThreadId → Turn ι (Action ThreadId) → AgentConfig ι ThreadId → Prop :=
  Step (fun _ => callerSection display) AllowedTurn

theorem AgentStep.sound (hdisplay : Function.Injective display) (h : Sound display c)
    {turn : Turn ι (Action ThreadId)} (hstep : AgentStep display c turn d) : Sound display d := by
  obtain ⟨hallowed, htake⟩ := hstep
  obtain ⟨s, t, hsec, rfl⟩ := take_eq_some.mp htake
  exact h.step hdisplay hallowed hsec

theorem sound_of_run (hdisplay : Injective display)
    (hrun : Run (AgentStep display) start turns c) : Sound display c :=
  Run.invariant
    (fun _ _ _ _ h hstep => AgentStep.sound hdisplay h hstep) hrun sound_start

/-- Every slot is reserved with the same limit. -/
def LimitedTo (maxThreads : ℕ) (turns : List (Turn ι (Action ThreadId))) : Prop :=
  ∀ turn ∈ turns, ∀ limit, turn.action = .reserveSpawnSlot limit → limit = some maxThreads

/-- The counter is within the limit, and so is every count that somebody is about to raise. -/
structure WithinLimit (maxThreads : ℕ) (c : AgentConfig ι ThreadId) : Prop where
  total : c.shared.totalCount ≤ maxThreads
  read : ∀ i current limit, c.task i = .incrementing current limit →
    limit = maxThreads ∧ current < maxThreads

omit [DecidableEq ThreadId] in
theorem WithinLimit.update {maxThreads : ℕ} (h : WithinLimit maxThreads c)
    (htotal : s.totalCount ≤ maxThreads)
    (hread : ∀ current limit, t = .incrementing current limit →
      limit = maxThreads ∧ current < maxThreads) :
    WithinLimit maxThreads ⟨s, update c.task i t⟩ := by
  refine ⟨htotal, fun j current limit => ?_⟩
  have hj := h.read j current limit
  grind [update_apply]

section
open AgentRegistry

attribute [local grind] tryIncrementSpawned raiseCount registerSpawnedThread insertAgent removeAgent
  releaseReservedAgentPath registerRootThread

/-- A count that is raised was below the limit when it was read, and it has not changed since. -/
theorem WithinLimit.step {maxThreads : ℕ} (h : WithinLimit maxThreads c) (hsound : Sound display c)
    (hlimit : ∀ limit, action = .reserveSpawnSlot limit → limit = some maxThreads)
    (hsec : callerSection display action c.shared (c.task i) = some (s, t)) :
    WithinLimit maxThreads ⟨s, Function.update c.task i t⟩ := by
  have hread := h.read i
  have htotal := h.total
  have hlower : slots (c.task i) = 1 → c.shared.lowerCount.totalCount ≤ maxThreads := by
    intro hslots
    have := totalCount_lowerCount (hsound.totalCount_pos hslots)
    omega
  have hframe := reserveAgentNickname_frame (s := c.shared)
  unfold callerSection at hsec
  generalize c.task i = caller at hsec hread hlower
  split at hsec
  case h_4 names preferred pick reservation =>
    have hcount := (hframe names preferred pick).2
    split at hsec <;> rename_i hreserve <;> rw [hreserve] at hcount <;> cases hsec <;>
      exact h.update (hcount.trans_le htotal) nofun
  case h_9 | h_10 | h_14 =>
    cases hsec
    exact h.update (hlower rfl) nofun
  all_goals exact h.update (by grind) (by grind)

end

theorem withinLimit_of_run {maxThreads : ℕ} (hdisplay : Function.Injective display)
    (hrun : Run (AgentStep display) start turns c) (hlimit : LimitedTo maxThreads turns) :
    c.shared.totalCount ≤ maxThreads := by
  have hstart : WithinLimit maxThreads (start : AgentConfig ι ThreadId) :=
    ⟨Nat.zero_le _, fun _ _ _ h => nomatch h⟩
  have hinv := Run.invariant
    (I := fun turns c => LimitedTo maxThreads turns ∧ Sound display c ∧ WithinLimit maxThreads c)
    ?_ hrun ⟨hlimit, sound_start, hstart⟩
  · exact hinv.2.2.total
  · rintro ⟨i, action⟩ turns c d ⟨hlimit, hsound, h⟩ hstep
    refine ⟨fun turn hturn => hlimit turn (List.mem_cons_of_mem _ hturn), hstep.sound hdisplay hsound,
      ?_⟩
    obtain ⟨-, htake⟩ := hstep
    obtain ⟨s, t, hsec, rfl⟩ := take_eq_some.mp htake
    exact h.step hsound (fun limit => hlimit _ List.mem_cons_self limit) hsec

omit [DecidableEq ι] [DecidableEq ThreadId] in
theorem Sound.path_unique (h : Sound display c) {key key' : Str}
    {metadata metadata' : AgentMetadata ThreadId}
    (hlookup : c.shared.agentTree.lookup key = some metadata)
    (hlookup' : c.shared.agentTree.lookup key' = some metadata')
    (hid : metadata.agentId.isSome = true) (hid' : metadata'.agentId.isSome = true)
    {path : AgentPath} (hpath : metadata.agentPath = some path)
    (hpath' : metadata'.agentPath = some path) : key = key' := by
  obtain ⟨threadId, hid⟩ := isSome_iff_exists.mp hid
  obtain ⟨threadId', hid'⟩ := isSome_iff_exists.mp hid'
  rw [(h.keyed _ _ hlookup).1 threadId hid, (h.keyed _ _ hlookup').1 threadId' hid',
    key_of_path hpath, key_of_path hpath']

end CodexRs.Core.Agents
