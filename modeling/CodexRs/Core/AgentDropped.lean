import CodexRs.Core.AgentSlots

/-!
# A dropped reservation leaves nothing behind

A run in which a reservation is dropped in the end is compared with the run in which it never asks
for a path.
-/
namespace CodexRs.Core.Agents
open Text Tasks Machine AgentRegistry Function List Option

variable {ι ThreadId : Type*} {display : ThreadId → Str}
  {c d : AgentConfig ι ThreadId} {i j : ι} {r s : AgentRegistry ThreadId} {t : Caller}
  {path : AgentPath} {action : Action ThreadId} {turns : List (Turn ι (Action ThreadId))}

section

/-- The registry without what stands under the path. -/
def hide (path : AgentPath) (registry : AgentRegistry ThreadId) : AgentRegistry ThreadId :=
  registry.removeAgent path.text

theorem hide_insertAgent {key : Str} (h : key ≠ path.text) (registry : AgentRegistry ThreadId)
    (metadata : AgentMetadata ThreadId) :
    hide path (registry.insertAgent key metadata) = (hide path registry).insertAgent key metadata := by
  simp only [hide, removeAgent, insertAgent, Table.erase_insert_comm h]

theorem hide_removeAgent (key : Str) (registry : AgentRegistry ThreadId) :
    hide path (registry.removeAgent key) = (hide path registry).removeAgent key := by
  simp only [hide, removeAgent, AList.erase_erase]

theorem lookup_hide (key : Str) (registry : AgentRegistry ThreadId) :
    (hide path registry).agentTree.lookup key =
      if key = path.text then none else registry.agentTree.lookup key :=
  Table.lookup_erase_eq_ite _ _ _

variable (registry : AgentRegistry ThreadId)

theorem hide_raiseCount : hide path registry.raiseCount = (hide path registry).raiseCount := rfl

theorem hide_lowerCount : hide path registry.lowerCount = (hide path registry).lowerCount := rfl

theorem totalCount_hide : (hide path registry).totalCount = registry.totalCount := rfl

theorem mem_entries_hide {registry : AgentRegistry ThreadId}
    {entry : Sigma fun _ : Str => AgentMetadata ThreadId}
    (h : entry ∈ (hide path registry).agentTree.entries) : entry ∈ registry.agentTree.entries :=
  kerase_sublist _ _ |>.subset h

theorem reserveAgentNickname_hide (names : List Str) (preferred : Option Str) (pick : ℕ) :
    (hide path registry).reserveAgentNickname names preferred pick =
      (hide path (registry.reserveAgentNickname names preferred pick).1,
        (registry.reserveAgentNickname names preferred pick).2) := by
  have hchoose : (hide path registry).chooseNickname names pick =
      (hide path (registry.chooseNickname names pick).1,
        (registry.chooseNickname names pick).2) := by
    have havailable : (hide path registry).availableNames names = registry.availableNames names :=
      rfl
    simp only [chooseNickname, havailable]
    cases chooseAny (registry.availableNames names) pick <;> rfl
  simp only [reserveAgentNickname]
  cases preferred with
  | some preferred => rfl
  | none =>
    split_ifs
    · rfl
    · rw [hchoose]
      rcases registry.chooseNickname names pick with ⟨chosen, nickname⟩
      cases nickname <;> rfl

/-- The key of what somebody else commits is not that of the path. -/
theorem key_ne_of_commit (h : Sound display c) (hheld : HoldsPath (c.task i) path) (hj : j ≠ i)
    {reservation : SpawnReservation} (hcaller : c.task j = .holding reservation)
    {metadata : AgentMetadata ThreadId} {threadId : ThreadId}
    (hpath : metadata.agentPath = reservation.reservedAgentPath) :
    metadata.key display threadId ≠ path.text := by
  cases hreserved : reservation.reservedAgentPath with
  | none =>
    rw [AgentMetadata.key_of_no_path (hpath.trans hreserved)]
    exact thread_ne_path threadId path
  | some path' =>
    rw [AgentMetadata.key_of_path (hpath.trans hreserved)]
    intro htext
    rw [AgentPath.ext htext] at hreserved
    apply hj
    exact h.unique j i path (by rw [hcaller]; exact holdsPath_holding_iff.mpr hreserved) hheld

variable [DecidableEq ThreadId]

attribute [local grind] HoldsPath AgentMetadata.placeholder releaseReservedAgentPath
  registerRootThread
attribute [local grind =] lookup_hide hide_insertAgent hide_removeAgent hide_raiseCount
  hide_lowerCount totalCount_hide
attribute [local grind →] AgentPath.ext

/-- The turn of somebody else does the same whether the path is held or not. -/
theorem callerSection_hide (h : Sound display c) (hheld : HoldsPath (c.task i) path) (hj : j ≠ i)
    (hallowed : AllowedTurn c ⟨j, action⟩) (hexists : ∀ path, action ≠ .agentPathExists path)
    (hsec : callerSection display action c.shared (c.task j) = some (s, t)) :
    callerSection display action (hide path c.shared) (c.task j) = some (hide path s, t) := by
  obtain ⟨hplaceholder, hroot⟩ := h.held i path hheld
  have hcommit := hallowed.1
  unfold commitsOwn at hcommit
  have hunique := h.unique j i
  unfold callerSection at hsec ⊢
  have hroot' : AgentPath.root.isRoot = true := rfl
  generalize hcaller : c.task j = caller at hsec hcommit hunique ⊢
  split at hsec
  case h_4 =>
    rw [reserveAgentNickname_hide]
    split at hsec <;> rename_i hreserve <;> rw [hreserve] <;> cases hsec <;> rfl
  case h_6 => exact absurd rfl (hexists _)
  case h_7 metadata reservation =>
    cases hsec
    rw [Bool.and_eq_true] at hcommit
    obtain ⟨threadId, hid, -⟩ := (any_eq_true _ _).mp hcommit.1
    have hne : metadata.key display threadId ≠ path.text :=
      key_ne_of_commit h hheld hj hcaller (of_decide_eq_true hcommit.2)
    simp only [registerSpawnedThread, hid]
    rw [hide_insertAgent hne]
    rfl
  case h_12 =>
    split_ifs at hsec with hnone
    cases hsec
    exact if_pos fun entry hentry => hnone entry (mem_entries_hide hentry)
  all_goals grind

end

section
variable {c' : AgentConfig ι ThreadId} {turn : Turn ι (Action ThreadId)}

/-- What the registry would be if the caller had not asked for a path. -/
def withoutPath (caller : Caller) (registry : AgentRegistry ThreadId) : AgentRegistry ThreadId :=
  match caller with
  | .holding ⟨_, some path⟩ => hide path registry
  | _ => registry

/-- Where the caller would be then. -/
inductive CallerAsIf : Caller → Caller → Prop
  | same {caller : Caller} (hpath : ∀ path, ¬ HoldsPath caller path) (hne : caller ≠ .dropping) :
      CallerAsIf caller caller
  | held (nickname : Option Str) (path : AgentPath) :
      CallerAsIf (.holding ⟨nickname, some path⟩) (.holding ⟨nickname, none⟩)
  | given (nickname : Option Str) : CallerAsIf .dropping (.holding ⟨nickname, none⟩)

structure AsIf (display : ThreadId → Str) (i : ι) (c c' : AgentConfig ι ThreadId) : Prop where
  sound : Sound display c
  others : ∀ j ≠ i, c'.task j = c.task j
  shared : c'.shared = withoutPath (c.task i) c.shared
  own : CallerAsIf (c.task i) (c'.task i)

theorem withoutPath_of_not_held {caller : Caller} (h : ∀ path, ¬ HoldsPath caller path)
    (registry : AgentRegistry ThreadId) : withoutPath caller registry = registry := by
  unfold withoutPath
  split
  · exact absurd ⟨_, rfl⟩ (h _)
  · rfl

theorem asIf_start (i : ι) : AsIf display i (start : AgentConfig ι ThreadId) start where
  sound := sound_start
  others _ _ := rfl
  shared := rfl
  own := .same (fun _ ⟨_, h⟩ => nomatch h) nofun

variable [DecidableEq ThreadId]

theorem allowed_asIf (h : AsIf display i c c')
    (htask : turn.task ≠ i) (hallowed : AllowedTurn c turn) : AllowedTurn c' turn := by
  have hfresh : ∀ threadId, isFresh c.shared.agentTree threadId = true →
      isFresh c'.shared.agentTree threadId = true := by
    intro threadId hfresh
    rw [h.shared]
    unfold withoutPath
    split
    · apply all_eq_true.mpr
      intro entry hentry
      exact all_eq_true.mp hfresh entry (mem_entries_hide hentry)
    · exact hfresh
  obtain ⟨hcommit, hone⟩ := hallowed
  unfold AllowedTurn commitsOwn reservesOnePath
  rw [h.others _ htask]
  refine ⟨?_, hone⟩
  unfold commitsOwn at hcommit
  split at hcommit
  · rw [Bool.and_eq_true] at hcommit ⊢
    obtain ⟨threadId, hid, hthread⟩ := (any_eq_true _ _).mp hcommit.1
    exact ⟨(any_eq_true _ _).mpr ⟨threadId, hid, hfresh threadId hthread⟩, hcommit.2⟩
  · rfl

/-- The actions that have nothing to do with paths. -/
def Action.isPathless : Action ThreadId → Bool
  | .reserveAgentPath _ => false
  | .agentPathExists _ => false
  | .commit _ => false
  | .releaseReservedAgentPath => false
  | _ => true

theorem allowed_of_isPathless (h : action.isPathless = true) (c : AgentConfig ι ThreadId) (i : ι) :
    AllowedTurn c ⟨i, action⟩ := by
  cases action <;> first | exact ⟨rfl, rfl⟩ | cases h

variable [DecidableEq ι]

/-- The turns of a run in which one caller never asks for a path, and nobody is refused one. -/
def asksNoPath (i : ι) (turn : Turn ι (Action ThreadId)) : Bool :=
  match turn.action with
  | .agentPathExists _ => false
  | .reserveAgentPath _ => turn.task ≠ i
  | .releaseReservedAgentPath => turn.task ≠ i
  | _ => true

/-- A turn of somebody else. -/
theorem AsIf.step_other (hdisplay : Injective display) (h : AsIf display i c c')
    (hj : j ≠ i) (hexists : ∀ path, action ≠ .agentPathExists path)
    (hallowed : AllowedTurn c ⟨j, action⟩)
    (hsec : callerSection display action c.shared (c.task j) = some (s, t)) :
    ∃ d', AgentStep display c' ⟨j, action⟩ d' ∧ AsIf display i ⟨s, update c.task j t⟩ d' := by
  have hsec' : callerSection display action c'.shared (c'.task j) =
      some (withoutPath (c.task i) s, t) := by
    rw [h.others j hj, h.shared]
    by_cases hheld : ∃ path, HoldsPath (c.task i) path
    · obtain ⟨path, hheld⟩ := hheld
      have hhide := callerSection_hide h.sound hheld hj hallowed hexists hsec
      obtain ⟨nickname, hcaller⟩ := hheld
      rw [hcaller]
      exact hhide
    · have hnot := not_exists.mp hheld
      rw [withoutPath_of_not_held hnot, withoutPath_of_not_held hnot]
      exact hsec
  refine ⟨_, ⟨allowed_asIf h hj hallowed, take_eq_some.mpr ⟨_, _, hsec', rfl⟩⟩, ?_⟩
  constructor
  · exact h.sound.step hdisplay hallowed hsec
  · intro k hk
    dsimp only
    by_cases hkj : k = j
    · rw [hkj, update_self, update_self]
    · rw [update_of_ne hkj, update_of_ne hkj, h.others k hk]
  · dsimp only
    rw [update_of_ne hj.symm]
  · dsimp only
    rw [update_of_ne hj.symm, update_of_ne hj.symm]
    exact h.own

/-- Such an action neither takes a path nor gives one back. -/
theorem not_holdsPath_of_isPathless (hpathless : action.isPathless = true) {caller : Caller}
    (hpath : ∀ path, ¬ HoldsPath caller path)
    (hsec : callerSection display action s caller = some (r, t)) :
    (∀ path, ¬ HoldsPath t path) ∧ t ≠ .dropping := by
  have hreserved : ∀ reservation, caller = .holding reservation →
      reservation.reservedAgentPath = none := by
    rintro reservation rfl
    by_contra hsome
    obtain ⟨path, hsome⟩ := ne_none_iff_exists'.mp hsome
    exact hpath path (holdsPath_holding_iff.mpr hsome)
  have hheld : ∀ path, HoldsPath t path ↔ ∃ reservation, t = .holding reservation ∧
      reservation.reservedAgentPath = some path := by
    intro path
    constructor
    · rintro ⟨nickname, rfl⟩
      exact ⟨_, rfl, rfl⟩
    · rintro ⟨reservation, rfl, hsome⟩
      exact holdsPath_holding_iff.mpr hsome
  unfold callerSection at hsec
  split at hsec <;> grind [Action.isPathless, tryIncrementSpawned]

omit [DecidableEq ThreadId] in
/-- What a turn of the caller itself has to show. -/
theorem AsIf.update (h : AsIf display i c c') {s' : AgentRegistry ThreadId} {t' : Caller}
    (hsound : Sound display ⟨s, update c.task i t⟩) (hshared : s' = withoutPath t s)
    (hown : CallerAsIf t t') :
    AsIf display i ⟨s, update c.task i t⟩ ⟨s', update c'.task i t'⟩ where
  sound := hsound
  others k hk := by
    dsimp only
    rw [update_of_ne hk, update_of_ne hk, h.others k hk]
  shared := by
    dsimp only
    rw [update_self, hshared]
  own := by
    dsimp only
    rw [update_self, update_self]
    exact hown

/-- A turn of the caller that has nothing to do with paths. -/
theorem AsIf.step_own (hdisplay : Injective display) (h : AsIf display i c c')
    (hpathless : action.isPathless = true)
    (hsec : callerSection display action c.shared (c.task i) = some (s, t)) :
    ∃ d', AgentStep display c' ⟨i, action⟩ d' ∧
      AsIf display i ⟨s, Function.update c.task i t⟩ d' := by
  have hsound := h.sound.step hdisplay (allowed_of_isPathless hpathless c i) hsec
  suffices hmatch : ∃ s' t', callerSection display action c'.shared (c'.task i) = some (s', t') ∧
      s' = withoutPath t s ∧ CallerAsIf t t' by
    obtain ⟨s', t', hsec', hshared, hown⟩ := hmatch
    exact ⟨_, ⟨allowed_of_isPathless hpathless c' i, take_eq_some.mpr ⟨s', t', hsec', rfl⟩⟩,
      h.update hsound hshared hown⟩
  have hshared := h.shared
  have hown := h.own
  revert hshared hown hsec
  generalize c.task i = caller
  generalize c'.task i = caller'
  intro hsec hshared hown
  cases hown with
  | same hpath hne =>
    obtain ⟨hpath', hne'⟩ := not_holdsPath_of_isPathless hpathless hpath hsec
    rw [hshared, withoutPath_of_not_held hpath]
    exact ⟨s, t, hsec, (withoutPath_of_not_held hpath' s).symm, .same hpath' hne'⟩
  | held nickname path =>
    rw [hshared]
    unfold callerSection at hsec
    split at hsec
    case h_4 hcaller =>
      cases hcaller
      simp only [callerSection, withoutPath, reserveAgentNickname_hide]
      split at hsec <;> rename_i hreserve <;> rw [hreserve] <;> cases hsec <;>
        exact ⟨_, _, rfl, rfl, .held _ path⟩
    case h_9 hcaller => cases hcaller
    all_goals contradiction
  | given nickname =>
    rw [hshared]
    unfold callerSection at hsec
    split at hsec <;> first | contradiction | cases hpathless
    cases hsec
    exact ⟨_, _, rfl, rfl, .same (fun path ⟨_, hheld⟩ => nomatch hheld) nofun⟩

/-- A turn in which somebody is refused a path changes nothing. -/
theorem AsIf.step_exists (h : AsIf display i c c')
    (hsec : callerSection display (.agentPathExists path) c.shared (c.task j) = some (s, t)) :
    AsIf display i ⟨s, Function.update c.task j t⟩ c' := by
  have hsame : s = c.shared ∧ t = c.task j := by
    unfold callerSection at hsec
    generalize c.task j = caller at hsec ⊢
    split at hsec <;> first | contradiction | skip
    obtain ⟨-, hsec⟩ := ite_none_right_eq_some.mp hsec
    cases hsec
    exact ⟨rfl, rfl⟩
  rw [hsame.1, hsame.2, update_eq_self]
  exact h

/-- Asking for a path is hidden from then on. -/
theorem AsIf.step_reserve (hdisplay : Injective display) (h : AsIf display i c c')
    (hallowed : AllowedTurn c ⟨i, .reserveAgentPath path⟩)
    (hsec : callerSection display (.reserveAgentPath path) c.shared (c.task i) = some (s, t)) :
    AsIf display i ⟨s, Function.update c.task i t⟩ c' := by
  have hsound := h.sound.step hdisplay hallowed hsec
  have hone := hallowed.2
  unfold reservesOnePath at hone
  have hshared := h.shared
  have hown := h.own
  unfold callerSection at hsec
  suffices hmatch : c'.shared = withoutPath t s ∧ CallerAsIf t (c'.task i) by
    have hupdate := h.update hsound hmatch.1 hmatch.2
    rwa [update_eq_self] at hupdate
  generalize c.task i = caller at hsec hone hshared hown
  split at hsec <;> first | contradiction | skip
  rename_i path' reservation heq
  cases heq
  split_ifs at hsec with hsome
  cases hsec
  rw [Bool.and_eq_true, decide_eq_true_eq] at hone
  obtain ⟨nickname, reserved⟩ := reservation
  cases hone.1
  generalize c'.task i = caller' at hown
  cases hown
  refine ⟨?_, .held nickname path⟩
  rw [hshared]
  have hfree : path.text ∉ c.shared.agentTree := by
    rw [← AList.lookup_isSome]
    exact hsome
  simp only [withoutPath, hide, removeAgent, insertAgent,
    Table.erase_insert_self, Table.erase_of_notMem hfree]

/-- Giving the path back ends the difference. -/
theorem AsIf.step_release (hdisplay : Injective display) (h : AsIf display i c c')
    (hallowed : AllowedTurn c ⟨i, .releaseReservedAgentPath⟩)
    (hsec : callerSection display .releaseReservedAgentPath c.shared (c.task i) = some (s, t)) :
    AsIf display i ⟨s, Function.update c.task i t⟩ c' := by
  have hsound := h.sound.step hdisplay hallowed hsec
  have hshared := h.shared
  have hown := h.own
  have hheld := h.sound.held i
  unfold callerSection at hsec
  suffices hmatch : c'.shared = withoutPath t s ∧ CallerAsIf t (c'.task i) by
    have hupdate := h.update hsound hmatch.1 hmatch.2
    rwa [update_eq_self] at hupdate
  generalize c.task i = caller at hsec hshared hown hheld
  split at hsec <;> first | contradiction | skip
  rename_i nickname path _
  cases hsec
  have hlookup := (hheld path ⟨nickname, rfl⟩).1
  generalize c'.task i = caller' at hown
  cases hown with
  | same hpath hne => exact absurd ⟨nickname, rfl⟩ (hpath path)
  | held =>
    refine ⟨?_, .given nickname⟩
    rw [hshared]
    simp only [releaseReservedAgentPath, hlookup]
    rfl

theorem committed_of_step (hstep : AgentStep display c turn d)
    (hi : c.task i = .committed) : d.task i = .committed := by
  obtain ⟨-, htake⟩ := hstep
  obtain ⟨s, t, hsec, rfl⟩ := take_eq_some.mp htake
  by_cases htask : i = turn.task
  · rw [← htask, hi] at hsec
    unfold callerSection at hsec
    split at hsec <;> contradiction
  · exact (update_of_ne htask _ _).trans hi

theorem committed_of_run (hrun : Run (AgentStep display) c turns d) (hi : c.task i = .committed) :
    d.task i = .committed :=
  Run.invariant (I := fun _ c => c.task i = .committed)
    (fun _ _ _ _ h hstep => committed_of_step hstep h) hrun hi

theorem committed_of_commit {metadata : AgentMetadata ThreadId}
    (hstep : AgentStep display c ⟨i, .commit metadata⟩ d) : d.task i = .committed := by
  obtain ⟨-, htake⟩ := hstep
  obtain ⟨s, t, hsec, rfl⟩ := take_eq_some.mp htake
  dsimp only at hsec ⊢
  rw [update_self]
  unfold callerSection at hsec
  split at hsec <;> first | contradiction | cases hsec
  rfl

theorem commit_notMem_of_run (hrun : Run (AgentStep display) c turns d)
    (hi : d.task i ≠ .committed) (metadata : AgentMetadata ThreadId) :
    ⟨i, .commit metadata⟩ ∉ turns := by
  intro hmem
  obtain ⟨before, behind, rfl⟩ := append_of_mem hmem
  obtain ⟨e, -, hrest⟩ := hrun.split
  cases hrest with
  | cons hstep hrest => exact hi (committed_of_run hrest (committed_of_commit hstep))

theorem AsIf.run (hdisplay : Injective display) (hrun : Run (AgentStep display) c turns d)
    (h : AsIf display i c c') (hcommit : ∀ metadata, ⟨i, .commit metadata⟩ ∉ turns) :
    ∃ d', Run (AgentStep display) c' (turns.filter (asksNoPath i)) d' ∧ AsIf display i d d' := by
  suffices hsim : ∃ d', Run (AgentStep display) c' (turns.filter (asksNoPath i)) d' ∧
      AsIf display i d d' ∧
        ∀ metadata, ⟨i, .commit metadata⟩ ∉ ([] : List (Turn ι (Action ThreadId))) by
    obtain ⟨d', hrun', hd, -⟩ := hsim
    exact ⟨d', hrun', hd⟩
  refine hrun.simulate_filter
    (R := fun turns c c' => AsIf display i c c' ∧ ∀ metadata, ⟨i, .commit metadata⟩ ∉ turns)
    (asksNoPath i) ?_ ?_ ⟨h, hcommit⟩
  · rintro ⟨j, action⟩ turns c d c' hkeep ⟨h, hcommit⟩ ⟨hallowed, htake⟩
    obtain ⟨s, t, hsec, rfl⟩ := take_eq_some.mp htake
    have hrest : ∀ metadata, ⟨i, .commit metadata⟩ ∉ turns :=
      fun metadata hmem => hcommit metadata (mem_cons_of_mem _ hmem)
    have hexists : ∀ path, action ≠ .agentPathExists path := by
      rintro path rfl
      cases hkeep
    suffices hstep : ∃ d', AgentStep display c' ⟨j, action⟩ d' ∧
        AsIf display i ⟨s, Function.update c.task j t⟩ d' by
      obtain ⟨d', hstep, hd⟩ := hstep
      exact ⟨d', hstep, hd, hrest⟩
    by_cases hj : j = i
    · subst hj
      apply h.step_own hdisplay _ hsec
      cases action with
      | commit metadata => exact absurd mem_cons_self (hcommit metadata)
      | agentPathExists path => exact absurd rfl (hexists path)
      | reserveAgentPath path => simp [asksNoPath] at hkeep
      | releaseReservedAgentPath => simp [asksNoPath] at hkeep
      | _ => rfl
    · exact h.step_other hdisplay hj hexists hallowed hsec
  · rintro ⟨j, action⟩ turns c d c' hkeep ⟨h, hcommit⟩ ⟨hallowed, htake⟩
    obtain ⟨s, t, hsec, rfl⟩ := take_eq_some.mp htake
    refine ⟨?_, fun metadata hmem => hcommit metadata (mem_cons_of_mem _ hmem)⟩
    cases action with
    | agentPathExists path => exact h.step_exists hsec
    | reserveAgentPath path =>
      obtain rfl : j = i := by simpa [asksNoPath] using hkeep
      exact h.step_reserve hdisplay hallowed hsec
    | releaseReservedAgentPath =>
      obtain rfl : j = i := by simpa [asksNoPath] using hkeep
      exact h.step_release hdisplay hallowed hsec
    | _ => cases hkeep

/-- Without the paths that a dropped reservation had, everything would be as it is. -/
theorem run_without_path (hdisplay : Injective display)
    (hrun : Run (AgentStep display) start turns c) (hi : c.task i = .dropped) :
    ∃ c', Run (AgentStep display) start (turns.filter (asksNoPath i)) c' ∧
      c'.shared = c.shared := by
  have hcommit := commit_notMem_of_run hrun (by rw [hi]; exact nofun)
  obtain ⟨c', hrun', h⟩ := (asIf_start i).run hdisplay hrun hcommit
  refine ⟨c', hrun', ?_⟩
  rw [h.shared, hi]
  rfl

end

/-- Where a commit carries a fresh id and the path of its reservation, and a reservation takes one
path at most and not the root. -/
theorem slots_accounted [DecidableEq ι] [DecidableEq ThreadId]
    (hdisplay : Function.Injective display) (hrun : Run (AgentStep display) start turns c) :
    c.shared.totalCount = count Outstanding c.task + registeredAgents c.shared.agentTree +
        count Releasing c.task ∧
      (∀ i, slots (c.task i) = 1 → 0 < c.shared.totalCount) ∧
      (∀ maxThreads, LimitedTo maxThreads turns → c.shared.totalCount ≤ maxThreads) ∧
      (∀ key key' metadata metadata' path, c.shared.agentTree.lookup key = some metadata →
        c.shared.agentTree.lookup key' = some metadata' → metadata.agentId.isSome = true →
        metadata'.agentId.isSome = true → metadata.agentPath = some path →
        metadata'.agentPath = some path → key = key') ∧
      ∀ i, c.task i = .dropped → ∃ c', Run (AgentStep display) start
        (turns.filter (asksNoPath i)) c' ∧ c'.shared = c.shared := by
  have hsound := sound_of_run hdisplay hrun
  refine ⟨hsound.balanced, fun i => hsound.totalCount_pos, fun maxThreads => ?_, ?_, fun i => ?_⟩
  · exact withinLimit_of_run hdisplay hrun
  · intro key key' metadata metadata' path hlookup hlookup' hid hid' hpath hpath'
    exact hsound.path_unique hlookup hlookup' hid hid' hpath hpath'
  · exact run_without_path hdisplay hrun

def pathA : AgentPath := ⟨"/root/a".toList, by decide +kernel⟩
def pathB : AgentPath := ⟨"/root/b".toList, by decide +kernel⟩

/-- An id as that many marks, which no two ids share. -/
def marks (threadId : ℕ) : Str := replicate threadId 'x'

theorem marks_injective : Injective marks := fun _ _ h => replicate_left_injective 'x' h

/-- One agent is spawned under a path, another reservation is dropped with its path. -/
def spawnAndDrop : List (Turn ℕ (Action ℕ)) :=
  [⟨0, .reserveSpawnSlot (some 2)⟩, ⟨0, .compareExchange false⟩, ⟨0, .reserveAgentPath pathA⟩,
    ⟨1, .reserveSpawnSlot (some 2)⟩, ⟨1, .compareExchange false⟩, ⟨1, .reserveAgentPath pathB⟩,
    ⟨0, .commit ⟨some 7, some pathA, none⟩⟩, ⟨1, .releaseReservedAgentPath⟩, ⟨1, .giveBackSlot⟩]

theorem slots_accounted_spawnAndDrop :
    ∃ c : AgentConfig ℕ ℕ, Run (AgentStep marks) start spawnAndDrop c ∧ c.task 1 = .dropped ∧
      c.shared.totalCount = 1 ∧ c.shared.totalCount = count Outstanding c.task +
        registeredAgents c.shared.agentTree + count Releasing c.task := by
  have hrun : Run (AgentStep marks) start spawnAndDrop _ := run_of_takeAll rfl
  exact ⟨_, hrun, rfl, rfl, (slots_accounted marks_injective hrun).1⟩

/-- One reservation asks for two paths and is dropped. -/
def dropTwoPaths : List (Turn ℕ (Action ℕ)) :=
  [⟨0, .reserveSpawnSlot none⟩, ⟨0, .reserveAgentPath pathA⟩, ⟨0, .reserveAgentPath pathB⟩,
    ⟨0, .releaseReservedAgentPath⟩, ⟨0, .giveBackSlot⟩]

/-- An agent is spawned under the path of the root. -/
def commitRoot : List (Turn ℕ (Action ℕ)) :=
  [⟨0, .reserveSpawnSlot none⟩, ⟨0, .reserveAgentPath .root⟩,
    ⟨0, .commit ⟨some 7, some .root, none⟩⟩]

/-- An agent is spawned, and removed by a release that has not yet lowered the counter. -/
def releaseHalfway : List (Turn ℕ (Action ℕ)) :=
  [⟨0, .reserveSpawnSlot none⟩, ⟨0, .reserveAgentPath pathA⟩,
    ⟨0, .commit ⟨some 7, some pathA, none⟩⟩, ⟨1, .releaseSpawnedThread 7 (some pathA.text)⟩]

/-- A run in which only the commits are constrained. -/
def RunsTo (turns : List (Turn ℕ (Action ℕ))) (c : AgentConfig ℕ ℕ) : Prop :=
  Run (Step (fun _ => callerSection marks) (commitsOwn · · = true)) start turns c

/-- The first of two paths stays behind when their reservation is dropped, an agent under the path
of the root keeps a slot for good, and inside a release the sum is short by one. -/
theorem two_paths_and_root_path :
    (∃ c, RunsTo dropTwoPaths c ∧ c.task 0 = .dropped ∧ c.shared.totalCount = 0 ∧
        c.shared.agentTree.lookup pathA.text = some (.placeholder pathA) ∧
        ∃ c', RunsTo (dropTwoPaths.filter (asksNoPath 0)) c' ∧
          c'.shared.agentTree.lookup pathA.text = none) ∧
      (∃ c, RunsTo commitRoot c ∧ c.shared.totalCount = 1 ∧ count Outstanding c.task = 0 ∧
        registeredAgents c.shared.agentTree = 0 ∧ count Releasing c.task = 0) ∧
      ∃ c, RunsTo releaseHalfway c ∧ c.task 1 = .releasing ∧ c.shared.totalCount = 1 ∧
        count Outstanding c.task = 0 ∧ registeredAgents c.shared.agentTree = 0 := by
  refine ⟨⟨_, run_of_takeAll rfl, rfl, rfl, rfl, _, run_of_takeAll rfl, rfl⟩,
    ⟨_, run_of_takeAll rfl, rfl, count_eq_zero fun i h => ?_, rfl, count_eq_zero fun i h => ?_⟩,
    _, run_of_takeAll rfl, rfl, rfl, count_eq_zero fun i h => ?_, rfl⟩
  all_goals
    by_cases hfirst : i = 0
    · subst hfirst
      cases h
    by_cases hsecond : i = 1
    · subst hsecond
      cases h
    · simp only [update_of_ne hfirst, update_of_ne hsecond] at h
      cases h

end CodexRs.Core.Agents
