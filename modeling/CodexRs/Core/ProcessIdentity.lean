import CodexRs.Core.ProcessStore

/-!
# No process is taken for another

An id names one process as long as no call still works with it when it is drawn again.
-/
namespace CodexRs.Core
open Tasks Machine List Option ProcessConfig ProcessManager ProcessMeta ProcessStore Table

section
variable {metas : List ProcessMeta}

theorem mem_of_processIdToPrune {processId : ℤ} (h : processIdToPruneFromMeta metas = some processId) :
    ∃ entry ∈ metas, entry.processId = processId := by
  unfold processIdToPruneFromMeta at h
  split_ifs at h
  dsimp only at h
  split at h
  · rename_i entry hfind
    exact ⟨entry, (mem_insertionSort _).mp (mem_of_find?_eq_some hfind), some.inj h⟩
  · obtain ⟨entry, hfind, rfl⟩ := map_eq_some_iff.mp h
    exact ⟨entry, (mem_insertionSort _).mp (mem_of_find?_eq_some hfind), rfl⟩

/-- With more entries than are protected, one is found. -/
theorem exists_processIdToPrune (hnodup : (metas.map processId).Nodup)
    (hlength : 8 < metas.length) : ∃ processId, processIdToPruneFromMeta metas = some processId := by
  have hne : metas ≠ [] := ne_nil_of_length_pos (by omega)
  let recent := (metas.insertionSort fun a b => b.lastUsed ≤ a.lastUsed).take 8
  have hrest : ∃ entry ∈ metas, entry.processId ∉ recent.map processId := by
    by_contra hall
    push Not at hall
    have hsub : metas.map processId ⊆ recent.map processId := by
      intro processId hmem
      obtain ⟨entry, hentry, rfl⟩ := mem_map.mp hmem
      exact hall entry hentry
    have hle := (subperm_of_subset hnodup hsub).length_le
    rw [length_map, length_map] at hle
    have hrecent : recent.length ≤ 8 := length_take_le _ _
    omega
  obtain ⟨entry, hentry, hfree⟩ := hrest
  unfold processIdToPruneFromMeta
  rw [if_neg hne]
  dsimp only
  split
  · exact ⟨_, rfl⟩
  · have hsome : ((metas.insertionSort fun a b => a.lastUsed ≤ b.lastUsed).find?
        fun entry => decide (entry.processId ∉ recent.map processId)).isSome = true := by
      rw [find?_isSome]
      exact ⟨entry, (mem_insertionSort _).mpr hentry, decide_eq_true hfree⟩
    obtain ⟨found, hfound⟩ := isSome_iff_exists.mp hsome
    exact ⟨found.processId, map_eq_some_iff.mpr ⟨found, hfound, rfl⟩⟩

end

namespace ProcessStore
variable {ι : Type*} {store : ProcessStore ι} {order : List ProcessMeta} {hasExited : ι → Bool}
  {processId : ℤ}

@[grind =] theorem lookup_remove (processId other : ℤ) :
    (store.remove processId).processes.lookup other =
      if other = processId then none else store.processes.lookup other :=
  lookup_erase_eq_ite _ _ _

@[grind =] theorem mem_reserved_remove (processId other : ℤ) :
    other ∈ (store.remove processId).reservedProcessIds ↔
      other ≠ processId ∧ other ∈ store.reservedProcessIds :=
  Finset.mem_erase

theorem map_processId_metas (store : ProcessStore ι) (hasExited : ι → Bool) :
    (store.metas hasExited).map ProcessMeta.processId = store.processes.keys := by
  simp [metas, AList.keys, keys]

/-- Storing leaves at most as many entries as there may be. -/
theorem length_storeProcess_le (horder : order.Perm (store.metas hasExited))
    (hle : store.processes.keys.length ≤ maxUnifiedExecProcesses) (entry : ProcessEntry ι) :
    (store.storeProcess order entry).processes.keys.length ≤ maxUnifiedExecProcesses := by
  have hpruned : (store.pruneProcessesIfNeeded order).processes.keys.length <
      maxUnifiedExecProcesses := by
    unfold pruneProcessesIfNeeded idToPrune
    split_ifs with hroom
    · exact hroom
    · have hkeys : order.map processId |>.Perm store.processes.keys := by
        rw [← map_processId_metas store hasExited]
        exact horder.map _
      have hlength : 8 < order.length := by
        rw [← length_map, hkeys.length_eq]
        have : maxUnifiedExecProcesses = 64 := rfl
        omega
      obtain ⟨processId, hprune⟩ := exists_processIdToPrune
        (hkeys.nodup_iff.mpr store.processes.nodupKeys) hlength
      obtain ⟨meta', hmem, rfl⟩ := mem_of_processIdToPrune hprune
      rw [hprune]
      have hkey : meta'.processId ∈ store.processes.keys := hkeys.subset (mem_map_of_mem hmem)
      exact lt_of_lt_of_le (length_keys_erase_lt hkey) hle
  exact (length_keys_insert_le _ _ _).trans hpruned

@[grind =] theorem lookup_pruneProcessesIfNeeded (order : List ProcessMeta) (other : ℤ) :
    (store.pruneProcessesIfNeeded order).processes.lookup other =
      if store.idToPrune order = some other then none else store.processes.lookup other := by
  unfold pruneProcessesIfNeeded
  cases store.idToPrune order with
  | none => rfl
  | some processId =>
    rw [lookup_remove]
    simp only [some.injEq, eq_comm]

@[grind =] theorem mem_reserved_pruneProcessesIfNeeded (order : List ProcessMeta) (other : ℤ) :
    other ∈ (store.pruneProcessesIfNeeded order).reservedProcessIds ↔
      store.idToPrune order ≠ some other ∧ other ∈ store.reservedProcessIds := by
  unfold pruneProcessesIfNeeded
  cases store.idToPrune order <;> grind

theorem mem_of_idToPrune (horder : order.Perm (store.metas hasExited))
    (h : store.idToPrune order = some processId) : ∃ entry, store.processes.lookup processId = some entry := by
  unfold idToPrune at h
  split_ifs at h
  obtain ⟨found, hmem, rfl⟩ := mem_of_processIdToPrune h
  have hkey : found.processId ∈ store.processes.keys := by
    rw [← map_processId_metas store hasExited]
    exact (horder.map _).subset (mem_map_of_mem hmem)
  exact isSome_iff_exists.mp (AList.lookup_isSome.mpr (AList.mem_keys.mp hkey))

end ProcessStore

section
variable {ι : Type*}

/-- What becomes of the id of a call in progress: it is given up, or kept for its process. -/
def Inherits (call call' : ProcessCall ι) : Prop :=
  call'.processId = none ∨ call' = call ∨
    ∃ processId process, call = .writing processId process ∧ call' = .rechecked processId process

/-- The ways in which a turn changes the store. -/
inductive ProcessMove (i : ι) (manager : ProcessManager ι) :
    ProcessAction → ProcessCall ι → ProcessManager ι → ProcessCall ι → Prop
  | allocate {processId : ℤ} (hfree : processId ∉ manager.store.reservedProcessIds) :
      ProcessMove i manager (.allocateProcessId processId) .idle
      (manager.withStore { manager.store with
        reservedProcessIds := insert processId manager.store.reservedProcessIds })
      (.allocated processId manager.generation)
  | remove {action call call'} {processId : ℤ}
      (haction : action = .releaseProcessId ∨ action = .refreshProcessState ∨
        action = .recheckProcessState)
      (hid : call.processId = some processId) (hcall : Inherits call call') (hne : call' ≠ call) :
      ProcessMove i manager action call (manager.withStore (manager.store.remove processId)) call'
  | keep {action call call' manager'} (hstore : manager'.store = manager.store)
      (hgeneration : manager'.generation = manager.generation) (hcall : Inherits call call') :
      ProcessMove i manager action call manager' call'
  | store {startedAt order} {processId : ℤ} {generation}
      (horder : order.Perm (manager.store.metas manager.hasExited)) :
      ProcessMove i manager (.storeProcess startedAt order) (.allocated processId generation)
      (manager.withStore (manager.store.storeProcess order ⟨i, processId, startedAt⟩))
      (.stored processId)
  | prepare {processId : ℤ} {now entry}
      (hentry : manager.store.processes.lookup processId = some entry) :
      ProcessMove i manager (.prepareProcessHandles processId now) .idle
      (manager.withStore { manager.store with
        processes := manager.store.processes.insert processId { entry with lastUsed := now } })
      (.writing processId entry.process)
  | terminate : ProcessMove i manager .terminateAllProcesses .idle
      { manager with store := .empty, generation := manager.generation + 1 } .finished

/-- Every entry is stored under its own id. -/
def Keyed (store : ProcessStore ι) : Prop :=
  ∀ processId entry, store.processes.lookup processId = some entry → entry.processId = processId

variable {i : ι} {manager manager' : ProcessManager ι} {call call' : ProcessCall ι}
  {action : ProcessAction}

/-- Looking at the state of a process either removes its entry or changes nothing. -/
theorem refresh_cases (hkeyed : Keyed manager.store) (processId : ℤ) :
    manager.store.refreshProcessState manager.hasExited processId = manager.store.remove processId ∨
      manager.store.refreshProcessState manager.hasExited processId = manager.store := by
  unfold refreshProcessState
  cases hentry : manager.store.processes.lookup processId with
  | none => exact .inr rfl
  | some entry =>
    dsimp only
    split_ifs
    · rw [hkeyed processId entry hentry]
      exact .inl rfl
    · exact .inr rfl

theorem move_of_refresh (hkeyed : Keyed manager.store) {processId : ℤ}
    (haction : action = .refreshProcessState ∨ action = .recheckProcessState)
    (hid : call.processId = some processId) (hcall : Inherits call call') (hne : call' ≠ call) :
    ProcessMove i manager action call
      (manager.withStore (manager.store.refreshProcessState manager.hasExited processId)) call' := by
  rcases refresh_cases hkeyed processId with h | h
  · rw [h]
    exact .remove (.inr haction) hid hcall hne
  · rw [h]
    exact .keep rfl rfl hcall

theorem move_of_takeTurn [DecidableEq ι] (hkeyed : Keyed manager.store)
    (h : takeTurn i action manager call = some (manager', call')) :
    ProcessMove i manager action call manager' call' := by
  unfold takeTurn at h
  split at h
  · split_ifs at h with hfree
    cases h
    exact .allocate hfree
  · obtain ⟨processId, hid, hpair⟩ := map_eq_some_iff.mp h
    cases hpair
    refine .remove (.inl rfl) hid (.inl rfl) ?_
    rintro rfl
    cases hid
  · split_ifs at h with hguard
    cases h
    exact .store hguard.2
  · cases h
    exact move_of_refresh hkeyed (.inl rfl) rfl (.inl rfl) nofun
  · cases h
    exact move_of_refresh hkeyed (.inl rfl) rfl (.inl rfl) nofun
  · cases h
    exact move_of_refresh hkeyed (.inr rfl) rfl (.inr (.inr ⟨_, _, rfl, rfl⟩)) nofun
  · rename_i processId now
    unfold prepareProcessHandles at h
    cases hentry : manager.store.processes.lookup processId with
    | none =>
      rw [hentry] at h
      cases h
      exact .keep rfl rfl (.inl rfl)
    | some entry =>
      rw [hentry] at h
      cases h
      obtain rfl := hkeyed processId entry hentry
      exact .prepare hentry
  · cases h
    exact .terminate
  · cases h
    exact .keep rfl rfl (.inl rfl)
  · cases h
    exact .keep rfl rfl (.inr (.inl rfl))
  · cases h

end

section
variable {ι : Type*}

def ProcessCall.isPending : ProcessCall ι → Bool
  | .allocated _ _ => true
  | _ => false

/-- An id that a call works with names its process or nothing, and a call that has not stored its
process yet is alone with its id. -/
structure Identified (manager : ProcessManager ι) (task : ι → ProcessCall ι) : Prop where
  keyed : Keyed manager.store
  reserved : ∀ processId entry, manager.store.processes.lookup processId = some entry →
    processId ∈ manager.store.reservedProcessIds
  own : ∀ j processId entry, (task j).processId = some processId →
    manager.store.processes.lookup processId = some entry →
      (task j).isPending = false ∧ (task j).process j = some entry.process
  alone : ∀ j k processId, j ≠ k → (task j).isPending = true →
    (task j).processId = some processId → (task k).processId ≠ some processId
  pending : ∀ j processId generation, task j = .allocated processId generation →
    generation ≤ manager.generation ∧
      (generation = manager.generation → processId ∈ manager.store.reservedProcessIds)

variable {manager : ProcessManager ι} {task : ι → ProcessCall ι}

/-- Nothing is stored under the id of a call that waits to store its process. -/
theorem Identified.lookup_pending (h : Identified manager task) {i : ι} {processId : ℤ} {generation : ℕ}
    (hi : task i = .allocated processId generation) :
    manager.store.processes.lookup processId = none := by
  cases hentry : manager.store.processes.lookup processId with
  | none => rfl
  | some entry =>
    have hown := (h.own i processId entry (by rw [hi]; rfl) hentry).1
    rw [hi] at hown
    cases hown

end

variable {ι : Type*}

/-- An id is drawn only if no call works with it, and a process stored only if no reservations were
cleared since. -/
def Distinct (c : ProcessConfig ι) (turn : Turn ι ProcessAction) : Prop :=
  match turn.action, c.task turn.task with
  | .allocateProcessId processId, _ => ∀ j, (c.task j).processId ≠ some processId
  | .storeProcess _ _, .allocated _ generation => generation = c.shared.generation
  | _, _ => True

/-- Why an entry may go: everything is terminated, it is pruned, or the call works on it. -/
def MayRemove (c : ProcessConfig ι) (turn : Turn ι ProcessAction) (processId : ℤ)
    (process : ι) : Prop :=
  turn.action = .terminateAllProcesses ∨
    (∃ startedAt order, turn.action = .storeProcess startedAt order ∧
      c.shared.store.idToPrune order = some processId) ∨
    (turn.action = .releaseProcessId ∨ turn.action = .refreshProcessState ∨
      turn.action = .recheckProcessState) ∧
        (c.task turn.task).process turn.task = some process

/-- A turn takes no process for another. -/
structure Unconfused (c : ProcessConfig ι) (turn : Turn ι ProcessAction) (d : ProcessConfig ι) :
    Prop where
  replaces : ∀ startedAt order processId generation,
    turn.action = .storeProcess startedAt order →
    c.task turn.task = .allocated processId generation →
      c.shared.store.processes.lookup processId = none
  removes : ∀ processId entry, c.shared.store.processes.lookup processId = some entry →
    (d.shared.store.processes.lookup processId).map ProcessEntry.process = some entry.process ∨
      MayRemove c turn processId entry.process

variable [DecidableEq ι] {c d : ProcessConfig ι} {turn : Turn ι ProcessAction}
  {turns : List (Turn ι ProcessAction)}

section
attribute [local grind] Inherits ProcessCall.isPending ProcessCall.processId ProcessCall.process Keyed
attribute [local grind cases] ProcessCall

attribute [local grind =] Function.update_apply

theorem Identified.step (h : Identified c.shared c.task) (hstep : ProcessStep Distinct c turn d) :
    Identified d.shared d.task := by
  obtain ⟨hallowed, htake⟩ := hstep
  obtain ⟨manager, call, hturn, rfl⟩ := take_eq_some.mp htake
  obtain ⟨i, action⟩ := turn
  have hmove := move_of_takeTurn h.keyed hturn
  obtain ⟨hkeyed, hreserved, hown, halone, hpending⟩ := h
  generalize hi : c.task i = before at hmove
  cases hmove with
  | @allocate processId hfree =>
    have hunused : ∀ j, (c.task j).processId ≠ some processId := hallowed
    constructor <;> grind -linarith
  | @remove _ _ _ processId haction hid hcall hne =>
    -- a call that waits to store is alone with its id, so its reservation is not the one removed
    constructor <;> grind -linarith
  | keep hstore hgeneration hcall =>
    constructor <;> grind -linarith
  | @store startedAt order processId generation horder =>
    -- only ids with an entry are pruned
    have hprune : ∀ other, c.shared.store.idToPrune order = some other →
        ∃ entry, c.shared.store.processes.lookup other = some entry :=
      fun _ => mem_of_idToPrune horder
    have hgeneration : generation = c.shared.generation := by
      rw [Distinct, hi] at hallowed
      exact hallowed
    constructor <;> grind -linarith [storeProcess]
  | @prepare processId now entry hentry =>
    constructor <;> grind -linarith
  | terminate =>
    have hempty : ∀ processId, (empty (ι := ι)).processes.lookup processId = none := fun _ => rfl
    constructor <;> grind -linarith

end

/-- The number of entries stays within the bound, whatever the calls do. -/
theorem length_le_of_step {allowed : ProcessConfig ι → Turn ι ProcessAction → Prop}
    (hkeyed : Keyed c.shared.store)
    (hle : c.shared.store.processes.keys.length ≤ maxUnifiedExecProcesses)
    (hstep : ProcessStep allowed c turn d) :
    d.shared.store.processes.keys.length ≤ maxUnifiedExecProcesses := by
  obtain ⟨-, htake⟩ := hstep
  obtain ⟨manager, call, hturn, rfl⟩ := take_eq_some.mp htake
  have hmove := move_of_takeTurn hkeyed hturn
  obtain ⟨i, action⟩ := turn
  generalize c.task i = before at hmove
  cases hmove with
  | allocate hfree => exact hle
  | remove haction hid hcall hne => exact (length_keys_erase_le _ _).trans hle
  | keep hstore hgeneration hcall => rwa [hstore]
  | store horder => exact length_storeProcess_le horder hle _
  | prepare hentry =>
    refine le_of_eq_of_le ?_ hle
    exact length_keys_insert_of_mem (mem_keys_of_lookup hentry) _
  | terminate => exact Nat.zero_le _

theorem unconfused_of_step (h : Identified c.shared c.task) (hstep : ProcessStep Distinct c turn d) :
    Unconfused c turn d := by
  obtain ⟨hallowed, htake⟩ := hstep
  obtain ⟨manager, call, hturn, rfl⟩ := take_eq_some.mp htake
  have hmove := move_of_takeTurn h.keyed hturn
  refine ⟨fun _ _ _ _ _ hi => h.lookup_pending hi, ?_⟩
  intro other entry hentry
  obtain ⟨i, action⟩ := turn
  generalize hi : c.task i = before at hmove
  cases hmove with
  | allocate hfree => exact .inl (by rw [← map_some, ← hentry]; rfl)
  | remove haction hid hcall hne =>
    have hown := h.own i other entry
    grind [MayRemove]
  | keep hstore hgeneration hcall => grind
  | store horder =>
    have hnone := h.lookup_pending hi
    grind [MayRemove, storeProcess]
  | prepare hfound => grind
  | terminate => exact .inr (.inl rfl)

omit [DecidableEq ι] in
theorem identified_start : Identified (start (ι := ι)).shared start.task :=
  ⟨nofun, nofun, nofun, nofun, nofun⟩

/-- Along every such run stored ids are reserved, there is room for every process, and no turn
takes a process for another. -/
theorem processes_unconfused (hrun : Run (ProcessStep Distinct) ProcessConfig.start turns c) :
    (∀ processId ∈ c.shared.store.processes.keys, processId ∈ c.shared.store.reservedProcessIds) ∧
      c.shared.store.processes.keys.length ≤ maxUnifiedExecProcesses ∧
        ∀ turn d, ProcessStep Distinct c turn d → Unconfused c turn d := by
  have h : Identified c.shared c.task ∧
      c.shared.store.processes.keys.length ≤ maxUnifiedExecProcesses :=
    Run.invariant (I := fun _ c => Identified c.shared c.task ∧
        c.shared.store.processes.keys.length ≤ maxUnifiedExecProcesses)
      (fun _ _ _ _ h hstep => ⟨h.1.step hstep, length_le_of_step h.1.keyed h.2 hstep⟩) hrun
      ⟨identified_start, Nat.zero_le _⟩
  refine ⟨?_, h.2, fun turn d hstep => unconfused_of_step h.1 hstep⟩
  intro processId hmem
  obtain ⟨entry, hentry⟩ := isSome_iff_exists.mp
    (AList.lookup_isSome.mpr (AList.mem_keys.mp hmem))
  exact h.1.reserved processId entry hentry

instance [Fintype ι] (c : ProcessConfig ι) (turn : Turn ι ProcessAction) :
    Decidable (Distinct c turn) := by
  unfold Distinct
  split <;> infer_instance

/-- Two commands whose processes are stored; the second one ends, and its id is drawn again. -/
def reusedId : List (Turn (Fin 4) ProcessAction) :=
  [⟨0, .allocateProcessId 1000⟩, ⟨1, .allocateProcessId 1001⟩, ⟨0, .storeProcess 1 []⟩,
    ⟨1, .storeProcess 2 [⟨1000, 1, false⟩]⟩, ⟨2, .prepareProcessHandles 1001 3⟩, ⟨1, .exit⟩,
    ⟨2, .refreshProcessState⟩, ⟨1, .leave⟩, ⟨3, .allocateProcessId 1001⟩,
    ⟨3, .storeProcess 4 [⟨1000, 1, false⟩]⟩]

theorem processes_unconfused_reusedId : ∃ c : ProcessConfig (Fin 4),
    Run (ProcessStep Distinct) ProcessConfig.start reusedId c ∧
      c.shared.store.processes.keys = [1001, 1000] ∧
      (∀ processId ∈ c.shared.store.processes.keys, processId ∈ c.shared.store.reservedProcessIds) ∧
      c.shared.store.processes.keys.length ≤ maxUnifiedExecProcesses ∧
        ∀ turn d, ProcessStep Distinct c turn d → Unconfused c turn d := by
  have hrun : Run (ProcessStep Distinct) start reusedId _ := run_of_takeAll rfl
  exact ⟨_, hrun, rfl, processes_unconfused hrun⟩

/-- The reservations are cleared while a call holds an id; its process is stored all the same. -/
def storedUnreserved : List (Turn (Fin 3) ProcessAction) :=
  [⟨0, .allocateProcessId 1000⟩, ⟨2, .terminateAllProcesses⟩, ⟨0, .storeProcess 1 []⟩]

/-- As above, but the id is drawn by another call first, whose process is stored already. -/
def storedTwice : List (Turn (Fin 3) ProcessAction) :=
  [⟨0, .allocateProcessId 1000⟩, ⟨2, .terminateAllProcesses⟩, ⟨1, .allocateProcessId 1000⟩,
    ⟨1, .storeProcess 1 []⟩]

/-- A write waits for output of a process that ends meanwhile, and its id is drawn again. -/
def releasedLate : List (Turn (Fin 3) ProcessAction) :=
  [⟨0, .allocateProcessId 1000⟩, ⟨0, .storeProcess 1 []⟩, ⟨1, .prepareProcessHandles 1000 2⟩,
    ⟨0, .exit⟩, ⟨0, .refreshProcessState⟩, ⟨2, .allocateProcessId 1000⟩, ⟨2, .storeProcess 3 []⟩]

theorem processes_confused : (∃ c : ProcessConfig (Fin 3),
      Run (ProcessStep AnyTurn) ProcessConfig.start storedUnreserved c ∧
        1000 ∈ c.shared.store.processes.keys ∧ 1000 ∉ c.shared.store.reservedProcessIds) ∧
    (∃ c d : ProcessConfig (Fin 3), ∃ turn,
      Run (ProcessStep AnyTurn) ProcessConfig.start storedTwice c ∧
        ProcessStep AnyTurn c turn d ∧ ¬ Unconfused c turn d) ∧
    (∃ c d : ProcessConfig (Fin 3), ∃ turn,
      Run (ProcessStep AnyTurn) ProcessConfig.start releasedLate c ∧
        ProcessStep AnyTurn c turn d ∧ ¬ Unconfused c turn d) := by
  refine ⟨?_, ?_, ?_⟩
  · exact ⟨_, run_of_takeAll rfl, mem_cons_self, Finset.notMem_empty _⟩
  · refine ⟨_, _, ⟨0, .storeProcess 2 [⟨1000, 1, false⟩]⟩, run_of_takeAll rfl, ⟨trivial, rfl⟩, ?_⟩
    intro h
    have hnone : some _ = none := h.replaces 2 _ 1000 0 rfl rfl
    cases hnone
  · refine ⟨_, _, ⟨1, .releaseProcessId⟩, run_of_takeAll rfl, ⟨trivial, rfl⟩, ?_⟩
    intro h
    rcases h.removes 1000 ⟨2, 1000, 3⟩ rfl with hkept | haction | ⟨_, _, haction, -⟩ | ⟨-, hprocess⟩
    · cases hkept
    · cases haction
    · cases haction
    · cases hprocess

end CodexRs.Core
