import CodexRs.Library.Table
import CodexRs.Library.Tasks

/-!
# The store of unified exec processes

Calls meet at the lock of the store. A process is named by the call that starts it.
-/
namespace CodexRs.Core
open Tasks

def maxUnifiedExecProcesses : ℕ := 64

structure ProcessEntry (ι : Type*) where
  process : ι
  processId : ℤ
  lastUsed : ℕ

structure ProcessStore (ι : Type*) where
  processes : AList fun _ : ℤ => ProcessEntry ι
  reservedProcessIds : Finset ℤ

/-- What pruning looks at. -/
structure ProcessMeta where
  processId : ℤ
  lastUsed : ℕ
  hasExited : Bool
deriving DecidableEq

def processIdToPruneFromMeta (metas : List ProcessMeta) : Option ℤ :=
  if metas = [] then none
  else
    let byRecency := metas.insertionSort fun a b => b.lastUsed ≤ a.lastUsed
    let protectedIds := (byRecency.take 8).map ProcessMeta.processId
    let lru := metas.insertionSort fun a b => a.lastUsed ≤ b.lastUsed
    match lru.find? fun entry => entry.processId ∉ protectedIds ∧ entry.hasExited with
    | some entry => some entry.processId
    | none => (lru.find? fun entry => entry.processId ∉ protectedIds).map ProcessMeta.processId

namespace ProcessStore
variable {ι : Type*} (store : ProcessStore ι)

def empty : ProcessStore ι := ⟨∅, ∅⟩

def remove (processId : ℤ) : ProcessStore ι :=
  ⟨store.processes.erase processId, store.reservedProcessIds.erase processId⟩

def metas (hasExited : ι → Bool) : List ProcessMeta :=
  store.processes.entries.map fun entry =>
    ⟨entry.1, entry.2.lastUsed, hasExited entry.2.process⟩

variable (order : List ProcessMeta)

/-- The id that is pruned to make room; the entries come in some order. -/
def idToPrune : Option ℤ :=
  if store.processes.keys.length < maxUnifiedExecProcesses then none
  else processIdToPruneFromMeta order

def pruneProcessesIfNeeded : ProcessStore ι :=
  match store.idToPrune order with
  | some processId => store.remove processId
  | none => store

def storeProcess (entry : ProcessEntry ι) : ProcessStore ι :=
  let pruned := store.pruneProcessesIfNeeded order
  { pruned with processes := pruned.processes.insert entry.processId entry }

def refreshProcessState (hasExited : ι → Bool) (processId : ℤ) : ProcessStore ι :=
  match store.processes.lookup processId with
  | some entry => if hasExited entry.process then store.remove entry.processId else store
  | none => store

/-- The entry that is looked up is marked as used. -/
def prepareProcessHandles (processId : ℤ) (now : ℕ) : ProcessStore ι × Option (ProcessEntry ι) :=
  match store.processes.lookup processId with
  | some entry =>
    ({ store with
        processes := store.processes.insert processId { entry with lastUsed := now } }, some entry)
  | none => (store, none)

end ProcessStore

/-- How often all processes were terminated is only recorded. -/
structure ProcessManager (ι : Type*) where
  store : ProcessStore ι
  hasExited : ι → Bool
  generation : ℕ

/-- A command has its id, then its process may be stored; a write has looked up a process, and may
look again after it failed. -/
inductive ProcessCall (ι : Type*)
  | idle
  | allocated (processId : ℤ) (generation : ℕ)
  | stored (processId : ℤ)
  | writing (processId : ℤ) (process : ι)
  | rechecked (processId : ℤ) (process : ι)
  | finished

inductive ProcessAction
  /-- The id that is drawn is not reserved. -/
  | allocateProcessId (processId : ℤ)
  /-- The command was refused, failed or was short-lived, or the process that was written to failed.
  -/
  | releaseProcessId
  | storeProcess (startedAt : ℕ) (order : List ProcessMeta)
  | refreshProcessState
  | recheckProcessState
  | prepareProcessHandles (processId : ℤ) (now : ℕ)
  | terminateAllProcesses
  /-- The call returns or is dropped. -/
  | leave
  /-- The process of the call exits. -/
  | exit

namespace ProcessCall
variable {ι : Type*}

/-- The id a call in progress works with. -/
def processId : ProcessCall ι → Option ℤ
  | .allocated processId _ => some processId
  | .stored processId => some processId
  | .writing processId _ => some processId
  | .rechecked processId _ => some processId
  | .idle => none
  | .finished => none

/-- The process that the call `i` works on. -/
def process (i : ι) : ProcessCall ι → Option ι
  | .allocated _ _ => some i
  | .stored _ => some i
  | .writing _ process => some process
  | .rechecked _ process => some process
  | .idle => none
  | .finished => none

end ProcessCall

namespace ProcessManager
variable {ι : Type*}

def new : ProcessManager ι := ⟨.empty, fun _ => false, 0⟩

variable (manager : ProcessManager ι) (store : ProcessStore ι)

def withStore : ProcessManager ι :=
  { manager with store }

@[simp, grind =] theorem withStore_store : (manager.withStore store).store = store := rfl

@[grind =] theorem withStore_generation :
    (manager.withStore store).generation = manager.generation := rfl

variable [DecidableEq ι]

/-- What the call `i` does in one critical section. -/
def takeTurn (i : ι) : ProcessAction → ProcessManager ι → ProcessCall ι →
    Option (ProcessManager ι × ProcessCall ι)
  | .allocateProcessId processId, manager, .idle =>
    if processId ∈ manager.store.reservedProcessIds then none
    else
      some (manager.withStore { manager.store with
          reservedProcessIds := insert processId manager.store.reservedProcessIds },
        .allocated processId manager.generation)
  | .releaseProcessId, manager, call =>
    call.processId.map fun processId =>
      (manager.withStore (manager.store.remove processId), .finished)
  | .storeProcess startedAt order, manager, .allocated processId _ =>
    if manager.hasExited i = false ∧ order.Perm (manager.store.metas manager.hasExited) then
      some (manager.withStore (manager.store.storeProcess order ⟨i, processId, startedAt⟩),
        .stored processId)
    else none
  | .refreshProcessState, manager, .stored processId =>
    some (manager.withStore (manager.store.refreshProcessState manager.hasExited processId),
      .finished)
  | .refreshProcessState, manager, .writing processId _ =>
    some (manager.withStore (manager.store.refreshProcessState manager.hasExited processId),
      .finished)
  | .recheckProcessState, manager, .writing processId process =>
    some (manager.withStore (manager.store.refreshProcessState manager.hasExited processId),
      .rechecked processId process)
  | .prepareProcessHandles processId now, manager, .idle =>
    let (store, entry) := manager.store.prepareProcessHandles processId now
    some (manager.withStore store,
      match entry with
      | some entry => .writing entry.processId entry.process
      | none => .finished)
  | .terminateAllProcesses, manager, .idle =>
    -- the entries are drained and all reservations are cleared
    some ({ manager with store := .empty, generation := manager.generation + 1 }, .finished)
  | .leave, manager, _ => some (manager, .finished)
  | .exit, manager, call =>
    some ({ manager with hasExited := Function.update manager.hasExited i true }, call)
  | _, _, _ => none

end ProcessManager

abbrev ProcessConfig (ι : Type*) := Config ι (ProcessManager ι) (ProcessCall ι)

def ProcessConfig.start {ι : Type*} : ProcessConfig ι := ⟨.new, fun _ => .idle⟩

abbrev ProcessStep {ι : Type*} [DecidableEq ι]
    (allowed : ProcessConfig ι → Turn ι ProcessAction → Prop) :=
  Step (ProcessManager.takeTurn (ι := ι)) allowed

end CodexRs.Core
