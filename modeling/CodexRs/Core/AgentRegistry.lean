import CodexRs.Library.Table
import CodexRs.Library.Tasks
import CodexRs.Library.Text

/-!
# The registry of agents

Callers come in wherever the lock of the table is free and between any two accesses of the
counter.
-/
namespace CodexRs.Core.Agents
open Text

def validateAgentName (name : Str) : Bool :=
  name ≠ [] && name ≠ "root".toList && name ≠ ".".toList && name ≠ "..".toList && '/' ∉ name &&
    name.all fun ch => ch.isLower || ch.isDigit || ch = '_'

def validateAbsolutePath (path : Str) : Bool :=
  if path = "/morpheus".toList then true
  else
    match path with
    | '/' :: stripped =>
      match stripped.splitOn '/' with
      | [] => false
      | root :: segments =>
        root = "root".toList && stripped.getLast? ≠ some '/' && segments.all validateAgentName
    | _ => false

structure AgentPath where
  text : Str
  valid : validateAbsolutePath text = true
deriving DecidableEq

def AgentPath.root : AgentPath := ⟨"/root".toList, by decide⟩

def AgentPath.isRoot (path : AgentPath) : Bool := path.text = "/root".toList

theorem AgentPath.head_text (path : AgentPath) : path.text.head? = some '/' := by
  have hvalid := path.valid
  unfold validateAbsolutePath at hvalid
  split_ifs at hvalid with hmorpheus
  · rw [hmorpheus]
    rfl
  · split at hvalid
    · rename_i heq
      rw [heq]
      rfl
    · cases hvalid

variable {ThreadId : Type*}

/-- What is known of an agent. One that has no id yet only keeps its path from others. -/
structure AgentMetadata (ThreadId : Type*) where
  agentId : Option ThreadId
  agentPath : Option AgentPath
  agentNickname : Option Str

namespace AgentMetadata

def placeholder (path : AgentPath) : AgentMetadata ThreadId := ⟨none, some path, none⟩

def isRoot (metadata : AgentMetadata ThreadId) : Bool := metadata.agentPath.any AgentPath.isRoot

/-- An agent that runs and counts against the limit. -/
def isCounted (metadata : AgentMetadata ThreadId) : Bool :=
  metadata.agentId.isSome && !metadata.isRoot

/-- The key of an agent in the table: its path, or its id if it has no path. -/
def key (display : ThreadId → Str) (metadata : AgentMetadata ThreadId) (threadId : ThreadId) : Str :=
  match metadata.agentPath with
  | some path => path.text
  | none => "thread:".toList ++ display threadId

variable {display : ThreadId → Str} {metadata : AgentMetadata ThreadId} {threadId : ThreadId}

theorem key_of_path {path : AgentPath} (h : metadata.agentPath = some path) :
    metadata.key display threadId = path.text := by
  rw [key, h]

theorem key_of_no_path (h : metadata.agentPath = none) :
    metadata.key display threadId = "thread:".toList ++ display threadId := by
  rw [key, h]

end AgentMetadata

abbrev AgentTree (ThreadId : Type*) := AList fun _ : Str => AgentMetadata ThreadId

structure AgentRegistry (ThreadId : Type*) where
  agentTree : AgentTree ThreadId
  usedAgentNicknames : List Str
  nicknameResetCount : ℕ
  totalCount : ℕ

def AgentRegistry.empty : AgentRegistry ThreadId := ⟨∅, [], 0, 0⟩

variable [DecidableEq ThreadId]

structure SpawnReservation where
  reservedAgentNickname : Option Str
  reservedAgentPath : Option AgentPath
deriving DecidableEq

namespace AgentRegistry

section

def ordinalSuffix (value : ℕ) : Str :=
  if 11 ≤ value % 100 ∧ value % 100 ≤ 13 then "th".toList
  else
    match value % 10 with
    | 1 => "st".toList
    | 2 => "nd".toList
    | 3 => "rd".toList
    | _ => "th".toList

def formatAgentNickname (name : Str) (nicknameResetCount : ℕ) : Str :=
  match nicknameResetCount with
  | 0 => name
  | resetCount =>
    let value := resetCount + 1
    name ++ " the ".toList ++ (toString value).toList ++ ordinalSuffix value

variable (registry : AgentRegistry ThreadId) (names : List Str)

def availableNames : List Str :=
  (names.map (formatAgentNickname · registry.nicknameResetCount)).filter
    (· ∉ registry.usedAgentNicknames)

/-- A random one of the names, if there is one; `pick` stands for the choice. -/
def chooseAny (pick : ℕ) : Option Str := names[pick % names.length]?

def chooseNickname (pick : ℕ) : AgentRegistry ThreadId × Option Str :=
  match chooseAny (registry.availableNames names) pick with
  | some name => (registry, some name)
  | none =>
    let resetCount := registry.nicknameResetCount + 1
    ({ registry with usedAgentNicknames := [], nicknameResetCount := resetCount },
      (chooseAny names pick).map (formatAgentNickname · resetCount))

def reserveAgentNickname
    (preferred : Option Str) (pick : ℕ) : AgentRegistry ThreadId × Option Str :=
  let chosen :=
    match preferred with
    | some preferred => (registry, some preferred)
    | none => if names = [] then (registry, none) else chooseNickname registry names pick
  match chosen with
  | (registry, none) => (registry, none)
  | (registry, some nickname) =>
    ({ registry with usedAgentNicknames := nickname :: registry.usedAgentNicknames }, some nickname)

end

variable (registry : AgentRegistry ThreadId)

/-- The counter is lowered without a look at it, and wraps around at zero. -/
def lowerCount : AgentRegistry ThreadId :=
  { registry with
    totalCount := if registry.totalCount = 0 then 2 ^ 64 - 1 else registry.totalCount - 1 }

def raiseCount : AgentRegistry ThreadId :=
  { registry with totalCount := registry.totalCount + 1 }

def insertAgent (key : Str) (metadata : AgentMetadata ThreadId) : AgentRegistry ThreadId :=
  { registry with agentTree := registry.agentTree.insert key metadata }

def removeAgent (key : Str) : AgentRegistry ThreadId :=
  { registry with agentTree := registry.agentTree.erase key }

def registerSpawnedThread (display : ThreadId → Str) (registry : AgentRegistry ThreadId)
    (metadata : AgentMetadata ThreadId) : AgentRegistry ThreadId :=
  match metadata.agentId with
  | none => registry
  | some threadId =>
    let used :=
      match metadata.agentNickname with
      | some nickname => nickname :: registry.usedAgentNicknames
      | none => registry.usedAgentNicknames
    insertAgent { registry with usedAgentNicknames := used } (metadata.key display threadId) metadata

def releaseReservedAgentPath (path : AgentPath) : AgentRegistry ThreadId :=
  if (registry.agentTree.lookup path.text).any (·.agentId.isNone) then registry.removeAgent path.text
  else registry

def registerRootThread (threadId : ThreadId) : AgentRegistry ThreadId :=
  if (registry.agentTree.lookup AgentPath.root.text).isSome then registry
  else registry.insertAgent AgentPath.root.text ⟨some threadId, some .root, none⟩

end AgentRegistry

/-- Where a caller of the registry is: in a call, or with the reservation it got from one. -/
inductive Caller where
  | idle
  /-- It has read a count below the limit and is about to exchange it for the next. -/
  | incrementing (current maxThreads : ℕ)
  | limitReached (maxThreads : ℕ)
  | holding (reservation : SpawnReservation)
  | committed
  /-- It has dropped its reservation and given back the path, but not yet the slot. -/
  | dropping
  | dropped
  /-- It has removed an agent and not yet lowered the counter. -/
  | releasing
  | finished
deriving DecidableEq

inductive Action (ThreadId : Type*) where
  | reserveSpawnSlot (maxThreads : Option ℕ)
  /-- A weak exchange may fail although the value is the expected one. -/
  | compareExchange (spurious : Bool)
  | reserveAgentNickname (names : List Str) (preferred : Option Str) (pick : ℕ)
  | reserveAgentPath (path : AgentPath)
  | agentPathExists (path : AgentPath)
  | commit (metadata : AgentMetadata ThreadId)
  | releaseReservedAgentPath
  | giveBackSlot
  | registerRootThread (threadId : ThreadId)
  /-- The key is that of an agent with the id, of which the table may list any first. -/
  | releaseSpawnedThread (threadId : ThreadId) (key : Option Str)
  | lowerCount

/-- One round of the loop in `try_increment_spawned`. -/
def tryIncrementSpawned (current maxThreads : ℕ) : Caller :=
  if maxThreads ≤ current then .limitReached maxThreads else .incrementing current maxThreads

open AgentRegistry in
def callerSection (display : ThreadId → Str) (action : Action ThreadId)
    (registry : AgentRegistry ThreadId) (caller : Caller) :
    Option (AgentRegistry ThreadId × Caller) :=
  match action, caller with
  | .reserveSpawnSlot (some maxThreads), .idle =>
    some (registry, tryIncrementSpawned registry.totalCount maxThreads)
  | .reserveSpawnSlot none, .idle => some (registry.raiseCount, .holding ⟨none, none⟩)
  | .compareExchange spurious, .incrementing current maxThreads =>
    if registry.totalCount = current ∧ spurious = false then
      some (registry.raiseCount, .holding ⟨none, none⟩)
    else some (registry, tryIncrementSpawned registry.totalCount maxThreads)
  | .reserveAgentNickname names preferred pick, .holding reservation =>
    match reserveAgentNickname registry names preferred pick with
    | (registry, none) => some (registry, .holding reservation)
    | (registry, some nickname) =>
      some (registry, .holding { reservation with reservedAgentNickname := some nickname })
  | .reserveAgentPath path, .holding reservation =>
    if (registry.agentTree.lookup path.text).isSome then none
    else
      some (registry.insertAgent path.text (.placeholder path),
        .holding { reservation with reservedAgentPath := some path })
  | .agentPathExists path, .holding reservation =>
    if (registry.agentTree.lookup path.text).isSome then some (registry, .holding reservation)
    else none
  | .commit metadata, .holding _ => some (registerSpawnedThread display registry metadata, .committed)
  | .releaseReservedAgentPath, .holding ⟨_, some path⟩ =>
    some (registry.releaseReservedAgentPath path, .dropping)
  | .giveBackSlot, .holding ⟨_, none⟩ => some (registry.lowerCount, .dropped)
  | .giveBackSlot, .dropping => some (registry.lowerCount, .dropped)
  | .registerRootThread threadId, .idle => some (registry.registerRootThread threadId, .finished)
  | .releaseSpawnedThread threadId none, .idle =>
    if ∀ entry ∈ registry.agentTree.entries, entry.2.agentId ≠ some threadId then
      some (registry, .finished)
    else none
  | .releaseSpawnedThread threadId (some key), .idle =>
    match registry.agentTree.lookup key with
    | none => none
    | some metadata =>
      if metadata.agentId = some threadId then
        some (registry.removeAgent key, if metadata.isRoot then .finished else .releasing)
      else none
  | .lowerCount, .releasing => some (registry.lowerCount, .finished)
  | _, _ => none

end CodexRs.Core.Agents
