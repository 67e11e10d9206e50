import CodexRs.Library.Tasks
import CodexRs.Library.Text

/-!
# Serialized requests

That the map has an entry for a key stands for the task that drains its queue.
-/
namespace CodexRs.AppServer
open Text Tasks

inductive RequestSerializationQueueKey
  | global (name : Str)
  | thread (threadId : Str)
  | threadPath (path : Str)
  | commandExecProcess (connectionId : ℕ) (processId : Str)
  | process (connectionId : ℕ) (processHandle : Str)
  | fuzzyFileSearchSession (sessionId : Str)
  | fsWatch (connectionId : ℕ) (watchId : Str)
  | mcpOauth (serverName : Str)
deriving DecidableEq

/-- The futures enqueued for a key are numbered in this order. -/
structure QueuedInitializedRequest where
  gate : ℕ
  future : ℕ
deriving DecidableEq

abbrev QueueMap := RequestSerializationQueueKey → Option (List QueuedInitializedRequest)
abbrev History := RequestSerializationQueueKey → List QueuedInitializedRequest

/-- The histories tell what was enqueued, taken out of the queue and started for each key. -/
structure RequestSerializationQueues where
  inner : QueueMap
  accepting : ℕ → Bool
  enqueued : History
  taken : History
  started : History

/-- A call that enqueues or shuts a gate, and the task that drains the queue it made. -/
inductive RequestTask
  | idle
  | spawning (key : RequestSerializationQueueKey)
  | draining (key : RequestSerializationQueueKey)
  | admitting (key : RequestSerializationQueueKey) (request : QueuedInitializedRequest)
  | running (key : RequestSerializationQueueKey) (request : QueuedInitializedRequest)
  | panicked (key : RequestSerializationQueueKey)
  | finished
deriving DecidableEq

inductive RequestAction
  | enqueue (key : RequestSerializationQueueKey) (gate : ℕ)
  | spawn
  | takeNext
  | enterGate
  | finish
  | panic
  | shutdown (gate : ℕ)

def History.push (history : History) (key : RequestSerializationQueueKey)
    (request : QueuedInitializedRequest) : History :=
  Function.update history key (history key ++ [request])

namespace RequestSerializationQueues

def default : RequestSerializationQueues :=
  { inner := fun _ => none, accepting := fun _ => true, enqueued := fun _ => [],
    taken := fun _ => [], started := fun _ => [] }

variable (queues : RequestSerializationQueues) (key : RequestSerializationQueueKey)

/-- The part of a call under the lock. -/
def enqueue (gate : ℕ) : RequestSerializationQueues × RequestTask :=
  let request : QueuedInitializedRequest := ⟨gate, (queues.enqueued key).length⟩
  let noted := { queues with enqueued := queues.enqueued.push key request }
  match queues.inner key with
  | some queue =>
    ({ noted with inner := Function.update queues.inner key (some (queue ++ [request])) },
      .finished)
  | none => ({ noted with inner := Function.update queues.inner key (some [request]) },
      .spawning key)

/-- One round of the drain task under the lock. -/
def drain : RequestSerializationQueues × RequestTask :=
  match queues.inner key with
  | none => (queues, .finished)
  | some [] => ({ queues with inner := Function.update queues.inner key none }, .finished)
  | some (request :: rest) =>
    ({ queues with
        inner := Function.update queues.inner key (some rest)
        taken := queues.taken.push key request }, .admitting key request)

/-- A gate that is shut drops the future without starting it. -/
def gateRun (request : QueuedInitializedRequest) : RequestSerializationQueues × RequestTask :=
  if queues.accepting request.gate then
    ({ queues with started := queues.started.push key request }, .running key request)
  else (queues, .draining key)

def gateShutdown (gate : ℕ) : RequestSerializationQueues :=
  { queues with accepting := Function.update queues.accepting gate false }

/-- What a task does between two points where others may come in. A panic of the future
ends the task that polls it. -/
def takeTurn : RequestAction → RequestSerializationQueues → RequestTask →
    Option (RequestSerializationQueues × RequestTask)
  | .enqueue key gate, queues, .idle => some (queues.enqueue key gate)
  | .spawn, queues, .spawning key => some (queues, .draining key)
  | .takeNext, queues, .draining key => some (queues.drain key)
  | .enterGate, queues, .admitting key request => some (queues.gateRun key request)
  | .finish, queues, .running key _ => some (queues, .draining key)
  | .panic, queues, .running key _ => some (queues, .panicked key)
  | .shutdown gate, queues, .idle => some (queues.gateShutdown gate, .finished)
  | _, _, _ => none

end RequestSerializationQueues

variable {ι : Type*}

abbrev RequestConfig (ι : Type*) := Config ι RequestSerializationQueues RequestTask

def RequestConfig.start : RequestConfig ι := ⟨.default, fun _ => .idle⟩

variable [DecidableEq ι]

abbrev RequestStep (allowed : RequestConfig ι → Turn ι RequestAction → Prop) :=
  Step (fun _ : ι => RequestSerializationQueues.takeTurn) allowed

end CodexRs.AppServer
