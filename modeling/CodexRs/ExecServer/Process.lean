import CodexRs.Library.Base64

/-!
# Events of a process

A log keeps the newest events for those who subscribe late.
-/
namespace CodexRs.ExecServer
open Text Base64

abbrev ProcessId := Str

inductive ExecOutputStream where
  | stdout
  | stderr
  | pty
deriving DecidableEq

structure ProcessOutputChunk where
  seq : ℕ
  stream : ExecOutputStream
  chunk : List UInt8
deriving DecidableEq

inductive ExecProcessEvent where
  | output (chunk : ProcessOutputChunk)
  | exited (seq : ℕ) (exitCode : ℤ)
  | closed (seq : ℕ)
  | failed (message : Str)
deriving DecidableEq

namespace ExecProcessEvent

def seq : ExecProcessEvent → Option ℕ
  | .output chunk => some chunk.seq
  | .exited seq _ => some seq
  | .closed seq => some seq
  | .failed _ => none

def retainedLen : ExecProcessEvent → ℕ
  | .output chunk => chunk.chunk.length
  | .failed message => utf8Length message
  | .exited _ _ | .closed _ => 0

def isClosed : ExecProcessEvent → Bool
  | .closed _ => true
  | _ => false

def isExited : ExecProcessEvent → Bool
  | .exited _ _ => true
  | _ => false

def isFailed : ExecProcessEvent → Bool
  | .failed _ => true
  | _ => false

end ExecProcessEvent

/-- The events that are kept for replay, and all that were sent to the live channel. -/
structure ExecProcessEventLog where
  events : List ExecProcessEvent
  retainedBytes : ℕ
  live : List ExecProcessEvent
  eventCapacity : ℕ
  byteCapacity : ℕ

namespace ExecProcessEventLog

def new (eventCapacity byteCapacity : ℕ) : ExecProcessEventLog :=
  ⟨[], 0, [], eventCapacity, byteCapacity⟩

/-- Drops the oldest events while there are too many, or too many bytes. -/
def evict (eventCapacity byteCapacity : ℕ) : List ExecProcessEvent → ℕ → List ExecProcessEvent × ℕ
  | [], retainedBytes => ([], retainedBytes)
  | event :: events, retainedBytes =>
    if eventCapacity < (event :: events).length ∨ byteCapacity < retainedBytes then
      evict eventCapacity byteCapacity events (retainedBytes - event.retainedLen)
    else (event :: events, retainedBytes)

variable (log : ExecProcessEventLog) (event : ExecProcessEvent)

def publish : ExecProcessEventLog :=
  let kept := evict log.eventCapacity log.byteCapacity (log.events ++ [event])
    (log.retainedBytes + event.retainedLen)
  { log with events := kept.1, retainedBytes := kept.2, live := log.live ++ [event] }

@[simp] theorem publish_live : (log.publish event).live = log.live ++ [event] := rfl

theorem foldl_publish_live (events : List ExecProcessEvent) :
    (events.foldl publish log).live = log.live ++ events := by
  induction events generalizing log with
  | nil => simp
  | cons event events ih => simp [ih]

end ExecProcessEventLog

end CodexRs.ExecServer
