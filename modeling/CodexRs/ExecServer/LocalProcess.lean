import CodexRs.Library.Table
import CodexRs.Library.Tasks
import CodexRs.ExecServer.Process

/-!
# Running processes and their map

Chunks, the exit and the closing are numbered from one counter, each in a section of its own. A
task for each output stream and one for the exit each look whether they are the last one, and a
fourth removes the process some time after its closing. A start reserves the id of the process in
one section and enters the process in another.
-/
namespace CodexRs.ExecServer
open Text Tasks

def retainedOutputBytesPerProcess : ℕ := 1024 * 1024
def execEventChannelCapacity : ℕ := 256

structure RetainedOutputChunk where
  seq : ℕ
  stream : ExecOutputStream
  chunk : List UInt8
deriving DecidableEq

abbrev ExecCommandSession := ℕ

structure RunningProcess where
  session : ExecCommandSession
  output : List RetainedOutputChunk
  retainedBytes : ℕ
  nextSeq : ℕ
  exitCode : Option ℤ
  wake : ℕ
  openStreams : ℕ
  closed : Bool
deriving DecidableEq

namespace RunningProcess

def new (session : ExecCommandSession) : RunningProcess where
  session := session
  output := []
  retainedBytes := 0
  nextSeq := 1
  exitCode := none
  wake := 0
  openStreams := 2
  closed := false

/-- Drops the oldest chunks while too many bytes are retained. -/
def evictOutput : List RetainedOutputChunk → ℕ → List RetainedOutputChunk × ℕ
  | [], retainedBytes => ([], retainedBytes)
  | evicted :: output, retainedBytes =>
    if retainedOutputBytesPerProcess < retainedBytes then
      evictOutput output (retainedBytes - evicted.chunk.length)
    else (evicted :: output, retainedBytes)

/-- The section of `stream_output` for one chunk. -/
def recordOutput (process : RunningProcess) (stream : ExecOutputStream) (chunk : List UInt8) :
    RunningProcess × ExecProcessEvent :=
  let seq := process.nextSeq
  let kept := evictOutput (process.output ++ [⟨seq, stream, chunk⟩])
    (process.retainedBytes + chunk.length)
  ({ process with nextSeq := seq + 1, output := kept.1, retainedBytes := kept.2, wake := seq },
    .output ⟨seq, stream, chunk⟩)

/-- The section of `watch_exit`. -/
def recordExit (process : RunningProcess) (exitCode : ℤ) : RunningProcess × ExecProcessEvent :=
  let seq := process.nextSeq
  ({ process with nextSeq := seq + 1, exitCode := some exitCode, wake := seq },
    .exited seq exitCode)

/-- The section of `finish_output_stream`. -/
def finishOutputStream (process : RunningProcess) : RunningProcess :=
  { process with openStreams := process.openStreams - 1 }

/-- The section of `maybe_emit_closed`, which does nothing until all parts are done. -/
def maybeEmitClosed (process : RunningProcess) : Option (RunningProcess × ExecProcessEvent) :=
  if process.closed = true ∨ process.openStreams ≠ 0 ∨ process.exitCode = none then none
  else
    let seq := process.nextSeq
    some ({ process with closed := true, nextSeq := seq + 1, wake := seq }, .closed seq)

variable (process : RunningProcess)

theorem maybeEmitClosed_eq_some {process' : RunningProcess} {event : ExecProcessEvent} :
    process.maybeEmitClosed = some (process', event) ↔
      process.closed = false ∧ process.openStreams = 0 ∧ process.exitCode ≠ none ∧ process' =
          { process with
            closed := true, nextSeq := process.nextSeq + 1, wake := process.nextSeq } ∧
        event = .closed process.nextSeq := by
  unfold maybeEmitClosed
  split_ifs with h
  · simp only [false_iff]
    rintro ⟨hclosed, hopen, hexit, -, -⟩
    simp [hclosed, hopen, hexit] at h
  · simp only [not_or, Bool.not_eq_true, not_not, ne_eq] at h
    constructor
    · rintro ⟨⟩
      exact ⟨h.1, h.2.1, h.2.2, rfl, rfl⟩
    · rintro ⟨-, -, -, rfl, rfl⟩
      rfl

theorem maybeEmitClosed_eq_none : process.maybeEmitClosed = none ↔
      process.closed = true ∨ process.openStreams ≠ 0 ∨ process.exitCode = none := by
  unfold maybeEmitClosed
  split_ifs with h <;> simp [h]

end RunningProcess

inductive ProcessTask where
  | stdout
  | stderr
  | exit
  | cleanup
deriving DecidableEq

/-- Where a task stands: it awaits something, or the lock of the process map. -/
inductive TaskState where
  | receiving
  | holding (chunk : List UInt8)
  | finishing
  | awaitingExit
  | exited (exitCode : ℤ)
  | closing
  | retaining
  | done
deriving DecidableEq

inductive TaskAction where
  | receive (chunk : List UInt8)
  | endOfStream
  | exitStatus (exitCode : ℤ)
  | enter
deriving DecidableEq

/-- The history tells who published what, the chunks that each task has received, and the streams
that were counted as ended. -/
structure ProcessState where
  tty : Bool
  entry : Option RunningProcess
  events : ExecProcessEventLog
  published : List (ProcessTask × ExecProcessEvent)
  received : ProcessTask → List (List UInt8)
  ended : ProcessTask → Bool

variable (tty : Bool)

def streamOf : ProcessTask → ExecOutputStream
  | .stdout => if tty then .pty else .stdout
  | _ => if tty then .pty else .stderr

/-- What a section under the lock does with the entry of the process. -/
inductive EntryChange where
  | keep
  | publish (r : RunningProcess × ExecProcessEvent)
  | finish (process : RunningProcess)
  | close (r : RunningProcess × ExecProcessEvent)
  | remove (process : RunningProcess)

/-- The sections under the lock of the process map, with the entry that they find. -/
def lockSection (stream : ExecOutputStream) (entry : Option RunningProcess) :
    TaskState → Option (EntryChange × TaskState)
  | .holding chunk =>
    match entry with
    | none => some (.keep, .finishing)
    | some process => some (.publish (process.recordOutput stream chunk), .receiving)
  | .finishing =>
    match entry with
    | none => some (.keep, .done)
    | some process => some (.finish process, .closing)
  | .exited exitCode =>
    match entry with
    | none => some (.keep, .closing)
    | some process => some (.publish (process.recordExit exitCode), .closing)
  | .closing =>
    match entry.bind RunningProcess.maybeEmitClosed with
    | none => some (.keep, .done)
    | some r => some (.close r, .done)
  | .retaining =>
    match entry with
    | none => some (.keep, .done)
    | some process => some (if process.closed then .remove process else .keep, .done)
  | _ => none

namespace ProcessState

def publish (s : ProcessState) (task : ProcessTask) (r : RunningProcess × ExecProcessEvent) :
    ProcessState :=
  { s with
    entry := some r.1
    events := s.events.publish r.2
    published := s.published ++ [(task, r.2)] }

def receive (s : ProcessState) (task : ProcessTask) (chunk : List UInt8) : ProcessState :=
  { s with received := Function.update s.received task (s.received task ++ [chunk]) }

def finish (s : ProcessState) (task : ProcessTask) (process : RunningProcess) : ProcessState :=
  { s with
    entry := some process.finishOutputStream
    ended := Function.update s.ended task true }

def apply (task : ProcessTask) (s : ProcessState) : EntryChange → ProcessState
  | .keep => s
  | .publish r => s.publish task r
  | .finish process => s.finish task process
  | .close r => s.publish task r
  | .remove _ => { s with entry := none }

def enter (task : ProcessTask) (s : ProcessState) (t : TaskState) :
    Option (ProcessState × TaskState) :=
  -- The task that removes the process is spawned by the section that publishes the closing.
  if t = .retaining ∧ s.events.live.any (·.isClosed) = false then none
  else (lockSection (streamOf s.tty task) s.entry t).map fun r => (s.apply task r.1, r.2)

def sec (task : ProcessTask) (action : TaskAction) (s : ProcessState) (t : TaskState) :
    Option (ProcessState × TaskState) :=
  match action, t with
  | .receive chunk, .receiving => some (s.receive task chunk, .holding chunk)
  | .endOfStream, .receiving => some (s, .finishing)
  | .exitStatus exitCode, .awaitingExit => some (s, .exited exitCode)
  | .enter, t => s.enter task t
  | _, _ => none

/-- The process map right after the process was entered. -/
def started (session : ExecCommandSession) : ProcessState where
  tty := tty
  entry := some (.new session)
  events := .new execEventChannelCapacity retainedOutputBytesPerProcess
  published := []
  received _ := []
  ended _ := false

end ProcessState

/-- The four tasks at their start. -/
def startedTasks : ProcessTask → TaskState
  | .stdout | .stderr => .receiving
  | .exit => .awaitingExit
  | .cleanup => .retaining

def startedProcess (session : ExecCommandSession) : Config ProcessTask ProcessState TaskState :=
  ⟨.started tty session, startedTasks⟩

/-- All that a turn of a task can do. -/
inductive Move (task : ProcessTask) (s : ProcessState) :
    TaskState → ProcessState → TaskState → Prop
  | receive (chunk) : Move task s .receiving (s.receive task chunk) (.holding chunk)
  | endOfStream : Move task s .receiving s .finishing
  | exitStatus (exitCode : ℤ) : Move task s .awaitingExit s (.exited exitCode)
  | output {process} (chunk) (h : s.entry = some process) : Move task s (.holding chunk)
        (s.publish task (process.recordOutput (streamOf s.tty task) chunk)) .receiving
  | outputGone (chunk) (h : s.entry = none) : Move task s (.holding chunk) s .finishing
  | finish {process} (h : s.entry = some process) :
      Move task s .finishing (s.finish task process) .closing
  | finishGone (h : s.entry = none) : Move task s .finishing s .done
  | exit {process} (exitCode : ℤ) (h : s.entry = some process) :
      Move task s (.exited exitCode) (s.publish task (process.recordExit exitCode)) .closing
  | exitGone (exitCode : ℤ) (h : s.entry = none) : Move task s (.exited exitCode) s .closing
  | close {process process' event} (h : s.entry = some process)
      (hclose : process.maybeEmitClosed = some (process', event)) :
      Move task s .closing (s.publish task (process', event)) .done
  | keepOpen (h : ∀ process, s.entry = some process → process.maybeEmitClosed = none) :
      Move task s .closing s .done
  | remove (h : s.events.live.any (·.isClosed) = true) :
      Move task s .retaining { s with entry := s.entry.filter (!·.closed) } .done

open ProcessState in
theorem move_of_sec {task : ProcessTask} {action : TaskAction} {s s' : ProcessState}
    {t t' : TaskState} (h : s.sec task action t = some (s', t')) : Move task s t s' t' := by
  unfold sec at h
  split at h
  · cases h
    exact .receive _
  · cases h
    exact .endOfStream
  · cases h
    exact .exitStatus _
  · cases t with
    | holding chunk =>
      cases hentry : s.entry <;> simp only [enter, lockSection, hentry] at h <;> cases h
      · exact .outputGone chunk hentry
      · exact .output chunk hentry
    | finishing =>
      cases hentry : s.entry <;> simp only [enter, lockSection, hentry] at h <;> cases h
      · exact .finishGone hentry
      · exact .finish hentry
    | exited exitCode =>
      cases hentry : s.entry <;> simp only [enter, lockSection, hentry] at h <;> cases h
      · exact .exitGone exitCode hentry
      · exact .exit exitCode hentry
    | closing =>
      cases hclose : s.entry.bind RunningProcess.maybeEmitClosed <;>
        simp only [enter, lockSection, hclose] at h <;> cases h
      · refine .keepOpen fun process hentry => ?_
        simpa [hentry] using hclose
      · obtain ⟨process, hentry, hclose⟩ := Option.bind_eq_some_iff.mp hclose
        exact .close hentry hclose
    | retaining =>
      rw [enter] at h
      split_ifs at h with hopen
      have hclosed : s.events.live.any (·.isClosed) = true := by simpa using hopen
      have hremove (entry : Option RunningProcess) (hentry : s.entry.filter (!·.closed) = entry) :
          Move task s .retaining { s with entry } .done := hentry ▸ .remove hclosed
      cases hentry : s.entry <;> simp only [lockSection, hentry] at h <;> cases h
      · exact hremove s.entry (by rw [hentry]; rfl)
      · split_ifs with hdone
        · exact hremove none (by simp [hentry, hdone])
        · exact hremove s.entry (by simp [hentry, hdone])
    | receiving => cases h
    | awaitingExit => cases h
    | done => cases h
  · cases h

structure ExecParams where
  processId : ProcessId
  argv : List Str
  tty : Bool
deriving DecidableEq

inductive ProcessEntry where
  | starting
  | running (process : RunningProcess)
deriving DecidableEq

/-- A task of a process, which finds the process by its id. -/
structure ProcessJob where
  processId : ProcessId
  tty : Bool
  task : ProcessTask
  state : TaskState
deriving DecidableEq

/-- How far the call of `shutdown` has come, and which task makes it. -/
inductive ShutdownPhase (ι : Type*) where
  | notCalled
  | called (task : ι)
  | drained (task : ι)
  | returned
deriving DecidableEq

/-- Where a call or a task of a process stands. A start remembers whether it began before the
call of `shutdown`. -/
inductive CallState where
  | idle
  | starting (params : ExecParams) (early : Bool)
  | spawning (params : ExecParams) (early : Bool)
  | spawned (params : ExecParams) (session : ExecCommandSession) (early : Bool)
  | spawnFailed (params : ExecParams) (early : Bool)
  | terminating (processId : ProcessId)
  | shuttingDown
  | terminatingAll (remaining : List ExecCommandSession)
  | running (job : ProcessJob)
deriving DecidableEq

inductive CallAction where
  | start (params : ExecParams)
  | terminate (processId : ProcessId)
  | shutdown
  | run (index : ℕ)
  | spawn (result : Option ExecCommandSession)
  | task (action : TaskAction)
  | enter
  | exit (session : ExecCommandSession)
deriving DecidableEq

/-- The history tells the processes that were spawned, with whether their start began before the
shutdown, and those that were asked to terminate or have exited. -/
structure ProcessMap (ι : Type*) where
  processes : AList fun _ : ProcessId => ProcessEntry
  runnable : List ProcessJob
  phase : ShutdownPhase ι
  spawned : List (ExecCommandSession × Bool)
  asked : ExecCommandSession → Bool
  exited : ExecCommandSession → Bool

namespace ProcessMap
variable {ι : Type*} (s : ProcessMap ι)

def new : ProcessMap ι := ⟨∅, [], .notCalled, [], fun _ => false, fun _ => false⟩

def terminate (session : ExecCommandSession) : ProcessMap ι :=
  { s with asked := Function.update s.asked session true }

/-- A handle that is dropped terminates its process. -/
def drop : Option ProcessEntry → ProcessMap ι
  | some (.running process) => s.terminate process.session
  | _ => s

variable (processId : ProcessId)

def get : Option RunningProcess :=
  match s.processes.lookup processId with
  | some (.running process) => some process
  | _ => none

def insert (processId : ProcessId) (entry : ProcessEntry) : ProcessMap ι :=
  { s with processes := s.processes.insert processId entry }

def remove : ProcessMap ι :=
  { s with processes := s.processes.erase processId }

/-- The sessions of the processes that are running. -/
def sessions : List ExecCommandSession :=
  s.processes.entries.filterMap fun entry =>
    match entry.2 with
    | .starting => none
    | .running process => some process.session

/-- The tasks of a process that is entered. -/
def processTasks (params : ExecParams) : List ProcessJob :=
  [⟨params.processId, params.tty, .stdout, .receiving⟩,
   ⟨params.processId, params.tty, .stderr, .receiving⟩,
   ⟨params.processId, params.tty, .exit, .awaitingExit⟩]

def applyChange (job : ProcessJob) : EntryChange → ProcessMap ι
  | .keep => s
  | .publish r => s.insert job.processId (.running r.1)
  | .finish process => s.insert job.processId (.running process.finishOutputStream)
  | .close r =>
    let s := s.insert job.processId (.running r.1)
    let cleanup := ⟨job.processId, job.tty, .cleanup, .retaining⟩
    { s with runnable := s.runnable ++ [cleanup] }
  | .remove process => (s.remove job.processId).drop (some (.running process))

/-- The sections of the tasks of a process. -/
def enterTask (job : ProcessJob) : Option (ProcessMap ι × TaskState) :=
  (lockSection (streamOf job.tty job.task) (s.get job.processId) job.state).map fun r =>
    (s.applyChange job r.1, r.2)

/-- What a task of a process awaits, between its sections. -/
def advance : TaskAction → TaskState → Option TaskState
  | .receive chunk, .receiving => some (.holding chunk)
  | .endOfStream, .receiving => some .finishing
  | .exitStatus exitCode, .awaitingExit => some (.exited exitCode)
  | _, _ => none

/-- The sections under the lock of the process map. -/
def enter : CallState → Option (ProcessMap ι × CallState)
  | .starting params early =>
    if params.processId ∈ s.processes then some (s, .idle)
    else some (s.insert params.processId .starting, .spawning params early)
  | .spawned params session _ =>
    let t := s.drop (s.processes.lookup params.processId)
    let t := t.insert params.processId (.running (.new session))
    some ({ t with runnable := t.runnable ++ processTasks params }, .idle)
  | .spawnFailed params _ =>
    if s.processes.lookup params.processId = some .starting then
      some (s.remove params.processId, .idle)
    else some (s, .idle)
  | .terminating processId =>
    match s.get processId with
    | none => some (s, .idle)
    | some process =>
      if process.exitCode.isSome then some (s, .idle)
      else some (s.terminate process.session, .idle)
  | .running job => (s.enterTask job).map fun r => (r.1, .running { job with state := r.2 })
  | _ => none

variable [DecidableEq ι]

/-- The steps of `shutdown`: the section that drains the map, and the loop behind it. -/
def shutDown (i : ι) : CallState → Option (ProcessMap ι × CallState)
  | .shuttingDown =>
    some ({ s with processes := ∅, phase := .drained i }, .terminatingAll s.sessions)
  | .terminatingAll (session :: remaining) =>
    some (s.terminate session, .terminatingAll remaining)
  | .terminatingAll [] => some ({ s with phase := .returned }, .idle)
  | _ => none

def sec (i : ι) (action : CallAction) (s : ProcessMap ι) (t : CallState) :
    Option (ProcessMap ι × CallState) :=
  match action, t with
  | .start params, .idle =>
    if params.argv = [] then some (s, .idle)
    else some (s, .starting params (s.phase = .notCalled))
  | .terminate processId, .idle => some (s, .terminating processId)
  | .shutdown, .idle =>
    if s.phase = .notCalled then some ({ s with phase := .called i }, .shuttingDown) else none
  | .run index, .idle =>
    (s.runnable[index]?).map fun job =>
      ({ s with runnable := s.runnable.eraseIdx index }, .running job)
  | .spawn none, .spawning params early => some (s, .spawnFailed params early)
  | .spawn (some session), .spawning params early =>
    -- The system gives each process a handle of its own.
    if session ∈ s.spawned.map Prod.fst then none
    else some ({ s with spawned := (session, early) :: s.spawned }, .spawned params session early)
  | .task action, .running job =>
    (advance action job.state).map fun t => (s, .running { job with state := t })
  | .exit session, t => some ({ s with exited := Function.update s.exited session true }, t)
  | .enter, t => (s.shutDown i t).or (s.enter t)
  | _, _ => none

end ProcessMap

end CodexRs.ExecServer
