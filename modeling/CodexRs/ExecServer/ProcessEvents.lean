import CodexRs.ExecServer.LocalProcess

/-!
# The events of a process are numbered without gaps and end with its closing

Its log has the numbers from one on, however the tasks interleave.
-/
namespace CodexRs.ExecServer
open Tasks Machine ExecProcessEvent Function List ProcessState RunningProcess TaskState Bool ExecProcessEventLog Option

/-- The chunks that a task has published. -/
def chunksOf (task : ProcessTask) (published : List (ProcessTask × ExecProcessEvent)) :
    List (List UInt8) :=
  published.filterMap fun p =>
    match p with
    | (publisher, .output chunk) => if publisher = task then some chunk.chunk else none
    | _ => none

/-- The chunk that a task has received and not yet published. -/
def TaskState.inHand : TaskState → List (List UInt8)
  | .holding chunk => [chunk]
  | _ => []

namespace ProcessState

/-- How many of the two streams were not yet counted as ended. -/
def streamsLeft (s : ProcessState) : ℕ :=
  (if s.ended .stdout then 0 else 1) + if s.ended .stderr then 0 else 1

/-- What the entry of the process knows of its log. -/
structure Running (s : ProcessState) (process : RunningProcess) : Prop where
  nextSeq : process.nextSeq = s.events.live.length + 1
  openStreams : process.openStreams = s.streamsLeft
  exitCode : process.exitCode ≠ none ↔ s.events.live.any (·.isExited) = true
  closed : process.closed = s.events.live.any (·.isClosed)

/-- The closing is behind the exit, when both streams have ended, and behind it is nothing. -/
structure Closed (s : ProcessState) : Prop where
  last : ∃ before seq, s.events.live = before ++ [.closed seq] ∧
    before.any (·.isClosed) = false ∧ before.any (·.isExited) = true
  stdout : s.ended .stdout = true
  stderr : s.ended .stderr = true

structure Sound (s : ProcessState) : Prop where
  live : s.events.live = s.published.map Prod.snd
  seqs : s.events.live.map seq =
    (range' 1 s.events.live.length).map some
  streams : ∀ task chunk, (task, .output chunk) ∈ s.published →
    chunk.stream = streamOf s.tty task
  exited : s.events.live.countP (·.isExited) ≤ 1
  running : ∀ process, s.entry = some process → s.Running process
  closed : s.events.live.any (·.isClosed) = true → s.Closed
  gone : s.entry = none → s.events.live.any (·.isClosed) = true

/-- A stream's task is counted as ended from its last section on; what it has received is
published, up to a chunk in hand. -/
def TaskSound (task : ProcessTask) (s : ProcessState) (t : TaskState) : Prop :=
  match task with
  | .stdout | .stderr =>
    chunksOf task s.published ++ t.inHand = s.received task ∧
      match t with
      | .receiving | .holding _ | .finishing => s.ended task = false
      | .closing | .done => s.ended task = true
      | _ => False
  | .exit =>
    match t with
    | .awaitingExit | .exited _ => s.events.live.any (·.isExited) = false
    | .closing | .done => s.events.live.any (·.isExited) = true
    | _ => False
  | .cleanup => t = .retaining ∨ t = .done

theorem started_sound (tty : Bool) (session : ExecCommandSession) : (started tty session).Sound ∧
      ∀ task, TaskSound task (started tty session) (startedTasks task) := by
  refine ⟨⟨rfl, rfl, ?_, ?_, ?_, ?_, ?_⟩, ?_⟩
  · intro task chunk h
    cases h
  · exact Nat.zero_le 1
  · rintro process ⟨⟩
    exact ⟨rfl, rfl, by simp [RunningProcess.new, started, ExecProcessEventLog.new], rfl⟩
  · intro h
    cases h
  · intro h
    cases h
  · intro task
    cases task <;> simp [TaskSound, startedTasks, started, chunksOf, inHand,
      ExecProcessEventLog.new]

section
variable {s s' : ProcessState} {task : ProcessTask} {t t' : TaskState}

theorem chunksOf_concat_output (task : ProcessTask)
    (published : List (ProcessTask × ExecProcessEvent)) (chunk : ProcessOutputChunk) :
    chunksOf task (published ++ [(task, .output chunk)]) =
      chunksOf task published ++ [chunk.chunk] := by
  simp [chunksOf]

theorem chunksOf_concat_other {publisher : ProcessTask} {event : ExecProcessEvent}
    (h : task = publisher → ∀ chunk, event ≠ .output chunk)
    (published : List (ProcessTask × ExecProcessEvent)) :
    chunksOf task (published ++ [(publisher, event)]) = chunksOf task published := by
  cases event with
  | output chunk =>
    have hne : publisher ≠ task := fun heq => h heq.symm chunk rfl
    simp [chunksOf, hne]
  | _ => simp [chunksOf]

/-- What a task relies on is changed by its own turns only. -/
theorem TaskSound.frame (h : TaskSound task s t)
    (hpublished : chunksOf task s'.published = chunksOf task s.published)
    (hreceived : s'.received task = s.received task) (hended : s'.ended task = s.ended task)
    (hexited : task = .exit → s'.events.live.any (·.isExited) = s.events.live.any (·.isExited)) :
    TaskSound task s' t := by
  cases task with
  | exit => simpa only [TaskSound, hexited rfl] using h
  | _ => simpa only [TaskSound, hpublished, hreceived, hended] using h

theorem taskSound_stream (h : task = .stdout ∨ task = .stderr) :
    TaskSound task s t ↔ chunksOf task s.published ++ t.inHand = s.received task ∧
        match t with
        | .receiving | .holding _ | .finishing => s.ended task = false
        | .closing | .done => s.ended task = true
        | _ => False := by
  rcases h with rfl | rfl <;> rfl

/-- A task that awaits chunks or is about to end its stream is a stream's task. -/
theorem TaskSound.isStream (h : TaskSound task s t)
    (ht : t = .receiving ∨ (∃ chunk, t = .holding chunk) ∨ t = .finishing) :
    (task = .stdout ∨ task = .stderr) ∧ s.ended task = false := by
  rcases ht with rfl | ⟨chunk, rfl⟩ | rfl <;> cases task <;> simp_all [TaskSound]

theorem TaskSound.isExit (h : TaskSound task s t)
    (ht : t = .awaitingExit ∨ ∃ exitCode, t = .exited exitCode) :
    task = .exit ∧ s.events.live.any (·.isExited) = false := by
  rcases ht with rfl | ⟨exitCode, rfl⟩ <;> cases task <;> simp_all [TaskSound]

end

section
variable {s : ProcessState} {task : ProcessTask} {process process' : RunningProcess}
  {event : ExecProcessEvent}

theorem Sound.not_closed_of_stream (h : s.Sound) (htask : task = .stdout ∨ task = .stderr)
    (hended : s.ended task = false) : s.events.live.any (·.isClosed) = false := by
  by_contra hclosed
  have hboth := h.closed (by simpa using hclosed)
  rcases htask with rfl | rfl
  · exact false_ne_true (hended.symm.trans hboth.stdout)
  · exact false_ne_true (hended.symm.trans hboth.stderr)

theorem Sound.not_closed_of_exit (h : s.Sound) (hexited : s.events.live.any (·.isExited) = false) :
    s.events.live.any (·.isClosed) = false := by
  by_contra hclosed
  obtain ⟨before, seq, hlive, -, hbefore⟩ := (h.closed (by simpa using hclosed)).last
  rw [hlive, any_append, hbefore] at hexited
  cases hexited

/-- The next event is published under the next number. -/
theorem Sound.publish (h : s.Sound) (hentry : s.entry = some process)
    (hopen : s.events.live.any (·.isClosed) = false) (hseq : event.seq = some process.nextSeq)
    (hstream : ∀ chunk, event = .output chunk → chunk.stream = streamOf s.tty task)
    (hexited : event.isExited = true → s.events.live.any (·.isExited) = false)
    (hclosed : event.isClosed = true → s.events.live.any (·.isExited) = true ∧
      s.ended .stdout = true ∧ s.ended .stderr = true)
    (hnext : process'.nextSeq = process.nextSeq + 1)
    (hstreams : process'.openStreams = process.openStreams)
    (hcode : process'.exitCode ≠ none ↔ process.exitCode ≠ none ∨ event.isExited = true)
    (hclose : process'.closed = (process.closed || event.isClosed)) :
    (s.publish task (process', event)).Sound where
  live := by simp [ProcessState.publish, h.live]
  seqs := by
    have hnext := (h.running process hentry).nextSeq
    simp only [ProcessState.publish, publish_live, map_append, h.seqs,
      length_append, length_singleton, range'_concat, map_cons, map_nil, hseq]
    congr 3
    omega
  streams publisher chunk hmem := by
    rcases mem_append.mp hmem with hmem | hmem
    · exact h.streams publisher chunk hmem
    · obtain ⟨rfl, hevent⟩ := Prod.mk.inj (mem_singleton.mp hmem)
      exact hstream chunk hevent.symm
  exited := by
    have hold := h.exited
    simp only [ProcessState.publish, publish_live, countP_append, countP_singleton]
    split_ifs with hevent
    · have hnone : s.events.live.countP (·.isExited) = 0 := by
        simpa using hexited hevent
      omega
    · exact hold
  running p hp := by
    obtain rfl : process' = p := some.inj hp
    obtain ⟨hseq, hleft, hexit, hclosed⟩ := h.running process hentry
    refine ⟨?_, hstreams.trans hleft, ?_, ?_⟩
    · simp [ProcessState.publish, hnext, hseq]
    · simp only [ProcessState.publish, hcode, hexit]
      simp
    · simp [ProcessState.publish, hclose, hclosed]
  closed hany := by
    have hevent : event.isClosed = true := by
      simpa [ProcessState.publish, hopen] using hany
    obtain ⟨hexit, hstdout, hstderr⟩ := hclosed hevent
    cases event with
    | closed seq => exact ⟨⟨s.events.live, seq, rfl, hopen, hexit⟩, hstdout, hstderr⟩
    | _ => cases hevent
  gone hnone := by cases hnone

end

section
variable {s s' : ProcessState} {task : ProcessTask} {t t' : TaskState}

theorem Sound.finish (h : s.Sound) {process : RunningProcess} (hentry : s.entry = some process)
    (htask : task = .stdout ∨ task = .stderr) (hended : s.ended task = false) :
    (s.finish task process).Sound := by
  have hrunning := h.running process hentry
  have hopen := h.not_closed_of_stream htask hended
  refine ⟨h.live, h.seqs, h.streams, h.exited, ?_, ?_, ?_⟩
  · rintro p ⟨⟩
    refine ⟨hrunning.nextSeq, ?_, hrunning.exitCode, hrunning.closed⟩
    have hleft := hrunning.openStreams
    rcases htask with rfl | rfl <;>
      simp_all [finish, finishOutputStream, streamsLeft]
  · intro hclosed
    exact absurd (hopen.symm.trans hclosed) false_ne_true
  · intro hnone
    cases hnone

theorem Sound.remove (h : s.Sound) (hclosed : s.events.live.any (·.isClosed) = true) :
    { s with entry := s.entry.filter (!·.closed) }.Sound := by
  refine { h with
    running := fun process hentry => ?_
    closed := fun _ => { h.closed hclosed with }
    gone := fun _ => hclosed }
  obtain ⟨hentry, hopen⟩ := filter_eq_some_iff.mp hentry
  rw [(h.running process hentry).closed, hclosed] at hopen
  cases hopen

attribute [local simp] isExited isClosed

theorem Sound.move (h : s.Sound) (ht : TaskSound task s t) (hmove : Move task s t s' t') :
    s'.Sound := by
  cases hmove with
  | receive chunk =>
    exact { h with
      running := fun process hentry => { h.running process hentry with }
      closed := fun hclosed => { h.closed hclosed with } }
  | output chunk hentry =>
    obtain ⟨htask, hended⟩ := ht.isStream (.inr (.inl ⟨chunk, rfl⟩))
    refine h.publish hentry (h.not_closed_of_stream htask hended) rfl ?_ nofun nofun rfl rfl ?_ ?_
    · rintro _ ⟨⟩
      rfl
    · simp
    · simp
  | finish hentry =>
    obtain ⟨htask, hended⟩ := ht.isStream (.inr (.inr rfl))
    exact h.finish hentry htask hended
  | exit exitCode hentry =>
    obtain ⟨-, hexited⟩ := ht.isExit (.inr ⟨exitCode, rfl⟩)
    refine h.publish hentry (h.not_closed_of_exit hexited) rfl nofun (fun _ => hexited) nofun rfl rfl
      ?_ ?_
    · simp
    · simp
  | close hentry hclose =>
    have hrunning := h.running _ hentry
    obtain ⟨hopen, hstreams, hexit, rfl, rfl⟩ := (maybeEmitClosed_eq_some _).mp hclose
    have hleft : s.streamsLeft = 0 := hrunning.openStreams.symm.trans hstreams
    have hboth : s.ended .stdout = true ∧ s.ended .stderr = true := by
      cases hstdout : s.ended .stdout <;> cases hstderr : s.ended .stderr <;>
        simp_all [streamsLeft]
    refine h.publish hentry (hrunning.closed.symm.trans hopen) rfl nofun nofun
      (fun _ => ⟨hrunning.exitCode.mp hexit, hboth⟩) rfl rfl ?_ ?_
    · simp
    · simp
  | remove hclosed => exact h.remove hclosed
  | _ => exact h

theorem TaskSound.done (h : TaskSound task s .closing) : TaskSound task s .done := by
  cases task with
  | cleanup => simp [TaskSound] at h
  | _ => exact h

theorem TaskSound.close (h : TaskSound task s t) (publisher : ProcessTask)
    (process : RunningProcess) (seq : ℕ) :
    TaskSound task (s.publish publisher (process, .closed seq)) t := by
  refine h.frame ?_ rfl rfl ?_
  · apply chunksOf_concat_other
    intro _ chunk heq
    cases heq
  · intro _
    simp [publish]

theorem TaskSound.move (h : s.Sound) (ht : TaskSound task s t) (hmove : Move task s t s' t') :
    TaskSound task s' t' := by
  cases hmove with
  | receive chunk =>
    obtain ⟨htask, hended⟩ := ht.isStream (.inl rfl)
    have hreceived := ((taskSound_stream htask).mp ht).1
    refine (taskSound_stream htask).mpr ⟨?_, hended⟩
    simpa [inHand, receive] using hreceived
  | endOfStream =>
    obtain ⟨htask, hended⟩ := ht.isStream (.inl rfl)
    exact (taskSound_stream htask).mpr ⟨((taskSound_stream htask).mp ht).1, hended⟩
  | exitStatus exitCode =>
    obtain ⟨rfl, hexited⟩ := ht.isExit (.inl rfl)
    exact hexited
  | @output process chunk hentry =>
    obtain ⟨htask, hended⟩ := ht.isStream (.inr (.inl ⟨chunk, rfl⟩))
    have hreceived := ((taskSound_stream htask).mp ht).1
    refine (taskSound_stream htask).mpr ⟨?_, hended⟩
    have hpublished := chunksOf_concat_output task s.published
      ⟨process.nextSeq, streamOf s.tty task, chunk⟩
    exact (append_nil _).trans (hpublished.trans hreceived)
  | outputGone chunk hgone =>
    obtain ⟨htask, hended⟩ := ht.isStream (.inr (.inl ⟨chunk, rfl⟩))
    have hopen := h.not_closed_of_stream htask hended
    exact absurd (hopen.symm.trans (h.gone hgone)) false_ne_true
  | finish hentry =>
    obtain ⟨htask, hended⟩ := ht.isStream (.inr (.inr rfl))
    refine (taskSound_stream htask).mpr ⟨((taskSound_stream htask).mp ht).1, ?_⟩
    exact update_self _ _ _
  | finishGone hgone =>
    obtain ⟨htask, hended⟩ := ht.isStream (.inr (.inr rfl))
    have hopen := h.not_closed_of_stream htask hended
    exact absurd (hopen.symm.trans (h.gone hgone)) false_ne_true
  | exit exitCode hentry =>
    obtain ⟨rfl, -⟩ := ht.isExit (.inr ⟨exitCode, rfl⟩)
    simp [TaskSound, publish, recordExit]
  | exitGone exitCode hgone =>
    obtain ⟨-, hexited⟩ := ht.isExit (.inr ⟨exitCode, rfl⟩)
    have hopen := h.not_closed_of_exit hexited
    exact absurd (hopen.symm.trans (h.gone hgone)) false_ne_true
  | close hentry hclose =>
    obtain ⟨-, -, -, rfl, rfl⟩ := (maybeEmitClosed_eq_some _).mp hclose
    exact ht.done.close _ _ _
  | keepOpen => exact ht.done
  | remove =>
    cases task with
    | cleanup => exact .inr rfl
    | _ => simp [TaskSound] at ht

/-- A turn leaves alone what the other tasks rely on. -/
theorem TaskSound.move_other {other : ProcessTask} {u : TaskState} (hother : TaskSound other s u)
    (hne : other ≠ task) (ht : TaskSound task s t) (hmove : Move task s t s' t') :
    TaskSound other s' u := by
  cases hmove with
  | receive chunk => exact hother.frame rfl (update_of_ne hne _ _) rfl fun _ => rfl
  | output chunk hentry =>
    refine hother.frame ?_ rfl rfl ?_
    · exact chunksOf_concat_other (fun heq => absurd heq hne) _
    · intro _
      simp [publish, recordOutput]
  | finish hentry => exact hother.frame rfl rfl (update_of_ne hne _ _) fun _ => rfl
  | exit exitCode hentry =>
    obtain ⟨rfl, -⟩ := ht.isExit (.inr ⟨exitCode, rfl⟩)
    refine hother.frame ?_ rfl rfl fun heq => absurd heq hne
    exact chunksOf_concat_other (fun heq => absurd heq hne) _
  | close hentry hclose =>
    obtain ⟨-, -, -, rfl, rfl⟩ := (maybeEmitClosed_eq_some _).mp hclose
    exact hother.close _ _ _
  | remove => exact hother.frame rfl rfl rfl fun _ => rfl
  | _ => exact hother

end

theorem kept : Kept sec (fun _ _ => True) Sound TaskSound where
  own hI hJ _ hsec := by
    have hmove := move_of_sec hsec
    exact ⟨hI.move (hJ _) hmove, TaskSound.move hI (hJ _) hmove⟩
  others hne _ hJ _ hsec := (hJ _).move_other hne (hJ _) (move_of_sec hsec)

end ProcessState

/-- If all parts of the process are done and it is not closed, a task is about to close it. -/
def Watched (c : Config ProcessTask ProcessState TaskState) : Prop :=
  ∀ process, c.shared.entry = some process → process.maybeEmitClosed ≠ none →
    ∃ task, c.task task = .closing

theorem Watched.step {c d : Config ProcessTask ProcessState TaskState}
    {turn : Turn ProcessTask TaskAction} (h : Watched c)
    (hstep : Step sec (fun _ _ => True) c turn d) : Watched d := by
  obtain ⟨s', t', hsec, rfl⟩ := take_eq_some.mp hstep.2
  have hmove := move_of_sec hsec
  generalize hs : c.shared = s at hmove
  generalize ht : c.task turn.task = t at hmove
  -- Who was about to close the process before the turn still is, unless it was the turn's task.
  have hstill : t ≠ .closing → ∀ process, s.entry = some process → process.maybeEmitClosed ≠ none →
      ∃ task, update c.task turn.task t' task = .closing := by
    intro hne process hentry hready
    obtain ⟨task, htask⟩ := h process (by rw [hs, hentry]) hready
    refine ⟨task, ?_⟩
    rwa [update_of_ne]
    rintro rfl
    exact hne (ht.symm.trans htask)
  intro process hentry hready
  cases hmove with
  | finish | exit | exitGone => exact ⟨turn.task, update_self _ _ _⟩
  | output chunk hold =>
    obtain rfl := some.inj hentry
    refine hstill (by simp) _ hold ?_
    rw [ne_eq, maybeEmitClosed_eq_none] at hready ⊢
    exact hready
  | close hold hclose =>
    obtain rfl := some.inj hentry
    obtain ⟨-, -, -, rfl, -⟩ := (maybeEmitClosed_eq_some _).mp hclose
    simp [maybeEmitClosed] at hready
  | keepOpen hclosed => exact absurd (hclosed process hentry) hready
  | remove =>
    obtain ⟨hentry, -⟩ := filter_eq_some_iff.mp hentry
    exact hstill (by simp) process hentry hready
  | _ => exact hstill (by simp) process hentry hready

/-- The process has counted the stream as ended, or knows the exit code. -/
def TaskState.HasReported (t : TaskState) : Prop := t = .closing ∨ t = .done

theorem hasReported_stream {s : ProcessState} {task : ProcessTask} {t : TaskState}
    (htask : task = .stdout ∨ task = .stderr) (h : TaskSound task s t) :
    t.HasReported ↔ s.ended task = true := by
  have hended := ((taskSound_stream htask).mp h).2
  cases t <;> simp_all [HasReported]

theorem hasReported_exit {s : ProcessState} {t : TaskState} (h : TaskSound .exit s t) :
    t.HasReported ↔ s.events.live.any (·.isExited) = true := by
  cases t <;> simp_all [HasReported, TaskSound]

/-- Numbers have no gaps, chunks are in order, and one closing at most comes last, behind one exit
and the ends of both streams; when all have reported, it is out or a task is about to publish it. -/
theorem process_events_closed_last (tty : Bool) (session : ExecCommandSession)
    {turns : List (Turn ProcessTask TaskAction)} {c : Config ProcessTask ProcessState TaskState}
    (hrun : Run (Step ProcessState.sec fun _ _ => True) (startedProcess tty session) turns c) :
    let log := c.shared.events.live
    log.map seq = (range' 1 log.length).map some ∧
      log = c.shared.published.map Prod.snd ∧
      (∀ task chunk, (task, .output chunk) ∈ c.shared.published →
        chunk.stream = streamOf c.shared.tty task) ∧
      (∀ task, task = .stdout ∨ task = .stderr →
        chunksOf task c.shared.published ++ (c.task task).inHand = c.shared.received task) ∧
      log.countP (·.isExited) ≤ 1 ∧
      (∀ before seq after, log = before ++ .closed seq :: after →
        after = [] ∧ before.any (·.isExited) = true ∧
          (c.task .stdout).HasReported ∧ (c.task .stderr).HasReported) ∧
      ((c.task .stdout).HasReported → (c.task .stderr).HasReported → (c.task .exit).HasReported →
        log.any (·.isClosed) = true ∨ ∃ task, c.task task = .closing) := by
  intro log
  obtain ⟨hsound, htasks⟩ := kept.run hrun (started_sound tty session)
  have hwatched : Watched c := by
    refine Run.invariant (I := fun _ c => Watched c) (fun _ _ _ _ h hstep => h.step hstep) hrun ?_
    rintro process ⟨⟩ hready
    simp [maybeEmitClosed, RunningProcess.new] at hready
  have hstdout := hasReported_stream (.inl rfl) (htasks .stdout)
  have hstderr := hasReported_stream (.inr rfl) (htasks .stderr)
  have hexit := hasReported_exit (htasks .exit)
  refine ⟨hsound.seqs, hsound.live, hsound.streams, ?_, hsound.exited, ?_, ?_⟩
  · intro task htask
    exact ((taskSound_stream htask).mp (htasks task)).1
  · intro before seq after hlog
    have hclosed : log.any (·.isClosed) = true := by
      simp [hlog, isClosed]
    have hboth := hsound.closed hclosed
    obtain ⟨front, last, hlast, hfront, hexited⟩ := hboth.last
    have hsplit : before ++ .closed seq :: after = front ++ [.closed last] := hlog.symm.trans hlast
    -- The front has no closing, so the two splits are at the same place.
    obtain rfl : after = [] := by
      rcases eq_nil_or_concat after with rfl | ⟨after, event, rfl⟩
      · rfl
      · rw [concat_eq_append, ← cons_append, ← append_assoc] at hsplit
        have hfront' := (append_inj' hsplit rfl).1
        rw [← hfront', any_append, any_cons] at hfront
        simp [isClosed] at hfront
    have hbefore : before = front := (append_inj' hsplit rfl).1
    exact ⟨rfl, hbefore ▸ hexited, hstdout.mpr hboth.stdout, hstderr.mpr hboth.stderr⟩
  · intro hout herr hex
    cases hentry : c.shared.entry with
    | none => exact .inl (hsound.gone hentry)
    | some process =>
      have hrunning := hsound.running process hentry
      cases hclosed : process.closed with
      | true => exact .inl (hrunning.closed.symm.trans hclosed)
      | false =>
        refine .inr (hwatched process hentry ?_)
        have hstreams : process.openStreams = 0 := by
          simp [hrunning.openStreams, streamsLeft, hstdout.mp hout, hstderr.mp herr]
        have hcode := hrunning.exitCode.mpr (hexit.mp hex)
        rw [ne_eq, maybeEmitClosed_eq_none]
        simp [hclosed, hstreams, hcode]

/-- One chunk, the exit before the streams end, and the closing by the task of `stderr`. -/
def closedByStderr : List (Turn ProcessTask TaskAction) :=
  [⟨.stdout, .receive [104]⟩, ⟨.exit, .exitStatus 0⟩, ⟨.exit, .enter⟩, ⟨.stdout, .enter⟩,
   ⟨.stdout, .endOfStream⟩, ⟨.stderr, .endOfStream⟩, ⟨.stdout, .enter⟩, ⟨.exit, .enter⟩,
   ⟨.stderr, .enter⟩, ⟨.stderr, .enter⟩]

theorem process_events_closed_last_byStderr :
    ∃ c, (startedProcess false 0).takeAll ProcessState.sec (fun _ _ => True) closedByStderr =
        some c ∧
      c.shared.events.live = [.exited 1 0, .output ⟨2, .stdout, [104]⟩, .closed 3] ∧
      c.shared.events.live.countP (·.isExited) ≤ 1 := by
  have hrun : (startedProcess false 0).takeAll sec (fun _ _ => True) closedByStderr = some _ := rfl
  exact ⟨_, hrun, rfl, (process_events_closed_last false 0 (run_of_takeAll hrun)).2.2.2.2.1⟩

end CodexRs.ExecServer
