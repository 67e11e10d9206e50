import CodexRs.ExecServer.LocalProcess

/-!
# What a shutdown leaves behind

The shutdown asks all processes that are in the map when it drains it.
-/
namespace CodexRs.ExecServer
open Tasks Machine Option ProcessMap AList Table

variable {ι : Type*}

/-- A start that began before the call of `shutdown` and has not returned. -/
@[grind] def CallState.isEarlyStart : CallState → Bool
  | .starting _ early | .spawning _ early | .spawned _ _ early | .spawnFailed _ early => early
  | _ => false

/-- A step of the call of `shutdown`. -/
@[grind] def CallState.isShutdown : CallState → Bool
  | .shuttingDown | .terminatingAll _ => true
  | _ => false

namespace ProcessMap
variable {s s' : ProcessMap ι} {t t' : CallState}

@[grind =] theorem mem_sessions {session : ExecCommandSession} :
    session ∈ s.sessions ↔ ∃ processId process,
      s.processes.lookup processId = some (.running process) ∧ process.session = session := by
  simp only [sessions, List.mem_filterMap]
  constructor
  · rintro ⟨⟨processId, entry⟩, hmem, hentry⟩
    cases entry with
    | starting => cases hentry
    | running process =>
      exact ⟨processId, process, mem_lookup_iff.mpr hmem, some.inj hentry⟩
  · rintro ⟨processId, process, hlookup, rfl⟩
    exact ⟨⟨processId, .running process⟩, mem_lookup_iff.mp hlookup, rfl⟩

@[grind =] theorem get_eq_some {processId : ProcessId} {process : RunningProcess} :
    s.get processId = some process ↔ s.processes.lookup processId = some (.running process) := by
  unfold get
  split <;> simp_all

@[grind =] theorem terminate_asked (session other : ExecCommandSession) :
    (s.terminate session).asked other = if other = session then true else s.asked other :=
  Function.update_apply ..

/-- Only whom a handle asked is changed when it is dropped. -/
theorem drop_eq (entry : Option ProcessEntry) :
    (s.drop entry).processes = s.processes ∧ (s.drop entry).phase = s.phase ∧
      (s.drop entry).spawned = s.spawned ∧ (s.drop entry).exited = s.exited ∧
        ∀ session, (s.drop entry).asked session = true ↔ s.asked session = true ∨
          ∃ process, entry = some (.running process) ∧ process.session = session := by
  unfold drop
  split
  · refine ⟨rfl, rfl, rfl, rfl, ?_⟩
    grind
  · exact ⟨rfl, rfl, rfl, rfl, by grind⟩

/-- No process is taken off the map without being asked to terminate. -/
structure Preserves (s s' : ProcessMap ι) : Prop where
  phase : s'.phase = s.phase
  spawned : s'.spawned = s.spawned
  asked : ∀ session, s.asked session = true → s'.asked session = true
  exited : s'.exited = s.exited
  sessions : ∀ session ∈ s.sessions, session ∈ s'.sessions ∨ s'.asked session = true

namespace Preserves
variable {processId : ProcessId} {process process' : RunningProcess}

theorem refl (s : ProcessMap ι) : Preserves s s := ⟨rfl, rfl, fun _ h => h, rfl, fun _ h => .inl h⟩

theorem runnable (h : Preserves s s') (jobs : List ProcessJob) :
    Preserves s { s' with runnable := jobs } :=
  ⟨h.phase, h.spawned, h.asked, h.exited, h.sessions⟩

theorem terminate (s : ProcessMap ι) (session : ExecCommandSession) :
    Preserves s (s.terminate session) :=
  ⟨rfl, rfl, by grind, rfl, fun _ h => .inl h⟩

/-- The process under an id is changed in place. -/
theorem update (h : s.get processId = some process) (hsession : process'.session = process.session) :
    Preserves s (s.insert processId (.running process')) := by
  refine ⟨rfl, rfl, fun _ h => h, rfl, ?_⟩
  have hspec := insert_spec s.processes processId (.running process')
  grind [insert]

theorem reserve (h : processId ∉ s.processes) : Preserves s (s.insert processId .starting) := by
  refine ⟨rfl, rfl, fun _ h => h, rfl, ?_⟩
  have hspec := insert_spec s.processes processId .starting
  have hnone := lookup_eq_none.mpr h
  grind [insert]

/-- The process that was under the id is dropped. -/
theorem enter (s : ProcessMap ι) (processId : ProcessId) (process : RunningProcess) :
    Preserves s ((s.drop (s.processes.lookup processId)).insert processId (.running process)) := by
  obtain ⟨hprocesses, hphase, hspawned, hexited, hasked⟩ := s.drop_eq (s.processes.lookup processId)
  refine ⟨hphase, hspawned, fun session h => (hasked session).mpr (.inl h), hexited, ?_⟩
  have hspec := insert_spec s.processes processId (.running process)
  simp only [insert]
  grind

theorem removeStarting (h : s.processes.lookup processId = some .starting) :
    Preserves s (s.remove processId) := by
  refine ⟨rfl, rfl, fun _ h => h, rfl, ?_⟩
  have hspec := erase_spec s.processes processId
  grind [remove]

theorem removeRunning (h : s.get processId = some process) :
    Preserves s ((s.remove processId).drop (some (.running process))) := by
  obtain ⟨hprocesses, hphase, hspawned, hexited, hasked⟩ :=
    (s.remove processId).drop_eq (some (.running process))
  refine ⟨hphase, hspawned, fun session h => (hasked session).mpr (.inl h), hexited, ?_⟩
  have hspec := erase_spec s.processes processId
  grind [remove]

theorem enterTask {job : ProcessJob} {state : TaskState}
    (h : s.enterTask job = some (s', state)) : Preserves s s' := by
  unfold ProcessMap.enterTask lockSection at h
  cases hstate : job.state <;> simp only [hstate] at h
  case closing =>
    cases hclose : (s.get job.processId).bind RunningProcess.maybeEmitClosed <;>
      simp only [hclose] at h <;> cases h
    · exact refl s
    · obtain ⟨process, hget, hclose⟩ := bind_eq_some_iff.mp hclose
      obtain ⟨-, -, -, hprocess, -⟩ := (RunningProcess.maybeEmitClosed_eq_some _).mp hclose
      exact (update hget (by rw [hprocess])).runnable _
  case retaining =>
    cases hget : s.get job.processId <;> simp only [hget] at h <;> cases h
    · exact refl s
    · split_ifs
      · exact removeRunning hget
      · exact refl s
  case holding | finishing | exited =>
    cases hget : s.get job.processId <;> simp only [hget] at h <;> cases h
    · exact refl s
    · exact update hget rfl
  all_goals cases h

end Preserves

/-- A turn that has nothing to do with a shutdown and spawns nothing. -/
structure Ordinary (s : ProcessMap ι) (t : CallState) (s' : ProcessMap ι) (t' : CallState) : Prop
    extends Preserves s s' where
  entered : ∀ params session early, t = .spawned params session early → session ∈ s'.sessions
  early : t'.isEarlyStart = true → t.isEarlyStart = true ∨ s.phase = .notCalled
  before : t.isShutdown = false
  after : t'.isShutdown = false

/-- All that a turn can do. -/
inductive Move (i : ι) (action : CallAction) (s : ProcessMap ι) :
    CallState → ProcessMap ι → CallState → Prop
  | ordinary {t t' : CallState} {s' : ProcessMap ι} (h : Ordinary s t s' t') :
      Move i action s t s' t'
  | call (h : s.phase = .notCalled) :
      Move i action s .idle { s with phase := .called i } .shuttingDown
  | drain (h : action = .enter) :
      Move i action s .shuttingDown { s with processes := ∅, phase := .drained i }
        (.terminatingAll s.sessions)
  | ask (session remaining) :
      Move i action s (.terminatingAll (session :: remaining)) (s.terminate session)
        (.terminatingAll remaining)
  | returned : Move i action s (.terminatingAll []) { s with phase := .returned } .idle
  | spawn (params early session) : Move i action s (.spawning params early)
        { s with spawned := (session, early) :: s.spawned } (.spawned params session early)
  | exit (t : CallState) (session) :
      Move i action s t { s with exited := Function.update s.exited session true } t

attribute [local simp] CallState.isEarlyStart

variable {action : CallAction}

theorem move_of_enter {i : ι} (h : s.enter t = some (s', t')) : Move i action s t s' t' := by
  refine .ordinary ?_
  cases t with
  | starting params early =>
    simp only [enter] at h
    split_ifs at h with hmem <;> cases h
    · exact ⟨.refl s, by simp, by simp, rfl, rfl⟩
    · exact ⟨.reserve hmem, by simp, .inl, rfl, rfl⟩
  | spawned params session early =>
    cases h
    refine ⟨(Preserves.enter s params.processId _).runnable _, ?_, by simp, rfl, rfl⟩
    rintro _ _ _ ⟨⟩
    exact mem_sessions.mpr ⟨params.processId, .new session, lookup_insert _, rfl⟩
  | spawnFailed params early =>
    simp only [enter] at h
    split_ifs at h with hstarting <;> cases h
    · exact ⟨.removeStarting hstarting, by simp, by simp, rfl, rfl⟩
    · exact ⟨.refl s, by simp, by simp, rfl, rfl⟩
  | terminating processId =>
    simp only [enter] at h
    split at h
    · cases h
      exact ⟨.refl s, by simp, by simp, rfl, rfl⟩
    · split_ifs at h <;> cases h
      · exact ⟨.refl s, by simp, by simp, rfl, rfl⟩
      · exact ⟨.terminate s _, by simp, by simp, rfl, rfl⟩
  | running job =>
    obtain ⟨⟨s'', state⟩, hjob, hr⟩ := map_eq_some_iff.mp h
    obtain ⟨rfl, rfl⟩ := Prod.mk.inj hr
    exact ⟨.enterTask hjob, by simp, by simp, rfl, rfl⟩
  | _ => cases h

theorem move_of_sec [DecidableEq ι] {i : ι} (h : sec i action s t = some (s', t')) :
    Move i action s t s' t' := by
  unfold sec at h
  split at h
  · split_ifs at h <;> cases h
    · exact .ordinary ⟨.refl s, by simp, by simp, rfl, rfl⟩
    · exact .ordinary ⟨.refl s, by simp, by simp, rfl, rfl⟩
  · cases h
    exact .ordinary ⟨.refl s, by simp, by simp, rfl, rfl⟩
  · split_ifs at h with hphase
    cases h
    exact .call hphase
  · obtain ⟨job, -, hr⟩ := map_eq_some_iff.mp h
    obtain ⟨rfl, rfl⟩ := Prod.mk.inj hr
    exact .ordinary ⟨(Preserves.refl s).runnable _, by simp, by simp, rfl, rfl⟩
  · cases h
    exact .ordinary ⟨.refl s, by simp, .inl, rfl, rfl⟩
  · split_ifs at h
    cases h
    exact .spawn _ _ _
  · obtain ⟨state, -, hr⟩ := map_eq_some_iff.mp h
    obtain ⟨rfl, rfl⟩ := Prod.mk.inj hr
    exact .ordinary ⟨.refl s, by simp, by simp, rfl, rfl⟩
  · cases h
    exact .exit _ _
  · rcases or_eq_some_iff.mp h with h | ⟨-, h⟩
    · unfold shutDown at h
      split at h <;> cases h
      · exact .drain rfl
      · exact .ask _ _
      · exact .returned
    · exact move_of_enter h
  · cases h

/-- The map has not been drained. -/
@[grind] def BeforeDrain (s : ProcessMap ι) : Prop := s.phase = .notCalled ∨ ∃ i, s.phase = .called i

/-- One task makes the call of `shutdown`, and the starts that began before it are over when it
drains the map. -/
@[mk_iff]
structure CallSound (i : ι) (s : ProcessMap ι) (t : CallState) : Prop where
  called : t = .shuttingDown → s.phase = .called i
  drained : ∀ remaining, t = .terminatingAll remaining → s.phase = .drained i
  early : t.isEarlyStart = true → s.BeforeDrain

end ProcessMap

variable [DecidableEq ι] (c : Config ι (ProcessMap ι) CallState)

/-- When the map is drained, no start that began before the call of `shutdown` is under way. -/
def StartsSettled (turn : Turn ι CallAction) : Prop :=
  turn.action = .enter → c.task turn.task = .shuttingDown →
    ∀ i, (c.task i).isEarlyStart = false

namespace ProcessMap
attribute [local grind =] callSound_iff

theorem callSound_kept : Kept (ι := ι) sec StartsSettled (fun _ => True) CallSound where
  own {c i action s' t'} _ hJ _ hsec := by
    refine ⟨trivial, ?_⟩
    have hmine := hJ i
    have hmove := move_of_sec hsec
    generalize c.task i = t at hmove hmine
    cases hmove with
    | ordinary h =>
      obtain ⟨⟨hphase, -, -, -, -⟩, -, hearly, -, hafter⟩ := h
      grind
    | ask session remaining => grind [terminate]
    | _ => grind
  others {c i j action s' t'} hne _ hJ hallowed hsec := by
    have hmine := hJ i
    have hmove := move_of_sec hsec
    generalize ht : c.task i = t at hmove hmine
    cases hmove with
    | ordinary h =>
      have hphase := h.phase
      grind
    | drain haction =>
      have hstarts := hallowed haction ht j
      grind
    | ask session remaining => grind [terminate]
    | _ => grind

end ProcessMap

/-- It was asked to terminate, its start is about to enter it, it is still to be drained, or about
to be asked. -/
@[grind] def Accounted (session : ExecCommandSession) : Prop :=
  c.shared.asked session = true ∨
    (∃ i params, c.task i = .spawned params session true) ∨
    (session ∈ c.shared.sessions ∧ c.shared.BeforeDrain) ∨
    ∃ i remaining, c.task i = .terminatingAll remaining ∧ session ∈ remaining

theorem Accounted.step {c d : Config ι (ProcessMap ι) CallState} {turn : Turn ι CallAction}
    (hstep : Step sec StartsSettled c turn d) (hJ : ∀ i, ProcessMap.CallSound i c.shared (c.task i))
    (hall : ∀ session, (session, true) ∈ c.shared.spawned → Accounted c session)
    (session : ExecCommandSession) (hspawned : (session, true) ∈ d.shared.spawned) :
    Accounted d session := by
  obtain ⟨hallowed, htake⟩ := hstep
  obtain ⟨s', t', hsec, rfl⟩ := take_eq_some.mp htake
  have hmove := ProcessMap.move_of_sec hsec
  have hmine := hJ turn.task
  have hupdate := update_spec c.task turn.task t'
  simp only [callSound_iff] at hJ hmine
  generalize ht : c.task turn.task = t at hmove hmine
  cases hmove with
  | ordinary h =>
    obtain ⟨⟨hphase, hspawned', hasked, -, hsessions⟩, hentered, -, hbefore, -⟩ := h
    grind
  | drain haction =>
    grind
  | ask next rest => grind [terminate]
  | _ => grind

/-- Every process that was spawned by a start before the shutdown was asked to terminate or has
exited. -/
def LeavesNoProcess : Prop :=
  c.shared.phase = .returned → (∀ i, (c.task i).isEarlyStart = false) →
    ∀ session, (session, true) ∈ c.shared.spawned →
      c.shared.asked session = true ∨ c.shared.exited session = true

/-- No process is running and no call has begun. -/
def noCalls : Config ι (ProcessMap ι) CallState := ⟨.new, fun _ => .idle⟩

/-- A shutdown that has returned has reached all processes of starts before it, if none of these was
under way when the map was drained. -/
theorem shutdown_leaves_no_process {turns : List (Turn ι CallAction)}
    {c : Config ι (ProcessMap ι) CallState}
    (hrun : Run (Step ProcessMap.sec StartsSettled) noCalls turns c) : LeavesNoProcess c := by
  have hinv : (∀ i, CallSound i c.shared (c.task i)) ∧
      ∀ session, (session, true) ∈ c.shared.spawned → Accounted c session := by
    refine Run.invariant (I := fun _ c => (∀ i, CallSound i c.shared (c.task i)) ∧
      ∀ session, (session, true) ∈ c.shared.spawned → Accounted c session) ?_ hrun ?_
    · rintro turn _ c d ⟨hJ, hall⟩ hstep
      exact ⟨(callSound_kept.step hstep ⟨trivial, hJ⟩).2, Accounted.step hstep hJ hall⟩
    · refine ⟨fun i => ⟨nofun, nofun, nofun⟩, ?_⟩
      intro session hspawned
      cases hspawned
  intro hreturned hstarts session hspawned
  rcases hinv.2 session hspawned with hasked | ⟨i, params, hi⟩ | ⟨-, hphase⟩ |
    ⟨i, remaining, hi, -⟩
  · exact .inl hasked
  · have hearly := hstarts i
    rw [hi] at hearly
    cases hearly
  · rcases hphase with hphase | ⟨i, hphase⟩ <;>
      · rw [hreturned] at hphase
        cases hphase
  · have hdrained := (hinv.1 i).drained remaining hi
    rw [hreturned] at hdrained
    cases hdrained

instance [Fintype ι] (c : Config ι (ProcessMap ι) CallState) (turn : Turn ι CallAction) :
    Decidable (StartsSettled c turn) :=
  inferInstanceAs (Decidable (_ → _ → ∀ _, _))

def echoParams : ExecParams := ⟨"p".toList, ["echo".toList], false⟩

/-- The process is entered before the shutdown, which then asks it to terminate. -/
def enteredBeforeShutdown : List (Turn Bool CallAction) :=
  [⟨false, .start echoParams⟩, ⟨false, .enter⟩, ⟨false, .spawn (some 7)⟩, ⟨false, .enter⟩,
   ⟨true, .shutdown⟩, ⟨true, .enter⟩, ⟨true, .enter⟩, ⟨true, .enter⟩]

theorem shutdown_leaves_no_process_entered :
    ∃ c, noCalls.takeAll ProcessMap.sec StartsSettled enteredBeforeShutdown = some c ∧
      c.shared.phase = .returned ∧ c.shared.spawned = [(7, true)] ∧ LeavesNoProcess c := by
  have hrun : noCalls.takeAll sec StartsSettled enteredBeforeShutdown = some _ := rfl
  exact ⟨_, hrun, rfl, rfl, shutdown_leaves_no_process (run_of_takeAll hrun)⟩

/-- The shutdown drains the map while the process is being spawned. -/
def spawningAtShutdown : List (Turn Bool CallAction) :=
  [⟨false, .start echoParams⟩, ⟨false, .enter⟩, ⟨true, .shutdown⟩, ⟨true, .enter⟩,
   ⟨true, .enter⟩, ⟨false, .spawn (some 7)⟩, ⟨false, .enter⟩]

theorem shutdown_misses_spawning :
    ∃ c, Run (Step ProcessMap.sec fun _ _ => True) noCalls spawningAtShutdown c ∧
      ¬ LeavesNoProcess c := by
  refine ⟨_, run_of_takeAll rfl, fun h => ?_⟩
  rcases h rfl (by decide) 7 (by decide) with hasked | hexited
  · exact Bool.false_ne_true hasked
  · exact Bool.false_ne_true hexited

end CodexRs.ExecServer
