import CodexRs.AppServer.RequestSerialization

/-!
# One drain task for each queue

A queue has one task at most, so requests with one key start in the order they were enqueued.
-/
namespace CodexRs.AppServer
open Tasks Machine RequestSerializationQueues AppServer Function History List Option RequestConfig

variable {ι : Type*}

/-- The task drains the queue of the key, or is about to be spawned for it. -/
@[grind]
def RequestTask.Drains (key : RequestSerializationQueueKey) : RequestTask → Prop
  | spawning k => k = key
  | draining k => k = key
  | admitting k _ => k = key
  | running k _ => k = key
  | _ => False

instance (key : RequestSerializationQueueKey) (task : RequestTask) :
    Decidable (task.Drains key) := by
  cases task <;> dsimp only [RequestTask.Drains] <;> infer_instance

/-- A queue has one task at most, and a task has its queue. -/
structure Drained (inner : QueueMap) (task : ι → RequestTask) : Prop where
  one : ∀ i j key, (task i).Drains key → (task j).Drains key → i = j
  entry : ∀ i key, (task i).Drains key → (inner key).isSome

/-- What was enqueued for a key is what was taken out and what waits; what was started was taken
out. -/
structure InTurn (queues : RequestSerializationQueues) : Prop where
  waiting : ∀ key, queues.taken key ++ (queues.inner key).getD [] = queues.enqueued key
  started : ∀ key, (queues.started key).Sublist (queues.taken key)
  numbered : ∀ key, (queues.enqueued key).map (·.future) =
    range (queues.enqueued key).length

/-- The request at the gate was taken out last, and not yet started. -/
def AtGate (queues : RequestSerializationQueues) (task : RequestTask) : Prop :=
  ∀ key request, task = .admitting key request →
    ∃ front, queues.taken key = front ++ [request] ∧ (queues.started key).Sublist front

structure Ordered (c : RequestConfig ι) : Prop where
  drained : Drained c.shared.inner c.task
  inTurn : InTurn c.shared
  atGate : ∀ i, AtGate c.shared (c.task i)

theorem ordered_start : Ordered (start : RequestConfig ι) where
  drained := ⟨nofun, nofun⟩
  inTurn := ⟨fun _ => rfl, fun _ => .slnil, fun _ => rfl⟩
  atGate := nofun

/-! ## Order -/

section
variable {queues : RequestSerializationQueues} {key : RequestSerializationQueueKey}

/-- The request that an enqueue pushes. -/
def nextRequest (queues : RequestSerializationQueues) (key : RequestSerializationQueueKey)
    (gate : ℕ) : QueuedInitializedRequest :=
  ⟨gate, (queues.enqueued key).length⟩

/-- The queues with the request behind those that wait for its key. -/
def pushed (queues : RequestSerializationQueues) (key : RequestSerializationQueueKey)
    (gate : ℕ) : RequestSerializationQueues :=
  { queues with
    inner := update queues.inner key
      (some ((queues.inner key).getD [] ++ [nextRequest queues key gate]))
    enqueued := queues.enqueued.push key (nextRequest queues key gate) }

theorem enqueue_of_some {gate : ℕ} (h : (queues.inner key).isSome) :
    queues.enqueue key gate = (pushed queues key gate, .finished) := by
  obtain ⟨queue, hqueue⟩ := isSome_iff_exists.mp h
  rw [enqueue, pushed, hqueue]
  rfl

theorem enqueue_of_none {gate : ℕ} (h : queues.inner key = none) :
    queues.enqueue key gate = (pushed queues key gate, .spawning key) := by
  rw [enqueue, pushed, h]
  rfl

theorem InTurn.pushed (h : InTurn queues) (gate : ℕ) : InTurn (pushed queues key gate) := by
  refine ⟨fun k => ?_, h.started, fun k => ?_⟩
  · by_cases hk : k = key
    · subst hk
      simp only [pushed, push, update_self, getD_some]
      rw [← append_assoc, h.waiting]
    · simpa only [AppServer.pushed, push, update_of_ne hk] using h.waiting k
  · by_cases hk : k = key
    · subst hk
      simp [pushed, push, nextRequest, range_succ, h.numbered]
    · simpa only [AppServer.pushed, push, update_of_ne hk] using h.numbered k

theorem InTurn.removed (h : InTurn queues) (hempty : (queues.inner key).getD [] = []) :
    InTurn { queues with inner := update queues.inner key none } := by
  refine ⟨fun k => ?_, h.started, h.numbered⟩
  by_cases hk : k = key
  · subst hk
    simpa [hempty] using h.waiting k
  · simpa only [update_of_ne hk] using h.waiting k

variable {request : QueuedInitializedRequest}

theorem InTurn.taken (h : InTurn queues) {rest} (hqueue : queues.inner key = some (request :: rest))
    :
    InTurn { queues with
      inner := update queues.inner key (some rest)
      taken := queues.taken.push key request } := by
  refine ⟨fun k => ?_, fun k => ?_, h.numbered⟩
  · by_cases hk : k = key
    · subst hk
      simpa [push, hqueue] using h.waiting k
    · simpa only [push, update_of_ne hk] using h.waiting k
  · by_cases hk : k = key
    · subst hk
      simp only [push, update_self]
      exact (h.started k).trans (sublist_append_left _ _)
    · simpa only [push, update_of_ne hk] using h.started k

theorem InTurn.start (h : InTurn queues) (hgate : AtGate queues (.admitting key request)) :
    InTurn { queues with started := queues.started.push key request } := by
  refine ⟨h.waiting, fun k => ?_, h.numbered⟩
  by_cases hk : k = key
  · subst hk
    obtain ⟨front, htaken, hstarted⟩ := hgate k request rfl
    simp only [push, update_self, htaken]
    exact hstarted.append (.refl _)
  · simpa only [push, update_of_ne hk] using h.started k

/-- A request at the gate of one key is not affected by what happens for others. -/
theorem AtGate.frame {next} {task : RequestTask} (h : AtGate queues task)
    (hsame : ∀ k, task.Drains k → next.taken k = queues.taken k ∧ next.started k = queues.started k)
    : AtGate next task := by
  rintro k request rfl
  obtain ⟨htaken, hstarted⟩ := hsame k rfl
  rw [htaken, hstarted]
  exact h k request rfl

end

/-! ## Steps -/

section
variable [DecidableEq ι] {c d : RequestConfig ι} {turn : Turn ι RequestAction}

/-- Every turn, with the queue it works on. -/
inductive Moves (c : RequestConfig ι) (i : ι) : RequestAction → RequestConfig ι → Prop
  | enqueued (key gate) : c.task i = .idle →
      (c.shared.inner key).isSome →
      Moves c i (.enqueue key gate)
        ⟨pushed c.shared key gate, update c.task i .finished⟩
  | created (key gate) : c.task i = .idle →
      c.shared.inner key = none →
      Moves c i (.enqueue key gate)
        ⟨pushed c.shared key gate, update c.task i (.spawning key)⟩
  | spawned (key) : c.task i = .spawning key →
      Moves c i .spawn ⟨c.shared, update c.task i (.draining key)⟩
  | taken (key request rest) : c.task i = .draining key →
      c.shared.inner key = some (request :: rest) →
      Moves c i .takeNext
        ⟨{ c.shared with
            inner := update c.shared.inner key (some rest)
            taken := c.shared.taken.push key request },
          update c.task i (.admitting key request)⟩
  | removed (key) : c.task i = .draining key →
      (c.shared.inner key).getD [] = [] →
      Moves c i .takeNext
        ⟨{ c.shared with inner := update c.shared.inner key none },
          update c.task i .finished⟩
  | started (key request) :
      c.task i = .admitting key request → c.shared.accepting request.gate = true →
      Moves c i .enterGate
        ⟨{ c.shared with started := c.shared.started.push key request },
          update c.task i (.running key request)⟩
  | skipped (key request) :
      c.task i = .admitting key request → c.shared.accepting request.gate = false →
      Moves c i .enterGate ⟨c.shared, update c.task i (.draining key)⟩
  | ended (key request) : c.task i = .running key request →
      Moves c i .finish ⟨c.shared, update c.task i (.draining key)⟩
  | panicked (key request) : c.task i = .running key request →
      Moves c i .panic ⟨c.shared, update c.task i (.panicked key)⟩
  | shut (gate) : c.task i = .idle →
      Moves c i (.shutdown gate)
        ⟨c.shared.gateShutdown gate, update c.task i .finished⟩

theorem moves_of_step (h : RequestStep AnyTurn c turn d) : Moves c turn.task turn.action d := by
  obtain ⟨i, action⟩ := turn
  obtain ⟨s, t, hsec, rfl⟩ := take_eq_some.mp h.2
  dsimp only at hsec ⊢
  generalize htask : c.task i = task at hsec
  unfold takeTurn at hsec
  split at hsec <;> simp only [some.injEq, reduceCtorEq] at hsec
  · rename_i key gate
    cases hqueue : c.shared.inner key with
    | some queue =>
      have hsome : (c.shared.inner key).isSome := by rw [hqueue]; rfl
      cases (enqueue_of_some hsome).symm.trans hsec
      exact .enqueued key gate htask hsome
    | none =>
      cases (enqueue_of_none hqueue).symm.trans hsec
      exact .created key gate htask hqueue
  · cases hsec
    exact .spawned _ htask
  · rename_i key
    unfold drain at hsec
    split at hsec <;> rename_i hqueue
    · cases hsec
      have hremoved := Moves.removed key htask (by rw [hqueue]; rfl)
      rwa [← hqueue, update_eq_self] at hremoved
    · cases hsec
      exact .removed key htask (by rw [hqueue]; rfl)
    · cases hsec
      exact .taken key _ _ htask hqueue
  · unfold gateRun at hsec
    split_ifs at hsec with hopen <;> cases hsec
    · exact .started _ _ htask hopen
    · exact .skipped _ _ htask (Bool.eq_false_iff.mpr hopen)
  · cases hsec
    exact .ended _ _ htask
  · cases hsec
    exact .panicked _ _ htask
  · cases hsec
    exact .shut _ htask

variable {action : RequestAction}

/-- Only a task for a new queue takes up one, and a queue goes together with its task. -/
theorem Drained.step {i : ι} (h : Drained c.shared.inner c.task)
    (hmoves : Moves c i action d) : Drained d.shared.inner d.task := by
  obtain ⟨hone, hentry⟩ := h
  cases hmoves <;> constructor <;>
    simp only [pushed, gateShutdown, update_apply] <;> grind

omit [DecidableEq ι] in
/-- The others do not work on the queue of the task that takes its turn. -/
theorem Ordered.atGate_others (h : Ordered c) {i : ι} {key : RequestSerializationQueueKey}
    (hi : (c.task i).Drains key) {next : RequestSerializationQueues}
    (hsame : ∀ k, k ≠ key → next.taken k = c.shared.taken k ∧
      next.started k = c.shared.started k) (j : ι) (hj : j ≠ i) : AtGate next (c.task j) := by
  refine (h.atGate j).frame fun k hk => hsame k ?_
  rintro rfl
  exact hj (h.drained.one j i k hk hi)

theorem Ordered.step (h : Ordered c) {i : ι} (hmoves : Moves c i action d) : Ordered d := by
  have hdrained := h.drained.step hmoves
  cases hmoves with
  | enqueued key gate htask hqueue | created key gate htask hqueue =>
    exact ⟨hdrained, h.inTurn.pushed gate, forall_update_iff _ _ |>.mpr
      ⟨nofun, fun j _ => (h.atGate j).frame fun _ _ => ⟨rfl, rfl⟩⟩⟩
  | taken key request rest htask hqueue =>
    have hdrains : (c.task i).Drains key := htask ▸ rfl
    refine ⟨hdrained, h.inTurn.taken hqueue, forall_update_iff _ _ |>.mpr
      ⟨?_, h.atGate_others hdrains fun k hk => ⟨update_of_ne hk .., rfl⟩⟩⟩
    rintro k r ⟨⟩
    exact ⟨c.shared.taken key, update_self .., h.inTurn.started key⟩
  | removed key htask hempty =>
    exact ⟨hdrained, h.inTurn.removed hempty, forall_update_iff _ _ |>.mpr
      ⟨nofun, fun j _ => (h.atGate j).frame fun _ _ => ⟨rfl, rfl⟩⟩⟩
  | started key request htask hopen =>
    have hdrains : (c.task i).Drains key := htask ▸ rfl
    exact ⟨hdrained, h.inTurn.start (htask ▸ h.atGate i), forall_update_iff _ _ |>.mpr
      ⟨nofun, h.atGate_others hdrains fun k hk => ⟨rfl, update_of_ne hk ..⟩⟩⟩
  | shut gate htask =>
    exact ⟨hdrained, ⟨h.inTurn.waiting, h.inTurn.started, h.inTurn.numbered⟩,
      forall_update_iff _ _ |>.mpr ⟨nofun, fun j _ => h.atGate j⟩⟩
  | _ =>
    exact ⟨hdrained, h.inTurn, forall_update_iff _ _ |>.mpr ⟨nofun, fun j _ => h.atGate j⟩⟩

end

/-! ## Stranded requests -/

/-- Where a request waits there is a task for its queue, or one about to be spawned. -/
def NoneStranded (c : RequestConfig ι) : Prop :=
  ∀ key queue, c.shared.inner key = some queue → queue ≠ [] → ∃ i, (c.task i).Drains key

/-- A future panics only when nothing waits behind it, and nothing is enqueued for the key
of one that has panicked. -/
def PanicsLast (c : RequestConfig ι) (turn : Turn ι RequestAction) : Prop :=
  match turn.action, c.task turn.task with
  | .panic, .running key _ => (c.shared.inner key).getD [] = []
  | .enqueue key _, _ => ∀ i, c.task i ≠ .panicked key
  | _, _ => True

/-- An entry without a task is empty and was left by a panic; no task takes it up. -/
structure MannedAt (inner : QueueMap) (task : ι → RequestTask)
    (key : RequestSerializationQueueKey) : Prop where
  entry : ∀ queue, inner key = some queue →
    (∃ i, (task i).Drains key) ∨ queue = [] ∧ ∃ i, task i = .panicked key
  left : ∀ i, task i = .panicked key → inner key = some [] ∧ ∀ j, ¬ (task j).Drains key

def Manned (c : RequestConfig ι) : Prop := ∀ key, MannedAt c.shared.inner c.task key

theorem manned_start : Manned (start : RequestConfig ι) := fun _ => ⟨nofun, nofun⟩

variable {c : RequestConfig ι}

theorem Manned.noneStranded (h : Manned c) : NoneStranded c := by
  intro key queue hqueue hne
  rcases (h key).entry queue hqueue with hdrains | ⟨hempty, -⟩
  · exact hdrains
  · exact absurd hempty hne

section
variable [DecidableEq ι] {c d : RequestConfig ι} {i : ι} {action : RequestAction}

omit [DecidableEq ι] in
theorem panicsLast_panic {key : RequestSerializationQueueKey} {request : QueuedInitializedRequest}
    (htask : c.task i = .running key request) :
    PanicsLast c ⟨i, .panic⟩ ↔ (c.shared.inner key).getD [] = [] := by
  simp [PanicsLast, htask]

attribute [local grind =] update_apply

/-- An enqueue for a queue without a task would be for one that a panic left, and a panic
leaves an empty queue. -/
theorem Manned.step (h : Manned c) (hordered : Ordered c) (hmoves : Moves c i action d)
    (hlast : PanicsLast c ⟨i, action⟩) : Manned d := by
  intro k
  obtain ⟨hqueued, hleft⟩ := h k
  have hone := fun i j => hordered.drained.one i j k
  cases hmoves with
  | enqueued key gate htask hsome =>
    have hfree : ∀ j, c.task j ≠ .panicked key := hlast
    obtain ⟨queue, hqueue⟩ := isSome_iff_exists.mp hsome
    have hupdate := update_spec c.task i .finished
    constructor <;> dsimp only [pushed] <;> grind
  | created key gate htask hnone =>
    have hupdate := update_spec c.task i (.spawning key)
    constructor <;> dsimp only [pushed] <;> grind
  | spawned key htask | skipped key request htask hshut | ended key request htask =>
    have hupdate := update_spec c.task i (.draining key)
    constructor <;> grind
  | taken key request rest htask hqueue =>
    have hupdate := update_spec c.task i (.admitting key request)
    constructor <;> dsimp only <;> grind
  | removed key htask hempty =>
    have hupdate := update_spec c.task i .finished
    constructor <;> dsimp only <;> grind
  | started key request htask hopen =>
    have hupdate := update_spec c.task i (.running key request)
    constructor <;> grind
  | panicked key request htask =>
    have hempty := (panicsLast_panic htask).mp hlast
    obtain ⟨queue, hqueue⟩ : ∃ queue, c.shared.inner key = some queue :=
      isSome_iff_exists.mp (hordered.drained.entry i key (htask ▸ rfl))
    have hupdate := update_spec c.task i (.panicked key)
    constructor <;> grind
  | shut gate htask =>
    have hupdate := update_spec c.task i .finished
    constructor <;> dsimp only [gateShutdown] <;> grind

theorem stranded_of_not_panicsLast (h : Manned c) (hordered : Ordered c)
    (hmoves : Moves c i action d) (hnot : ¬ PanicsLast c ⟨i, action⟩) : ¬ NoneStranded d := by
  intro hnone
  cases hmoves with
  | enqueued key gate htask hsome =>
    obtain ⟨j, hj⟩ := not_forall_not.mp hnot
    obtain ⟨-, hfree⟩ := (h key).left j hj
    obtain ⟨l, hl⟩ := hnone key _ (update_self ..) (by simp)
    grind
  | created key gate htask hqueue =>
    obtain ⟨j, hj⟩ := not_forall_not.mp hnot
    rw [((h key).left j hj).1] at hqueue
    cases hqueue
  | panicked key request htask =>
    have hi : (c.task i).Drains key := htask ▸ rfl
    rw [panicsLast_panic htask] at hnot
    obtain ⟨queue, hqueue⟩ := isSome_iff_exists.mp (hordered.drained.entry i key hi)
    rw [hqueue] at hnot
    obtain ⟨l, hl⟩ := hnone key queue hqueue hnot
    have hone := hordered.drained.one l i key
    grind
  | _ => exact hnot (by simp [PanicsLast])

theorem ordered_of_run {turns} (hrun : Run (RequestStep AnyTurn) start turns c) : Ordered c :=
  Run.invariant (I := fun _ c => Ordered c)
    (fun _ _ _ _ h hstep => h.step (moves_of_step hstep)) hrun ordered_start

end

/-! ## Runs -/

/-- One request runs at a time for each key, and requests are started in the order they
were enqueued, each once at most. -/
structure Serialized (c : RequestConfig ι) : Prop where
  one : ∀ i j key request other, c.task i = .running key request →
    c.task j = .running key other → i = j
  order : ∀ key, (c.shared.started key).Sublist (c.shared.enqueued key)
  once : ∀ key, (c.shared.started key).Nodup

theorem Ordered.serialized (h : Ordered c) : Serialized c := by
  have horder : ∀ key, (c.shared.started key).Sublist (c.shared.enqueued key) := by
    intro key
    rw [← h.inTurn.waiting key]
    exact (h.inTurn.started key).trans (sublist_append_left _ _)
  refine ⟨fun i j key request other hi hj => ?_, horder, fun key => ?_⟩
  · refine h.drained.one i j key ?_ ?_
    · rw [hi]
      rfl
    · rw [hj]
      rfl
  · have hnumbers : ((c.shared.enqueued key).map (·.future)).Nodup := by
      rw [h.inTurn.numbered]
      exact nodup_range
    exact (horder key).nodup (Nodup.of_map _ hnumbers)

variable [DecidableEq ι]

/-- Requests are serialized, and stranded only by a panic with requests waiting behind it or by an
enqueue for a key whose task has panicked. -/
theorem requests_serialized {turns : List (Turn ι RequestAction)} {c : RequestConfig ι}
    (hrun : Run (RequestStep AnyTurn) RequestConfig.start turns c) :
    Serialized c ∧ (Run (RequestStep PanicsLast) RequestConfig.start turns c →
        NoneStranded c ∧ ∀ turn d, RequestStep AnyTurn c turn d →
          (NoneStranded d ↔ PanicsLast c turn)) := by
  have hordered := ordered_of_run hrun
  refine ⟨hordered.serialized, fun hlast => ?_⟩
  have hmanned := by
    refine (Run.invariant (I := fun _ c => Ordered c ∧ Manned c) (fun _ _ _ _ h hstep => ?_) hlast
      ⟨ordered_start, manned_start⟩).2
    have hmoves := moves_of_step ⟨trivial, hstep.2⟩
    exact ⟨h.1.step hmoves, h.2.step h.1 hmoves hstep.1⟩
  refine ⟨hmanned.noneStranded, fun turn d hstep => ?_⟩
  have hmoves := moves_of_step hstep
  constructor
  · intro hnone
    by_contra hnot
    exact stranded_of_not_panicsLast hmanned hordered hmoves hnot hnone
  · intro hpanics
    exact (hmanned.step hordered hmoves hpanics).noneStranded

instance [Fintype ι] (c : RequestConfig ι) (turn : Turn ι RequestAction) :
    Decidable (PanicsLast c turn) := by
  unfold PanicsLast
  split <;> infer_instance

attribute [local instance] neZeroTwo

/-- The second request is enqueued while the queue of the first stands, and panics last. -/
def lastPanics : List (Turn (Fin 2) RequestAction) :=
  [⟨0, .enqueue (.global ['k']) 0⟩, ⟨1, .enqueue (.global ['k']) 0⟩, ⟨0, .spawn⟩, ⟨0, .takeNext⟩,
    ⟨0, .enterGate⟩, ⟨0, .finish⟩, ⟨0, .takeNext⟩, ⟨0, .enterGate⟩, ⟨0, .panic⟩]

theorem requests_serialized_lastPanics : ∃ c : RequestConfig (Fin 2),
    Run (RequestStep AnyTurn) RequestConfig.start lastPanics c ∧
      c.shared.started (.global ['k']) = [⟨0, 0⟩, ⟨0, 1⟩] ∧ Serialized c ∧ NoneStranded c := by
  have hlast : Run (RequestStep PanicsLast) start lastPanics _ := run_of_takeAll rfl
  have hrun : Run (RequestStep AnyTurn) start lastPanics _ :=
    hlast.mono fun _ _ _ hstep => ⟨trivial, hstep.2⟩
  obtain ⟨hserialized, hnone⟩ := requests_serialized hrun
  exact ⟨_, hrun, rfl, hserialized, (hnone hlast).1⟩

/-- The first request panics, and the second waits for a task that is gone. -/
theorem stranded_behind_panic : ∃ c : RequestConfig (Fin 2),
    Run (RequestStep AnyTurn) RequestConfig.start
      [⟨0, .enqueue (.global ['k']) 0⟩, ⟨0, .spawn⟩, ⟨0, .takeNext⟩, ⟨0, .enterGate⟩,
        ⟨0, .panic⟩, ⟨1, .enqueue (.global ['k']) 0⟩] c ∧ ¬ NoneStranded c := by
  refine ⟨_, run_of_takeAll rfl, fun hall => ?_⟩
  have hdrains := hall (.global ['k']) [⟨0, 1⟩] rfl (cons_ne_nil _ _)
  exact absurd hdrains (by decide)

end CodexRs.AppServer
