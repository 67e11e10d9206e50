import CodexRs.ExecServer.Client

/-!
# A disconnect reaches every session

Registrations look at the latch under the lock of the table, so none gets in once the table is
drained.
-/
namespace CodexRs.ExecServer
open Text Tasks Machine ClientCall Function Option

variable {ι : Type*}

def SessionState.failedEvents (state : SessionState) : ℕ :=
  state.events.live.countP (·.isFailed)

/-- The session whose failure the task is about to publish. -/
@[grind] def ClientCall.publishes : ClientCall → Option SessionRef
  | .publishing r _ true _ => some r
  | _ => none

/-- The states of the reader task. -/
def ClientCall.isReader : ClientCall → Bool
  | .receiving | .routing _ _ | .ordering _ _ _ | .delivering _ _ _ _ | .unrouting _ => true
  | .disconnecting _ | .draining _ | .failingAll _ _ | .returned => true
  | .failing _ _ (.reader _) | .publishing _ _ _ (.reader _) => true
  | _ => false

/-- No failure is recorded, its task is about to publish it, or it was published. -/
inductive Fate (state : SessionState) : Option ι → Prop
  | unfailed (hfailure : state.failure = none) (hevents : state.failedEvents = 0) : Fate state none
  | recorded (i : ι) (hfailure : state.failure.isSome) (hevents : state.failedEvents = 0) :
      Fate state (some i)
  | published (hfailure : state.failure.isSome) (hevents : state.failedEvents = 1) :
      Fate state none

namespace Fate
variable {state state' : SessionState} {publisher : Option ι}

theorem of_same (h : Fate state publisher) (hfailure : state'.failure = state.failure)
    (hevents : state'.failedEvents = state.failedEvents) : Fate state' publisher := by
  cases h with
  | unfailed hf he => exact .unfailed (hfailure.trans hf) (hevents.trans he)
  | recorded i hf he => exact .recorded i (hfailure ▸ hf) (hevents.trans he)
  | published hf he => exact .published (hfailure ▸ hf) (hevents.trans he)

theorem failedEvents_le (h : Fate state publisher) : state.failedEvents ≤ 1 := by
  cases h <;> omega

end Fate

namespace SessionState
variable (state : SessionState)

theorem failedEvents_publishAll (events : List ExecProcessEvent) :
    (state.publishAll events).failedEvents = state.failedEvents + events.countP (·.isFailed) := by
  simp [failedEvents, publishAll, ExecProcessEventLog.foldl_publish_live]

theorem recordFailure_of_none {state : SessionState} (h : state.failure = none) (message : Str) :
    state.recordFailure message = ({ state with failure := some message }, true) := by
  rw [recordFailure, h]
  rfl

theorem recordFailure_of_isSome {state : SessionState} (h : state.failure.isSome)
    (message : Str) : state.recordFailure message = (state, false) := by
  obtain ⟨recorded, hrecorded⟩ := isSome_iff_exists.mp h
  rw [recordFailure, hrecorded]
  rfl

theorem publishFailure_eq (message : Str) (shouldPublish : Bool) :
    (state.publishFailure message shouldPublish).failure = state.failure ∧
      (state.publishFailure message shouldPublish).orderedEvents = state.orderedEvents ∧
      (state.publishFailure message shouldPublish).failedEvents =
        state.failedEvents + shouldPublish.toNat := by
  cases shouldPublish with
  | false => exact ⟨rfl, rfl, rfl⟩
  | true =>
    refine ⟨rfl, rfl, ?_⟩
    exact failedEvents_publishAll { state with wake := state.nextWake } [.failed message]

end SessionState

namespace ClientInner
variable {s s' : ClientInner ι} {t t' : ClientCall} {i j reader : ι} {r : SessionRef}

/-- No failure waits among the events that are put in order. -/
def Ordered (state : SessionState) : Prop :=
  state.orderedEvents.All fun event => event.isFailed = false

structure Sound (s : ClientInner ι) : Prop where
  fate : ∀ r, Fate (s.sessions.state r) (s.publisher r)
  ordered : ∀ r, Ordered (s.sessions.state r)
  latched : s.drained.isSome → s.disconnected.isSome
  empty : s.drained.isSome → s.sessions.table = ∅

/-- All sessions that were drained have failed or are still to be failed. -/
@[grind] def Covers (s : ClientInner ι) (remaining : List SessionRef) : Prop :=
  ∃ taken, s.drained = some taken ∧
    ∀ r ∈ taken, r ∈ remaining ∨ (s.sessions.state r).failure.isSome

/-- What a task knows where it stands. -/
def Stage (i : ι) (s : ClientInner ι) : ClientCall → Prop
  | .inserting _ => s.writeLock = some i
  | .storing _ => s.writeLock = some i ∧ s.drained = none
  | .delivering _ _ ready _ => ∀ event ∈ ready, event.isFailed = false
  | .draining _ => s.disconnected.isSome
  | .failingAll _ remaining => s.Covers remaining
  | .failing r _ (.reader remaining) => s.Covers (r :: remaining)
  | .publishing _ _ _ (.reader remaining) => s.Covers remaining
  | .returned => s.Covers []
  | _ => True

structure CallSound (reader i : ι) (s : ClientInner ι) (t : ClientCall) : Prop where
  publishes : ∀ r, s.publisher r = some i ↔ t.publishes = some r
  isReader : t.isReader = true → i = reader
  stage : Stage i s t

/-- What a task may rely on while others take their turns. -/
structure Rely (reader j : ι) (s s' : ClientInner ι) : Prop where
  publisher : ∀ r, s'.publisher r = some j ↔ s.publisher r = some j
  writeLock : s.writeLock = some j → s'.writeLock = some j
  undrained : s.writeLock = some j → s.drained = none → s'.drained = none
  drained : j = reader → s'.drained = s.drained
  disconnected : s.disconnected.isSome → s'.disconnected.isSome
  failure : ∀ r, (s.sessions.state r).failure.isSome → (s'.sessions.state r).failure.isSome

variable {remaining : List SessionRef}

theorem Covers.mono (h : s.Covers remaining) (hdrained : s'.drained = s.drained)
    (hfailure : ∀ r, (s.sessions.state r).failure.isSome →
      (s'.sessions.state r).failure.isSome) : s'.Covers remaining := by
  grind

theorem Covers.tail (h : s.Covers (r :: remaining))
    (hr : (s.sessions.state r).failure.isSome) : s.Covers remaining := by
  grind

theorem Rely.callSound (h : Rely reader j s s') (hc : CallSound reader j s t) :
    CallSound reader j s' t where
  publishes r := (h.publisher r).trans (hc.publishes r)
  isReader := hc.isReader
  stage := by
    obtain ⟨-, hreader, hstage⟩ := hc
    obtain ⟨-, hlock, hundrained, hdrained, hdisconnected, hfailure⟩ := h
    have hcovers : ∀ remaining, t.isReader = true → s.Covers remaining → s'.Covers remaining :=
      fun _ ht hcovers => hcovers.mono (hdrained (hreader ht)) hfailure
    cases t with
    | failing r message caller | publishing r message shouldPublish caller =>
      cases caller <;> grind -linarith [Stage, isReader]
    | _ => grind -linarith [Stage, isReader]

/-- A turn that keeps the invariant, and on which the others can rely. -/
structure Moves (reader i : ι) (s s' : ClientInner ι) : Prop where
  sound : s'.Sound
  rely : ∀ j ≠ i, Rely reader j s s'

namespace Moves

/-- A turn that leaves the sessions themselves alone. -/
theorem of_table (h : s.Sound) (hstate : s'.sessions.state = s.sessions.state)
    (hpublisher : s'.publisher = s.publisher) (hdrained : s'.drained = s.drained)
    (hlatch : s.disconnected.isSome → s'.disconnected.isSome)
    (htable : s.drained.isSome → s'.sessions.table = ∅)
    (hlock : ∀ j ≠ i, s.writeLock = some j → s'.writeLock = some j) : Moves reader i s s' := by
  obtain ⟨hfate, hordered, hlatched, hempty⟩ := h
  refine ⟨⟨?_, ?_, by grind, by grind⟩, fun j hj => ⟨?_, hlock j hj, ?_, ?_, hlatch, ?_⟩⟩ <;>
    simp only [hstate, hpublisher, hdrained] <;> grind -linarith

/-- A turn that changes nothing but what was returned. -/
theorem answers (h : s.Sound) (allocated : ℕ) (answers : List ClientAnswer) :
    Moves reader i s { s with allocated, answers } :=
  of_table h rfl rfl rfl id h.empty fun _ _ => id

theorem unlock (h : s.Sound) (hlock : s.writeLock = some i) (answers : List ClientAnswer) :
    Moves reader i s { s with writeLock := none, answers } := by
  refine of_table h rfl rfl rfl id h.empty fun j hj hother => ?_
  exact absurd (some.inj (hother.symm.trans hlock)) hj

theorem lock (h : s.Sound) (hfree : s.writeLock = none) :
    Moves reader i s { s with writeLock := some i } := by
  refine of_table h rfl rfl rfl id h.empty fun j _ hother => ?_
  rw [hfree] at hother
  cases hother

theorem removeSession (h : s.Sound) (processId : ProcessId) :
    Moves reader i s { s with sessions := s.sessions.removeSession processId } := by
  refine of_table h rfl rfl rfl id (fun hsome => ?_) fun _ _ => id
  have hempty := h.empty hsome
  simp only [Sessions.removeSession, hempty]
  rfl

theorem recordDisconnected (h : s.Sound) (message : Str) :
    Moves reader i s (s.recordDisconnected message).1 :=
  of_table h rfl rfl rfl (fun _ => rfl) h.empty fun _ _ => id

theorem answer (h : Moves reader i s s') (result : ClientAnswer) :
    Moves reader i s (s'.answer result) where
  sound := { h.sound with }
  rely j hj := by
    have hrely := h.rely j hj
    exact { hrely with }

/-- A session is entered into the table, which was not drained. -/
theorem store (h : s.Sound) (hlock : s.writeLock = some i) (hdrained : s.drained = none)
    (session : Session) :
    Moves reader i s { s with sessions := { s.sessions with
      table := s.sessions.table.insert session.processId session.state } }.unlock := by
  refine of_table h rfl rfl rfl id (fun hsome => ?_) fun j hj hother => ?_
  · rw [hdrained] at hsome
    cases hsome
  · exact absurd (some.inj (hother.symm.trans hlock)) hj

theorem drain (h : s.Sound) (hreader : i = reader) (hfree : s.writeLock = none)
    (hlatch : s.disconnected.isSome) (taken : List SessionRef) :
    Moves reader i s
      { s with sessions := { s.sessions with table := ∅ }, drained := some taken } := by
  refine ⟨⟨h.fate, h.ordered, fun _ => hlatch, fun _ => rfl⟩, fun j hj => ?_⟩
  constructor <;> grind -linarith

/-- A turn that changes one session and who is about to publish its failure. -/
theorem of_session {state : SessionState} {publisher : Option ι} (h : s.Sound) (r : SessionRef)
    (hstate : s'.sessions.state = Function.update s.sessions.state r state)
    (hpublisher : s'.publisher = Function.update s.publisher r publisher)
    (htable : s'.sessions.table = s.sessions.table) (hdrained : s'.drained = s.drained)
    (hlatch : s'.disconnected = s.disconnected) (hlock : s'.writeLock = s.writeLock)
    (hfate : Fate state publisher) (hordered : Ordered state)
    (hfailure : (s.sessions.state r).failure.isSome → state.failure.isSome)
    (hothers : ∀ j ≠ i, publisher = some j ↔ s.publisher r = some j) : Moves reader i s s' := by
  have happly := congrFun hstate
  have happly' := congrFun hpublisher
  obtain ⟨hfates, hordereds, hlatched, hempty⟩ := h
  constructor
  · constructor <;> grind -linarith [update_apply]
  · intro j hj
    constructor <;> grind -linarith [update_apply]

/-- A turn that publishes no failure. -/
theorem update {f : SessionState → SessionState} (h : s.Sound) (r : SessionRef)
    (hfailure : (f (s.sessions.state r)).failure = (s.sessions.state r).failure)
    (hevents : (f (s.sessions.state r)).failedEvents = (s.sessions.state r).failedEvents)
    (hordered : Ordered (f (s.sessions.state r))) : Moves reader i s (s.update r f) := by
  refine of_session h r rfl (update_eq_self r s.publisher).symm rfl rfl rfl rfl
    ((h.fate r).of_same hfailure hevents) hordered ?_ fun _ _ => .rfl
  rw [hfailure]
  exact id

end Moves

theorem CallSound.of_quiet (hc : CallSound reader i s t) (ht : t.publishes = none)
    (hpublisher : s'.publisher = s.publisher) (ht' : t'.publishes = none)
    (hreader : t'.isReader = false ∨ t.isReader = true) (hstage : Stage i s' t') :
    CallSound reader i s' t' where
  publishes r := by
    rw [hpublisher, hc.publishes r, ht, ht']
  isReader h := by
    rcases hreader with hfalse | hreader
    · rw [hfalse] at h
      cases h
    · exact hc.isReader hreader
  stage := hstage

def TurnSound (reader i : ι) (s s' : ClientInner ι) (t' : ClientCall) : Prop :=
  Moves reader i s s' ∧ CallSound reader i s' t'

/-- A turn that only allocates and answers. -/
theorem CallSound.answers (h : s.Sound) (hc : CallSound reader i s t) (ht : t.publishes = none)
    {allocated : ℕ} {answers : List ClientAnswer} (ht' : t'.publishes = none)
    (hreader : t'.isReader = false ∨ t.isReader = true)
    (hstage : Stage i { s with allocated, answers } t') :
    TurnSound reader i s { s with allocated, answers } t' :=
  ⟨.answers h _ _, hc.of_quiet ht rfl ht' hreader hstage⟩

theorem tableStep_turn (h : s.Sound) (hc : CallSound reader i s t)
    (hstep : s.tableStep i t = some (s', t')) : TurnSound reader i s s' t' := by
  have hstage := hc.stage
  unfold tableStep at hstep
  split at hstep
  · split_ifs at hstep with hlock
    cases hstep
    exact ⟨.lock h (by simpa using hlock), hc.of_quiet rfl rfl rfl (.inl rfl) rfl⟩
  · split at hstep
    · cases hstep
      exact ⟨.unlock h hstage _, hc.of_quiet rfl rfl rfl (.inl rfl) trivial⟩
    · rename_i hlatch
      cases hstep
      refine ⟨.answers h _ _, hc.of_quiet rfl rfl rfl (.inl rfl) ⟨hstage, ?_⟩⟩
      cases hdrained : s.drained with
      | none => rfl
      | some taken =>
        have hsome := h.latched (by rw [hdrained]; rfl)
        rw [hlatch] at hsome
        cases hsome
  · split_ifs at hstep
    · cases hstep
      exact ⟨.unlock h hstage.1 _, hc.of_quiet rfl rfl rfl (.inl rfl) trivial⟩
    · cases hstep
      exact ⟨(Moves.store h hstage.1 hstage.2 _).answer _,
        hc.of_quiet rfl rfl rfl (.inl rfl) trivial⟩
  · split_ifs at hstep
    cases hstep
    exact ⟨.removeSession h _, hc.of_quiet rfl rfl rfl (.inl rfl) trivial⟩
  · cases hstep

theorem failCall_turn (hmoves : Moves reader i s s') (hc : CallSound reader i s t)
    (ht : t.publishes = none) (hpublisher : s'.publisher = s.publisher) (session : Option Session)
    (message : Str) :
    Moves reader i s (s'.failCall session message).1 ∧
      CallSound reader i (s'.failCall session message).1 (s'.failCall session message).2 := by
  cases session with
  | none =>
    exact ⟨hmoves.answer _, hc.of_quiet ht hpublisher rfl (.inl rfl) trivial⟩
  | some session =>
    exact ⟨hmoves, hc.of_quiet ht hpublisher rfl (.inl rfl) trivial⟩

theorem callStep_turn (h : s.Sound) (hc : CallSound reader i s t)
    (hstep : s.callStep t = some (s', t')) : TurnSound reader i s s' t' := by
  unfold callStep at hstep
  split at hstep
  · simp only at hstep
    split at hstep <;> cases hstep <;>
      exact hc.answers h rfl rfl (.inl rfl) trivial
  · split at hstep
    · obtain ⟨rfl, rfl⟩ := Prod.mk.inj (some.inj hstep)
      exact failCall_turn (.answers h _ _) hc rfl rfl _ _
    · cases hstep
      exact hc.answers h rfl rfl (.inl rfl) trivial
  · obtain ⟨rfl, rfl⟩ := Prod.mk.inj (some.inj hstep)
    exact failCall_turn (.recordDisconnected h _) hc rfl rfl _ _
  · cases hstep

theorem Moves.recordFailure (h : s.Sound) (message : Str) (hnone : (s.sessions.state r).failure = none) :
    Moves reader i s { s.update r fun _ => { s.sessions.state r with failure := some message } with
      publisher := Function.update s.publisher r (some i) } := by
  have hpublisher : s.publisher r = none ∧ (s.sessions.state r).failedEvents = 0 := by
    generalize hp : s.publisher r = publisher
    have hfate := h.fate r
    rw [hp] at hfate
    cases hfate with
    | unfailed _ hevents => exact ⟨rfl, hevents⟩
    | recorded j hfailure => rw [hnone] at hfailure; cases hfailure
    | published hfailure => rw [hnone] at hfailure; cases hfailure
  refine .of_session h r rfl rfl rfl rfl rfl rfl (.recorded i rfl hpublisher.2) (h.ordered r)
    (fun _ => rfl) fun j hj => ?_
  rw [hpublisher.1]
  simp [Ne.symm hj]

theorem Moves.publishFailure (h : s.Sound) (hmine : s.publisher r = some i) (message : Str) :
    Moves reader i s { s.update r fun state => state.publishFailure message true with
      publisher := Function.update s.publisher r none } := by
  obtain ⟨hfailure, hordered, hevents⟩ := (s.sessions.state r).publishFailure_eq message true
  have hfate := h.fate r
  rw [hmine] at hfate
  cases hfate with
  | recorded _ hsome hzero =>
    refine .of_session h r rfl rfl rfl rfl rfl rfl ?_ ?_ ?_ fun j hj => ?_
    · exact .published (hfailure ▸ hsome) (by rw [hevents, hzero]; rfl)
    · exact h.ordered r
    · exact id
    · rw [hmine]
      simp [Ne.symm hj]

variable {caller : FailureCaller} {message : Str} {shouldPublish : Bool}

/-- The stage behind the record of a failure. -/
theorem stage_publishing
    (hstage : Stage i s (.failing r message caller)) (hdrained : s'.drained = s.drained)
    (hfailure : ∀ q, (s.sessions.state q).failure.isSome → (s'.sessions.state q).failure.isSome)
    (hr : (s'.sessions.state r).failure.isSome) :
    Stage i s' (.publishing r message shouldPublish caller) := by
  cases caller with
  | read => trivial
  | reader remaining =>
    exact Covers.tail (Covers.mono hstage hdrained hfailure) hr

theorem isReader_publishing (message : Str) (shouldPublish : Bool) (caller : FailureCaller) :
    (publishing r message shouldPublish caller).isReader = (failing r message caller).isReader := by
  cases caller <;> rfl

theorem failing_turn (h : s.Sound) (hc : CallSound reader i s (.failing r message caller))
    (hstep : s.failureStep i (.failing r message caller) = some (s', t')) :
    TurnSound reader i s s' t' := by
  have hreader : ∀ shouldPublish,
      (publishing r message shouldPublish caller).isReader = true → i = reader := by
    intro shouldPublish ht
    rw [isReader_publishing] at ht
    exact hc.isReader ht
  cases hfailure : (s.sessions.state r).failure with
  | none =>
    simp only [failureStep, SessionState.recordFailure_of_none hfailure] at hstep
    cases hstep
    refine ⟨.recordFailure h message hfailure, fun q => ?_, hreader true, ?_⟩
    · by_cases hq : q = r
      · simp [hq, publishes]
      · have hold := hc.publishes q
        simp [update_of_ne hq, hold, publishes, Ne.symm hq]
    · refine stage_publishing hc.stage rfl (fun q hq => ?_) ?_
      · by_cases hqr : q = r
        · subst hqr
          simp [update, Sessions.update]
        · simpa [update, Sessions.update, update_of_ne hqr] using hq
      · simp [update, Sessions.update]
  | some recorded =>
    have hsome : (s.sessions.state r).failure.isSome := by
      rw [hfailure]
      rfl
    simp only [failureStep, SessionState.recordFailure_of_isSome hsome, Bool.false_eq_true,
      if_false] at hstep
    cases hstep
    have hsame : (s.update r fun _ => s.sessions.state r) = s := by
      simp [update, Sessions.update]
    have hs : { s.update r fun _ => s.sessions.state r with publisher := s.publisher } = s := by
      rw [hsame]
    rw [hs]
    exact ⟨.answers h _ _, hc.publishes, hreader false,
      stage_publishing hc.stage rfl (fun _ => id) hsome⟩

/-- The state behind the publishing of a failure, before the caller goes on. -/
def afterPublishing (s : ClientInner ι) (r : SessionRef) (message : Str) (shouldPublish : Bool) :
    ClientInner ι :=
  { s.update r fun state => state.publishFailure message shouldPublish with
    publisher := if shouldPublish then Function.update s.publisher r none else s.publisher }

theorem failureStep_publishing (message : Str) (shouldPublish : Bool) (caller : FailureCaller) :
    s.failureStep i (.publishing r message shouldPublish caller) =
      let t := s.afterPublishing r message shouldPublish
      match caller with
      | .read =>
        some (t.answer (.read (.ok ((t.sessions.state r).synthesizedFailure message))), .idle)
      | .reader remaining => some (t, .failingAll message remaining) := by
  cases caller <;> rfl

theorem afterPublishing_moves
    (h : s.Sound) (hc : CallSound reader i s (.publishing r message shouldPublish caller)) :
    Moves reader i s (s.afterPublishing r message shouldPublish) ∧
      ∀ q, (s.afterPublishing r message shouldPublish).publisher q ≠ some i := by
  cases shouldPublish with
  | true =>
    refine ⟨.publishFailure h ((hc.publishes r).mpr rfl) message, fun q => ?_⟩
    by_cases hq : q = r
    · simp [afterPublishing, hq]
    · have hold := hc.publishes q
      simp only [publishes, some.injEq, Ne.symm hq] at hold
      simpa [afterPublishing, update_of_ne hq] using hold
  | false =>
    obtain ⟨hfailure, hordered, hevents⟩ := (s.sessions.state r).publishFailure_eq message false
    have hordered' : Ordered ((s.sessions.state r).publishFailure message false) := by
      exact h.ordered r
    have hmoves : Moves reader i s (s.update r (·.publishFailure message false)) :=
      .update h r hfailure hevents hordered'
    refine ⟨hmoves, fun q hq => ?_⟩
    cases (hc.publishes q).mp hq

theorem afterPublishing_failure (message : Str) (shouldPublish : Bool) (q : SessionRef) :
    ((s.afterPublishing r message shouldPublish).sessions.state q).failure =
      (s.sessions.state q).failure := by
  by_cases hq : q = r
  · subst hq
    simpa [afterPublishing, update, Sessions.update] using
      ((s.sessions.state q).publishFailure_eq message shouldPublish).1
  · simp [afterPublishing, update, Sessions.update, update_of_ne hq]

theorem publishing_turn
    (h : s.Sound) (hc : CallSound reader i s (.publishing r message shouldPublish caller))
    (hstep : s.failureStep i (.publishing r message shouldPublish caller) = some (s', t')) :
    TurnSound reader i s s' t' := by
  obtain ⟨hmoves, hnotmine⟩ := afterPublishing_moves h hc
  rw [failureStep_publishing] at hstep
  cases caller with
  | read =>
    cases hstep
    refine ⟨hmoves.answer _, fun q => ?_, (fun ht => by cases ht), trivial⟩
    exact iff_of_false (hnotmine q) (by simp [publishes])
  | reader remaining =>
    cases hstep
    refine ⟨hmoves, fun q => ?_, fun _ => hc.isReader rfl, ?_⟩
    · exact iff_of_false (hnotmine q) (by simp [publishes])
    · refine Covers.mono hc.stage rfl fun q hq => ?_
      rw [afterPublishing_failure]
      exact hq

theorem failureStep_turn (h : s.Sound) (hc : CallSound reader i s t)
    (hstep : s.failureStep i t = some (s', t')) : TurnSound reader i s s' t' := by
  cases t with
  | failing r message caller => exact failing_turn h hc hstep
  | publishing r message shouldPublish caller => exact publishing_turn h hc hstep
  | _ => cases hstep

theorem readerStep_turn (h : s.Sound) (hc : CallSound reader i s t)
    (hstep : s.readerStep t = some (s', t')) : TurnSound reader i s s' t' := by
  have hstage := hc.stage
  unfold readerStep at hstep
  split at hstep
  case h_8 | h_9 =>
    cases hstep
    exact hc.answers h rfl rfl (.inr rfl) hstage
  · split at hstep <;> cases hstep <;>
      exact hc.answers h rfl rfl (.inr rfl) trivial
  · rename_i processId q notification
    cases hstep
    have hevent : notification.event.isFailed = false := by cases notification <;> rfl
    have hall := Reorder.Buffer.All.accept (h.ordered q) notification.seq hevent
    exact ⟨.update h q rfl rfl hall.2, hc.of_quiet rfl rfl rfl (.inr rfl) hall.1⟩
  · rename_i processId q event ready publishedClosed
    cases hstep
    have hevent : event.isFailed = false := hstage event List.mem_cons_self
    refine ⟨.update h q rfl ?_ (h.ordered q), hc.of_quiet rfl rfl rfl (.inr rfl) ?_⟩
    · simp [SessionState.failedEvents_publishAll, hevent]
    · exact fun other hother => hstage other (List.mem_cons_of_mem event hother)
  · split_ifs at hstep <;> cases hstep <;>
      exact hc.answers h rfl rfl (.inr rfl) trivial
  · split_ifs at hstep
    cases hstep
    exact ⟨.removeSession h _, hc.of_quiet rfl rfl rfl (.inr rfl) trivial⟩
  · cases hstep
    exact ⟨.recordDisconnected h _, hc.of_quiet rfl rfl rfl (.inr rfl) rfl⟩
  · split_ifs at hstep with hlock
    cases hstep
    refine ⟨.drain h (hc.isReader rfl) (by simpa using hlock) hstage _,
      hc.of_quiet rfl rfl rfl (.inr rfl) ⟨_, rfl, fun q hq => .inl hq⟩⟩
  · cases hstep

theorem answerCall_moves (h : s.Sound) (session : Option Session)
    (result : Except ExecServerError ReadResponse) :
    Moves reader i s (s.answerCall session result) := by
  cases session <;> exact .answers h _ _

theorem answerCall_publisher (session : Option Session)
    (result : Except ExecServerError ReadResponse) :
    (s.answerCall session result).publisher = s.publisher := by
  cases session <;> rfl

theorem sec_turn {action : ClientAction} (h : s.Sound) (hc : CallSound reader i s t)
    (hsec : sec i action s t = some (s', t')) : TurnSound reader i s s' t' := by
  unfold sec at hsec
  split at hsec
  case h_1 | h_2 | h_4 =>
    cases hsec
    exact hc.answers h rfl rfl (.inl rfl) trivial
  case h_7 | h_8 | h_9 =>
    cases hsec
    exact hc.answers h rfl rfl (.inr rfl) trivial
  · split_ifs at hsec
    cases hsec
    exact hc.answers h rfl rfl (.inl rfl) trivial
  · cases hsec
    exact ⟨answerCall_moves h _ _,
      hc.of_quiet rfl (answerCall_publisher _ _) rfl (.inl rfl) trivial⟩
  · simp only at hsec
    split_ifs at hsec <;> cases hsec
    · exact hc.answers h rfl rfl (.inl rfl) trivial
    · exact ⟨answerCall_moves h _ _,
        hc.of_quiet rfl (answerCall_publisher _ _) rfl (.inl rfl) trivial⟩
  · rcases or_eq_some_iff.mp hsec with hstep | ⟨-, hsec⟩
    · exact tableStep_turn h hc hstep
    rcases or_eq_some_iff.mp hsec with hstep | ⟨-, hsec⟩
    · exact callStep_turn h hc hstep
    rcases or_eq_some_iff.mp hsec with hstep | ⟨-, hstep⟩
    · exact failureStep_turn h hc hstep
    · exact readerStep_turn h hc hstep
  · cases hsec

theorem sec_returned (action : ClientAction) : sec i action s .returned = none := by
  cases action with
  | respond outcome => cases outcome <;> rfl
  | _ => rfl

theorem client_kept {allowed : Config ι (ClientInner ι) ClientCall → Turn ι ClientAction → Prop} :
    Kept sec allowed Sound (CallSound reader) :=
  .ofRely
    (fun {_ i _ _ _} hI hJ _ hsec =>
      ⟨(sec_turn hI (hJ i) hsec).1.sound, (sec_turn hI (hJ i) hsec).2⟩)
    (fun {_ _ j _ _ _} hj hI hi hsec => (sec_turn hI hi hsec).1.rely j hj)
    Rely.callSound

theorem sound_new : (new : ClientInner ι).Sound where
  fate _ := .unfailed rfl rfl
  ordered _ := by
    intro k value hlookup
    cases hlookup
  latched h := by cases h
  empty h := by cases h

theorem callSound_connected [DecidableEq ι] (reader i : ι) :
    CallSound reader i (connected reader).shared ((connected reader).task i) := by
  by_cases hi : i = reader
  · simp only [connected, if_pos hi]
    exact ⟨fun r => by simp [new, publishes], fun _ => hi, trivial⟩
  · simp only [connected, if_neg hi]
    exact ⟨fun r => by simp [new, publishes], (fun ht => by cases ht), trivial⟩

end ClientInner

open ClientInner

/-- The failure of a session was published, or the task that has recorded it is about to. -/
def Reached (c : Config ι (ClientInner ι) ClientCall) (r : SessionRef) : Prop :=
  (c.shared.sessions.state r).failure.isSome ∧
    ((c.shared.sessions.state r).failedEvents = 1 ∨
      ((c.shared.sessions.state r).failedEvents = 0 ∧
        ∃ i, (c.task i).publishes = some r))

/-- Every session that was in the table when it was drained. -/
def ReachesDrained (c : Config ι (ClientInner ι) ClientCall) : Prop :=
  ∃ taken, c.shared.drained = some taken ∧ ∀ r ∈ taken, Reached c r

variable {reader : ι} {turns : List (Turn ι ClientAction)}
  {c d : Config ι (ClientInner ι) ClientCall}

theorem ClientInner.reached (hsound : c.shared.Sound)
    (hcalls : ∀ i, CallSound reader i c.shared (c.task i)) (hreturned : c.task reader = .returned) :
    ReachesDrained c := by
  have hcovers := (hcalls reader).stage
  rw [hreturned] at hcovers
  obtain ⟨taken, htaken, hall⟩ := hcovers
  refine ⟨taken, htaken, fun r hr => ?_⟩
  have hfailure := (hall r hr).resolve_left List.not_mem_nil
  refine ⟨hfailure, ?_⟩
  generalize hp : c.shared.publisher r = publisher
  have hfate := hsound.fate r
  rw [hp] at hfate
  cases hfate with
  | unfailed hnone => rw [hnone] at hfailure; cases hfailure
  | recorded i _ hevents => exact .inr ⟨hevents, i, ((hcalls i).publishes r).mp hp⟩
  | published _ hevents => exact .inl hevents

variable [DecidableEq ι]

theorem ClientInner.sound_of_run
    (hrun : Run (Step sec fun _ _ => True) (connected reader) turns c) :
    c.shared.Sound ∧ ∀ i, CallSound reader i c.shared (c.task i) :=
  client_kept.run hrun ⟨sound_new, callSound_connected reader⟩

theorem ClientInner.returned_of_run (hrun : Run (Step sec fun _ _ => True) c turns d)
    (hreturned : c.task reader = .returned) : d.task reader = .returned := by
  refine Run.invariant (I := fun _ c => c.task reader = .returned) ?_ hrun hreturned
  intro turn _ c d hreturned hstep
  obtain ⟨s, t, hsec, rfl⟩ := take_eq_some.mp hstep.2
  have hne : reader ≠ turn.task := by
    intro heq
    rw [← heq, hreturned, sec_returned] at hsec
    cases hsec
  exact (update_of_ne hne _ _).trans hreturned

/-- A session fails at most once; when the reader has returned, every session of the drained table
has failed or is about to, and none is registered from then on. -/
theorem disconnect_reaches_sessions
    (hrun : Run (Step sec fun _ _ => True) (connected reader) turns c) :
    (∀ r, (c.shared.sessions.state r).failedEvents ≤ 1) ∧
      (c.task reader = .returned → ReachesDrained c ∧
        ∀ later d, Run (Step sec fun _ _ => True) c later d → d.shared.sessions.table = ∅) := by
  obtain ⟨hsound, hcalls⟩ := sound_of_run hrun
  refine ⟨fun r => (hsound.fate r).failedEvents_le, fun hreturned => ?_⟩
  refine ⟨reached hsound hcalls hreturned, fun later d hlater => ?_⟩
  obtain ⟨hsound', hcalls'⟩ := sound_of_run (hrun.append hlater)
  obtain ⟨taken, htaken, -⟩ := reached hsound' hcalls' (returned_of_run hlater hreturned)
  exact hsound'.empty (by rw [htaken]; rfl)

/-- A session is registered and the transport is closed. -/
def registeredThenClosed : List (Turn Bool ClientAction) :=
  [⟨false, .register "p".toList⟩, ⟨false, .step⟩, ⟨false, .step⟩, ⟨false, .step⟩,
   ⟨true, .disconnect none⟩, ⟨true, .step⟩, ⟨true, .step⟩, ⟨true, .step⟩, ⟨true, .step⟩,
   ⟨true, .step⟩, ⟨true, .step⟩]

theorem disconnect_reaches_sessions_registered :
    ∃ c, (connected true).takeAll sec (fun _ _ => True) registeredThenClosed = some c ∧
      c.task true = .returned ∧ c.shared.drained = some [0] ∧ ReachesDrained c := by
  have hrun : (connected true).takeAll sec (fun _ _ => True) registeredThenClosed = some _ := rfl
  exact ⟨_, hrun, rfl, rfl, ((disconnect_reaches_sessions (run_of_takeAll hrun)).2 rfl).1⟩

/-- A read has recorded the failure, and the reader task is done before the read publishes it. -/
def recordedByRead : List (Turn Bool ClientAction) :=
  [⟨false, .register "p".toList⟩, ⟨false, .step⟩, ⟨false, .step⟩, ⟨false, .step⟩,
   ⟨false, .read ⟨"p".toList, 0⟩⟩, ⟨false, .step⟩, ⟨false, .step⟩,
   ⟨false, .respond (.error .closed)⟩, ⟨false, .step⟩, ⟨false, .step⟩,
   ⟨true, .disconnect none⟩, ⟨true, .step⟩, ⟨true, .step⟩, ⟨true, .step⟩, ⟨true, .step⟩,
   ⟨true, .step⟩, ⟨true, .step⟩]

theorem disconnect_before_read_publishes :
    ∃ c, Run (Step sec fun _ _ => True) (connected true) recordedByRead c ∧
      c.task true = .returned ∧ c.shared.drained = some [0] ∧
      (c.shared.sessions.state 0).failedEvents ≠ 1 :=
  ⟨_, run_of_takeAll rfl, rfl, rfl, by decide⟩

end CodexRs.ExecServer
