import CodexRs.AppServerTransport.TrackerTrace

/-!
# Runs of the tracker

A finished outbound task is accounted for by the key of its client. A client that is initialised
under a key with an uncollected task gets a new connection, and the old task, when it finishes,
closes that one.
-/
namespace CodexRs.AppServerTransport
open Machine Lifecycle AList ClientTracker List Outcome

/-- What handling an envelope can amount to, once its stream is known. -/
inductive Handled (t : ClientTracker) (key : ClientKey) (starts : Bool) : ClientTracker → Prop
  | quiet : Handled t key starts t
  | pinged (now : ℕ) : Handled t key starts (t.handlePing key now)
  | closed : Handled t key starts (t.closeClient key).2
  | forwarded {client} (hl : t.clients.lookup key = some client) (seqId message now) :
      Handled t key starts (t.forwardMessage key client seqId message now).2
  | opened {u} (hstarts : starts = true) (hu : u = t ∨ t.closeClient key = (.ok (), u))
      (isLegacyStreamId seqId message now) :
      Handled t key starts (u.openConnection key isLegacyStreamId seqId message now).2

namespace ClientTracker
variable {t : ClientTracker} {key : ClientKey}

/-- The key under which an envelope is handled. -/
def envelopeKey (t : ClientTracker) (envelope : ClientEnvelope) (random : StreamId) : ClientKey :=
  (envelope.clientId, (t.resolveStreamId envelope random).1)

variable {u : ClientTracker}

theorem lookup_of_closeClient_ok (h : t.closeClient key = (.ok (), u)) :
    u.clients.lookup key = none := by
  rcases closeClient_cases t key with ⟨hl, heq⟩ | ⟨client, legacy, -, heq | ⟨budget, heq⟩⟩
  · rw [heq] at h
    cases h
    exact hl
  · rw [heq] at h
    cases h
  · rw [heq] at h
    cases h
    exact lookup_erase key _

theorem handled_handleClientMessage (t : ClientTracker) (key : ClientKey) (isLegacyStreamId : Bool)
    (seqId : Option ℕ) (message : JSONRPCMessage) (now : ℕ) :
    Handled t key (messageStartsConnection message)
      (t.handleClientMessage key isLegacyStreamId seqId message now).2 := by
  simp only [handleClientMessage]
  by_cases hstale : t.isStale key seqId ∧ ¬ messageStartsConnection message
  · rw [if_pos hstale]
    exact .quiet
  rw [if_neg hstale]
  by_cases hclose : messageStartsConnection message ∧ (t.clients.lookup key).isSome
  · rw [if_pos hclose]
    rcases hc : t.closeClient key with ⟨_ | _, u⟩
    · have hu : u = (t.closeClient key).2 := by rw [hc]
      rw [hu]
      exact .closed
    · simp only [andThen, lookup_of_closeClient_ok hc]
      rw [if_pos hclose.1]
      exact .opened hclose.1 (.inr hc) _ _ _ _
  · rw [if_neg hclose]
    simp only [andThen]
    cases hl : t.clients.lookup key with
    | some client => exact .forwarded hl _ _ _
    | none =>
      by_cases hstarts : messageStartsConnection message = true
      · simp only [if_pos hstarts]
        exact .opened hstarts (.inl rfl) _ _ _ _
      · simp only [if_neg hstarts]
        exact .quiet

theorem handled_handleMessage (t : ClientTracker) (envelope : ClientEnvelope) (now : ℕ)
    (random : StreamId) :
    Handled { t with legacyStreamIds := (t.resolveStreamId envelope random).2 }
      (t.envelopeKey envelope random) (isInitialize envelope.event)
      (t.handleMessage envelope now random).2 := by
  simp only [handleMessage]
  split_ifs
  · exact .quiet
  · cases envelope.event with
    | clientMessage message => exact handled_handleClientMessage _ _ _ _ _ _
    | clientMessageChunk => exact .quiet
    | ack => exact .quiet
    | ping => exact .pinged now
    | clientClosed => exact .closed

theorem shrinks_handlePing (t : ClientTracker) (key : ClientKey) (now : ℕ) :
    Shrinks t.clients (t.handlePing key now).clients := by
  unfold handlePing
  split
  · rename_i client hl
    exact shrinks_insert hl rfl
  · exact .refl _

theorem handlePing_eq (t : ClientTracker) (key : ClientKey) (now : ℕ) :
    t.handlePing key now = { t with
      clients := (t.handlePing key now).clients
      pongs := (t.handlePing key now).pongs } := by
  unfold handlePing
  split <;> rfl

theorem Synced.handled {starts : Bool} (h : t.Synced) (hu : Handled t key starts u) : u.Synced := by
  cases hu with
  | quiet => exact h
  | pinged now =>
    rw [handlePing_eq]
    exact h.shrink (shrinks_handlePing t key now) _ _ _
  | closed => exact h.closeClient key
  | forwarded hl seqId message now => exact h.forwardMessage hl seqId message now
  | opened hstarts hu =>
    rcases hu with rfl | hu
    · exact h.openConnection ..
    · have hclosed := h.closeClient key
      rw [hu] at hclosed
      exact Synced.openConnection hclosed ..

theorem Synced.closeClients (h : t.Synced) (keys : List ClientKey) :
    (t.closeClients keys).2.Synced := by
  induction keys generalizing t with
  | nil => exact h
  | cons key keys ih =>
    have hone := h.closeClient key
    rw [closeClients]
    rcases hc : t.closeClient key with ⟨_ | _, u⟩
    · rw [hc] at hone
      exact hone
    · rw [hc] at hone
      exact ih hone

theorem Synced.turn {a : ReaderStep} (h : t.Synced) (hturn : Turn t a u) : u.Synced := by
  cases hturn with
  | message envelope now random =>
    exact (h.shrink (.refl _) _ _ _).handled (handled_handleMessage t envelope now random)
  | sweep now _ => exact h.closeClients _
  | completion _ => exact (h.shrink (.refl _) _ _ _).closeClient _
  | panic _ => exact h.shrink (.refl _) _ _ _
  | otherConnections n =>
    obtain ⟨phase, h⟩ := h
    exact ⟨phase, h.mono (Nat.le_add_right _ n)⟩

theorem synced_new (budget : Option ℕ) (next : ℕ) : (new budget next).Synced := by
  refine ⟨fun _ => .unseen, .nil _, fun _ _ => rfl, ?_, ?_⟩
  · rintro key client ⟨⟩
  · rintro key key' client client' ⟨⟩

/-- Nothing but clients and legacy streams changes, and connections only go away. -/
theorem closeClient_frame (t : ClientTracker) (key : ClientKey) :
    Shrinks t.clients (t.closeClient key).2.clients ∧
      (t.closeClient key).2.joinSet = t.joinSet := by
  rcases closeClient_cases t key with ⟨-, heq⟩ | ⟨client, legacy, -, heq | ⟨budget, heq⟩⟩
  · rw [heq]
    exact ⟨.refl _, rfl⟩
  · rw [heq]
    exact ⟨shrinks_erase _ key, rfl⟩
  · rw [heq]
    exact ⟨shrinks_erase _ key, rfl⟩

theorem closeClients_frame (t : ClientTracker) (keys : List ClientKey) :
    Shrinks t.clients (t.closeClients keys).2.clients ∧
      (t.closeClients keys).2.joinSet = t.joinSet := by
  induction keys generalizing t with
  | nil => exact ⟨.refl _, rfl⟩
  | cons key keys ih =>
    have hone := closeClient_frame t key
    rw [closeClients]
    rcases hc : t.closeClient key with ⟨_ | _, u⟩
    · rw [hc] at hone
      exact hone
    · rw [hc] at hone
      have hrest := ih u
      exact ⟨hone.1.trans hrest.1, hrest.2.trans hone.2⟩

theorem sendTransportEvent_frame (t : ClientTracker) (event : TransportEvent) :
    (t.sendTransportEvent event).2.clients = t.clients ∧
      (t.sendTransportEvent event).2.joinSet = t.joinSet := by
  rcases sendTransportEvent_cases t event with heq | ⟨budget, heq⟩
  · rw [heq]
    exact ⟨rfl, rfl⟩
  · rw [heq]
    exact ⟨rfl, rfl⟩

theorem forwardMessage_frame {client : ClientState} (hl : t.clients.lookup key = some client)
    (seqId : Option ℕ) (message : JSONRPCMessage) (now : ℕ) :
    Shrinks t.clients (t.forwardMessage key client seqId message now).2.clients ∧
      (t.forwardMessage key client seqId message now).2.joinSet = t.joinSet := by
  have hframe := sendTransportEvent_frame
    { t with clients := t.clients.insert key (touched client seqId now) }
    (.incomingMessage client.connectionId message)
  rw [forwardMessage_eq, hframe.1, hframe.2]
  exact ⟨shrinks_insert hl rfl, rfl⟩

/-- Unless the receiver is gone, there is a new task for the new connection under its key. -/
theorem openConnection_frame (t : ClientTracker) (key : ClientKey) (isLegacyStreamId : Bool)
    (seqId : Option ℕ) (message : JSONRPCMessage) (now : ℕ) :
    let u := (t.openConnection key isLegacyStreamId seqId message now).2
    (u.clients = t.clients ∧ u.joinSet = t.joinSet) ∨
      ∃ client, client.connectionId = t.nextConnectionId ∧ u.clients = t.clients.insert key client ∧
        u.joinSet = t.joinSet ++ [⟨key, t.nextConnectionId⟩] := by
  simp only [openConnection]
  rcases sendTransportEvent_cases { t with nextConnectionId := t.nextConnectionId + 1 }
    (.connectionOpened t.nextConnectionId) with heq | ⟨budget, heq⟩
  · rw [heq]
    exact .inl ⟨rfl, rfl⟩
  · rw [heq]
    exact .inr ⟨⟨t.nextConnectionId, now, if isLegacyStreamId then none else seqId⟩, rfl,
      (sendTransportEvent_frame _ _).1, (sendTransportEvent_frame _ _).2⟩

/-- Every uncollected task belongs to the connection that its key leads to, if there is one. -/
def Owned (t : ClientTracker) : Prop :=
  ∀ task ∈ t.joinSet, ∀ client, t.clients.lookup task.clientKey = some client →
    client.connectionId = task.connectionId

theorem Owned.shrink (h : t.Owned) (hclients : Shrinks t.clients u.clients)
    (htasks : ∀ task ∈ u.joinSet, task ∈ t.joinSet) : u.Owned := by
  intro task htask client' hl'
  obtain ⟨client, hl, heq⟩ := hclients task.clientKey client' hl'
  rw [← heq]
  exact h task (htasks task htask) client hl

theorem Owned.closeClient (h : t.Owned) (key : ClientKey) : (t.closeClient key).2.Owned :=
  have hframe := closeClient_frame t key
  h.shrink hframe.1 fun task htask => by rwa [hframe.2] at htask

theorem Owned.openConnection (h : t.Owned) (hfree : ∀ task ∈ t.joinSet, task.clientKey ≠ key)
    (isLegacyStreamId : Bool) (seqId : Option ℕ) (message : JSONRPCMessage) (now : ℕ) :
    (t.openConnection key isLegacyStreamId seqId message now).2.Owned := by
  rcases openConnection_frame t key isLegacyStreamId seqId message now with
    ⟨hclients, htasks⟩ | ⟨client, hid, hclients, htasks⟩
  · intro task htask client' hl'
    rw [hclients] at hl'
    rw [htasks] at htask
    exact h task htask client' hl'
  · intro task htask client' hl'
    rw [hclients] at hl'
    rw [htasks] at htask
    rcases mem_append.mp htask with htask | htask
    · rw [lookup_insert_ne (hfree task htask)] at hl'
      exact h task htask client' hl'
    · rw [mem_singleton.mp htask] at hl' ⊢
      rw [lookup_insert, Option.some.injEq] at hl'
      rw [← hl', hid]

theorem Owned.handled {starts : Bool} (h : t.Owned)
    (hfree : starts = true → ∀ task ∈ t.joinSet, task.clientKey ≠ key)
    (hu : Handled t key starts u) : u.Owned := by
  cases hu with
  | quiet => exact h
  | pinged now =>
    apply h.shrink (shrinks_handlePing t key now)
    intro task htask
    rwa [handlePing_eq] at htask
  | closed => exact h.closeClient key
  | forwarded hl seqId message now =>
    have hframe := forwardMessage_frame hl seqId message now
    apply h.shrink hframe.1
    intro task htask
    rwa [hframe.2] at htask
  | opened hstarts hu =>
    rcases hu with rfl | hu
    · exact h.openConnection (hfree hstarts) _ _ _ _
    · have hclosed := h.closeClient key
      have htasks := (closeClient_frame t key).2
      rw [hu] at hclosed htasks
      apply Owned.openConnection hclosed
      intro task htask
      exact hfree hstarts task (htasks ▸ htask)

end ClientTracker

/-- A client is initialised only if no uncollected task has its key. -/
def Calm (t : ClientTracker) : ReaderStep → Prop
  | .message envelope _ random => isInitialize envelope.event = true →
      ∀ task ∈ t.joinSet, task.clientKey ≠ t.envelopeKey envelope random
  | _ => True

def CalmTurn (t : ClientTracker) (a : ReaderStep) (u : ClientTracker) : Prop :=
  Turn t a u ∧ Calm t a

section
variable {t u : ClientTracker} {budget : Option ℕ} {next : ℕ} {steps : List ReaderStep}

theorem ClientTracker.Owned.turn {a : ReaderStep} (h : t.Owned) (hturn : Turn t a u)
    (hcalm : Calm t a) : u.Owned := by
  have herase : ∀ task, ({ t with joinSet := t.joinSet.erase task } : ClientTracker).Owned :=
    fun task => h.shrink (.refl _) fun _ hmem => mem_of_mem_erase hmem
  cases hturn with
  | message envelope now random =>
    have hlegacy : ({ t with legacyStreamIds := (t.resolveStreamId envelope random).2 } :
        ClientTracker).Owned := h
    exact hlegacy.handled hcalm (handled_handleMessage t envelope now random)
  | sweep now _ =>
    have hframe := closeClients_frame t
    exact h.shrink (hframe _).1 fun task htask => by rwa [(hframe _).2] at htask
  | completion _ => exact (herase _).closeClient _
  | panic _ => exact herase _
  | otherConnections n => exact h

theorem synced_of_run (h : Run Turn (.new budget next) steps t) : t.Synced :=
  Run.invariant (I := fun _ t => t.Synced) (fun _ _ _ _ hs hturn => hs.turn hturn) h
    (synced_new budget next)

theorem owned_of_run (h : Run CalmTurn (.new budget next) steps t) : t.Owned := by
  apply Run.invariant (I := fun _ t => t.Owned) (fun _ _ _ _ hs hturn => hs.turn hturn.1 hturn.2) h
  rintro task ⟨⟩

/-- Each connection is opened once and closed at most once. Where clients are initialised only after
the last task of their key was collected, a task closes no other connection. -/
theorem tracker_closes_own (h : Run Turn (.new budget next) steps t) :
    Orderly (t.sent.map signal) ∧
      (Run CalmTurn (.new budget next) steps t → ∀ task u, Turn t (.completion task) u →
        ∀ c, .connectionClosed c ∈ u.sent.drop t.sent.length → c = task.connectionId) := by
  constructor
  · obtain ⟨phase, hsynced⟩ := synced_of_run h
    exact orderly_of_run hsynced.run
  · intro hcalm task u hturn c hc
    have howned := owned_of_run hcalm
    cases hturn with
    | completion hmem =>
      rcases closeClient_cases { t with joinSet := t.joinSet.erase task }
        task.clientKey with ⟨-, heq⟩ | ⟨client, legacy, hl, heq | ⟨budget', heq⟩⟩
      · simp [heq] at hc
      · simp [heq] at hc
      · simp only [heq, drop_left, mem_singleton, TransportEvent.connectionClosed.injEq]
          at hc
        rw [hc]
        exact howned task hmem client hl

end

/-- A client that initialises itself. -/
def initializeEnvelope (clientId : String) : ClientEnvelope :=
  ⟨.clientMessage (.request (.integer 0) "initialize".toList none), clientId.toList,
    some "s".toList, none, none⟩

def handled (t : ClientTracker) (clientId : String) : ClientTracker :=
  (t.handleMessage (initializeEnvelope clientId) 0 []).2

def initializedOnce : ClientTracker := handled (.new none 0) "c"

def firstTask : OutboundTask := ⟨("c".toList, "s".toList), 0⟩

/-- Two clients have initialised themselves, and the task of the first was collected. -/
def collected : ClientTracker :=
  let t := handled initializedOnce "d"
  (({ t with joinSet := t.joinSet.erase firstTask } : ClientTracker).closeClient
    firstTask.clientKey).2

/-- The first client initialises itself once more. -/
theorem tracker_closes_own_reinitialized :
    Orderly ((handled collected "c").sent.map signal) ∧
      ∀ task u, Turn (handled collected "c") (.completion task) u →
        ∀ c, .connectionClosed c ∈ u.sent.drop (handled collected "c").sent.length →
          c = task.connectionId := by
  have hrun : Run CalmTurn (.new none 0)
      [.message (initializeEnvelope "c") 0 [], .message (initializeEnvelope "d") 0 [],
        .completion firstTask, .message (initializeEnvelope "c") 0 []] (handled collected "c") :=
    .cons ⟨.message .., fun _ => by decide +kernel⟩ <|
      .cons ⟨.message .., fun _ => by decide +kernel⟩ <|
        .cons ⟨.completion _ (by decide +kernel), trivial⟩ <|
          .single ⟨.message .., fun _ => by decide +kernel⟩
  have hown := tracker_closes_own (hrun.mono fun _ _ _ h => h.1)
  exact ⟨hown.1, hown.2 hrun⟩

namespace ClientTracker
variable {t : ClientTracker} {key : ClientKey}

variable (hbudget : t.budget = none)
include hbudget

/-- While the receiver is there, closing a client that has a connection is reported. -/
theorem closeClient_sent {client : ClientState} (hl : t.clients.lookup key = some client) :
    (t.closeClient key).2.sent = t.sent ++ [.connectionClosed client.connectionId] := by
  simp only [closeClient, hl, sendTransportEvent, hbudget]

theorem closeClient_ok (key : ClientKey) : ∃ u, t.closeClient key = (.ok (), u) ∧ u.budget = none ∧
      u.nextConnectionId = t.nextConnectionId := by
  cases hl : t.clients.lookup key with
  | none => exact ⟨t, by simp only [closeClient, hl], hbudget, rfl⟩
  | some client =>
    simp only [closeClient, hl, hbudget]
    exact ⟨_, rfl, rfl, rfl⟩

theorem openConnection_ok (key : ClientKey) (isLegacyStreamId : Bool)
    (seqId : Option ℕ) (message : JSONRPCMessage) (now : ℕ) :
    let u := (t.openConnection key isLegacyStreamId seqId message now).2
    u.budget = none ∧ u.joinSet = t.joinSet ++ [⟨key, t.nextConnectionId⟩] ∧
      ∃ client, client.connectionId = t.nextConnectionId ∧ u.clients.lookup key = some client := by
  simp only [openConnection, sendTransportEvent, hbudget, Outcome.andThen]
  exact ⟨trivial, trivial, _, rfl, AList.lookup_insert _⟩

/-- An initialising message opens a connection, once the old one is out of the way. -/
theorem handleClientMessage_of_starts {message : JSONRPCMessage}
    (hstarts : messageStartsConnection message = true) (key : ClientKey) (isLegacyStreamId : Bool)
    (seqId : Option ℕ) (now : ℕ) :
    ∃ u : ClientTracker, u.budget = none ∧ u.nextConnectionId = t.nextConnectionId ∧
      u.joinSet = t.joinSet ∧
      t.handleClientMessage key isLegacyStreamId seqId message now =
        u.openConnection key isLegacyStreamId seqId message now := by
  have hfresh : ¬ (t.isStale key seqId ∧ ¬ messageStartsConnection message) := fun h => h.2 hstarts
  cases hl : t.clients.lookup key with
  | none =>
    refine ⟨t, hbudget, rfl, rfl, ?_⟩
    have hclose : ¬ (messageStartsConnection message ∧ (t.clients.lookup key).isSome) := by
      simp [hl]
    simp only [handleClientMessage, if_neg hfresh, if_neg hclose]
    simp only [Outcome.andThen, hl, if_pos hstarts]
  | some client =>
    obtain ⟨u, hu, hbudget', hnext⟩ := closeClient_ok hbudget key
    have hclose : messageStartsConnection message ∧ (t.clients.lookup key).isSome := by
      simp [hl, hstarts]
    have htasks := (closeClient_frame t key).2
    rw [hu] at htasks
    refine ⟨u, hbudget', hnext, htasks, ?_⟩
    simp only [handleClientMessage, if_neg hfresh, if_pos hclose, hu, Outcome.andThen,
      lookup_of_closeClient_ok hu, if_pos hstarts]

theorem handleMessage_of_initialize {envelope : ClientEnvelope}
    {random : StreamId} (hstarts : isInitialize envelope.event = true)
    (hstream : (t.resolveStreamId envelope random).1 ≠ []) (now : ℕ) :
    let u := (t.handleMessage envelope now random).2
    u.budget = none ∧
      u.joinSet = t.joinSet ++ [⟨t.envelopeKey envelope random, t.nextConnectionId⟩] ∧
      ∃ client, client.connectionId = t.nextConnectionId ∧
        u.clients.lookup (t.envelopeKey envelope random) = some client := by
  obtain ⟨event, clientId, streamId, seqId, cursor⟩ := envelope
  cases event <;> try cases hstarts
  rename_i message
  have hhandle : t.handleMessage ⟨.clientMessage message, clientId, streamId, seqId, cursor⟩ now
      random = ({ t with legacyStreamIds := (t.resolveStreamId
        ⟨.clientMessage message, clientId, streamId, seqId, cursor⟩ random).2 } :
          ClientTracker).handleClientMessage (t.envelopeKey
            ⟨.clientMessage message, clientId, streamId, seqId, cursor⟩ random)
          streamId.isNone seqId message now := by
    simp only [handleMessage, if_neg hstream, envelopeKey]
  obtain ⟨u, hbudget', hnext, htasks, hu⟩ := handleClientMessage_of_starts (t := { t with
    legacyStreamIds := (t.resolveStreamId
      ⟨.clientMessage message, clientId, streamId, seqId, cursor⟩ random).2 }) hbudget hstarts
    (t.envelopeKey ⟨.clientMessage message, clientId, streamId, seqId, cursor⟩ random)
    streamId.isNone seqId now
  have hopened := openConnection_ok hbudget'
    (t.envelopeKey ⟨.clientMessage message, clientId, streamId, seqId, cursor⟩ random)
    streamId.isNone seqId message now
  rw [hhandle, hu]
  rwa [hnext, htasks] at hopened

end ClientTracker

/-- A client that is initialised too early can lose its connection to the old task. -/
theorem completion_closes_new {t : ClientTracker} {task : OutboundTask} {envelope : ClientEnvelope}
    {random : StreamId} (hbudget : t.budget = none) (htask : task ∈ t.joinSet)
    (hkey : task.clientKey = t.envelopeKey envelope random)
    (hstarts : isInitialize envelope.event = true)
    (hstream : (t.resolveStreamId envelope random).1 ≠ []) (now : ℕ) :
    ∃ u, Turn (t.handleMessage envelope now random).2 (.completion task) u ∧
      .connectionClosed t.nextConnectionId ∈
        u.sent.drop (t.handleMessage envelope now random).2.sent.length := by
  obtain ⟨hbudget', htasks, client, hid, hl⟩ :=
    ClientTracker.handleMessage_of_initialize hbudget hstarts hstream now
  have hmem : task ∈ (t.handleMessage envelope now random).2.joinSet := by
    rw [htasks]
    exact List.mem_append_left _ htask
  have hsent := ClientTracker.closeClient_sent (t := { (t.handleMessage envelope now random).2 with
    joinSet := (t.handleMessage envelope now random).2.joinSet.erase task }) hbudget' hl
  refine ⟨_, .completion _ hmem, ?_⟩
  rw [hkey, hsent, List.drop_left, hid]
  exact List.mem_singleton_self _

theorem closes_other_of_reinitialize :
    ∃ steps t task u c, Run Turn (.new none 0) steps t ∧ Turn t (.completion task) u ∧
      .connectionClosed c ∈ u.sent.drop t.sent.length ∧ c ≠ task.connectionId := by
  have hfirst : Turn (.new none 0) (.message (initializeEnvelope "c") 0 []) initializedOnce :=
    .message ..
  have htask : firstTask ∈ initializedOnce.joinSet := by decide +kernel
  have hkey : firstTask.clientKey = initializedOnce.envelopeKey (initializeEnvelope "c") [] := rfl
  obtain ⟨u, hturn, hclosed⟩ := completion_closes_new rfl htask hkey rfl (by decide) 0
  exact ⟨_, _, _, u, initializedOnce.nextConnectionId, .cons hfirst (.single (.message ..)), hturn,
    hclosed, by decide +kernel⟩

end CodexRs.AppServerTransport
