import CodexRs.AppServerTransport.ClientTracker
import CodexRs.Library.Lifecycle
import CodexRs.Library.Table

/-!
# What the tracker tells the transport

Each connection is opened once, gets messages while it is open and is closed at most once.
-/
namespace CodexRs.AppServerTransport
open Machine Lifecycle AList Function

def signal : TransportEvent → Signal ℕ
  | .connectionOpened c => .opened c
  | .incomingMessage c _ => .used c
  | .connectionClosed c => .closed c

abbrev Clients := AList fun _ : ClientKey => ClientState

/-- The events sent lead to a phase for each connection id in which the clients' connections are
live and those to come are unseen. -/
structure SyncedAt (clients : Clients) (sent : List TransportEvent) (next : ℕ) (phase : ℕ → Phase) :
    Prop where
  run : Run Step (fun _ => .unseen) (sent.map signal) phase
  fresh : ∀ c, next ≤ c → phase c = .unseen
  live : ∀ key client, clients.lookup key = some client → phase client.connectionId = .live
  injective : ∀ key key' client client', clients.lookup key = some client →
    clients.lookup key' = some client' → client.connectionId = client'.connectionId → key = key'

def ClientTracker.Synced (t : ClientTracker) : Prop :=
  ∃ phase, SyncedAt t.clients t.sent t.nextConnectionId phase

variable {clients : Clients}

theorem lookup_of_lookup_insert {key key' : ClientKey}
    {client client' : ClientState} (h : (clients.insert key client).lookup key' = some client') :
    (key' = key ∧ client' = client) ∨ (key' ≠ key ∧ clients.lookup key' = some client') := by
  by_cases hkey : key' = key
  · rw [hkey, lookup_insert, Option.some.injEq] at h
    exact .inl ⟨hkey, h.symm⟩
  · rw [lookup_insert_ne hkey] at h
    exact .inr ⟨hkey, h⟩

/-- Every client is one of the old ones, as far as its connection goes. -/
def Shrinks (clients clients' : Clients) : Prop :=
  ∀ key client', clients'.lookup key = some client' →
    ∃ client, clients.lookup key = some client ∧ client.connectionId = client'.connectionId

theorem Shrinks.refl (clients : Clients) : Shrinks clients clients :=
  fun _ client h => ⟨client, h, rfl⟩

theorem Shrinks.trans {clients clients' clients'' : Clients} (h : Shrinks clients clients')
    (h' : Shrinks clients' clients'') : Shrinks clients clients'' := by
  intro key client'' hl''
  obtain ⟨client', hl', heq'⟩ := h' key client'' hl''
  obtain ⟨client, hl, heq⟩ := h key client' hl'
  exact ⟨client, hl, heq.trans heq'⟩

theorem shrinks_erase (clients : Clients) (key : ClientKey) : Shrinks clients (clients.erase key) :=
  fun _ client' h => ⟨client', (Table.lookup_of_lookup_erase h).2, rfl⟩

theorem shrinks_insert {key : ClientKey} {client : ClientState}
    (hl : clients.lookup key = some client) {client' : ClientState}
    (hid : client'.connectionId = client.connectionId) :
    Shrinks clients (clients.insert key client') := by
  intro key₁ client₁ h₁
  rcases lookup_of_lookup_insert h₁ with ⟨rfl, rfl⟩ | ⟨-, hold⟩
  · exact ⟨client, hl, hid.symm⟩
  · exact ⟨client₁, hold, rfl⟩

namespace SyncedAt
variable {clients : Clients} {sent : List TransportEvent} {next : ℕ} {phase : ℕ → Phase}
  {key : ClientKey} {client : ClientState}

variable (h : SyncedAt clients sent next phase)
include h

theorem concat {event : TransportEvent} {phase' : ℕ → Phase}
    (hstep : Step phase (signal event) phase') :
    Run Step (fun _ => .unseen) ((sent ++ [event]).map signal) phase' := by
  rw [List.map_append]
  exact h.run.append (.single hstep)

theorem mono {next' : ℕ} (hle : next ≤ next') : SyncedAt clients sent next' phase :=
  ⟨h.run, fun c hc => h.fresh c (hle.trans hc), h.live, h.injective⟩

theorem shrink {clients' : Clients}
    (hshrinks : Shrinks clients clients') : SyncedAt clients' sent next phase := by
  refine ⟨h.run, h.fresh, ?_, ?_⟩
  · intro key client' hl'
    obtain ⟨client, hl, heq⟩ := hshrinks key client' hl'
    rw [← heq]
    exact h.live key client hl
  · intro key₁ key₂ client₁ client₂ h₁ h₂ heq
    obtain ⟨client₃, h₃, heq₃⟩ := hshrinks key₁ client₁ h₁
    obtain ⟨client₄, h₄, heq₄⟩ := hshrinks key₂ client₂ h₂
    exact h.injective _ _ _ _ h₃ h₄ (heq₃.trans (heq.trans heq₄.symm))

theorem closed (hl : clients.lookup key = some client) :
    SyncedAt (clients.erase key) (sent ++ [.connectionClosed client.connectionId]) next
      (update phase client.connectionId .gone) := by
  have hlive := h.live key client hl
  refine ⟨h.concat (.closed hlive), ?_, ?_, (h.shrink (shrinks_erase clients key)).injective⟩
  · intro c hc
    have hne : c ≠ client.connectionId := by
      rintro rfl
      rw [h.fresh _ hc] at hlive
      cases hlive
    rw [update_of_ne hne]
    exact h.fresh c hc
  · intro key' client' hl'
    obtain ⟨hkey, hl'⟩ := Table.lookup_of_lookup_erase hl'
    have hne : client'.connectionId ≠ client.connectionId :=
      fun heq => hkey (h.injective _ _ _ _ hl' hl heq)
    rw [update_of_ne hne]
    exact h.live key' client' hl'

theorem used (hl : clients.lookup key = some client) (message : JSONRPCMessage) :
    SyncedAt clients (sent ++ [.incomingMessage client.connectionId message]) next phase :=
  ⟨h.concat (.used (h.live key client hl)), h.fresh, h.live, h.injective⟩

theorem opened (key : ClientKey) (client : ClientState) (hid : client.connectionId = next) :
    SyncedAt (clients.insert key client) (sent ++ [.connectionOpened next]) (next + 1)
      (update phase next .live) := by
  have hother : ∀ key₁ client₁, clients.lookup key₁ = some client₁ →
      client₁.connectionId ≠ next := by
    intro key₁ client₁ h₁ heq
    have hlive := h.live key₁ client₁ h₁
    rw [h.fresh _ heq.ge] at hlive
    cases hlive
  refine ⟨h.concat (.opened (h.fresh next le_rfl)), ?_, ?_, ?_⟩
  · intro c hc
    rw [update_of_ne (by omega)]
    exact h.fresh c (by omega)
  · intro key₁ client₁ h₁
    rcases lookup_of_lookup_insert h₁ with ⟨-, rfl⟩ | ⟨-, h₁⟩
    · rw [hid, update_self]
    · rw [update_of_ne (hother key₁ client₁ h₁)]
      exact h.live key₁ client₁ h₁
  · intro key₁ key₂ client₁ client₂ h₁ h₂ heq
    rcases lookup_of_lookup_insert h₁ with ⟨hkey₁, hclient₁⟩ | ⟨-, hold₁⟩ <;>
      rcases lookup_of_lookup_insert h₂ with ⟨hkey₂, hclient₂⟩ | ⟨-, hold₂⟩
    · rw [hkey₁, hkey₂]
    · rw [hclient₁, hid] at heq
      exact absurd heq.symm (hother _ _ hold₂)
    · rw [hclient₂, hid] at heq
      exact absurd heq (hother _ _ hold₁)
    · exact h.injective _ _ _ _ hold₁ hold₂ heq

end SyncedAt

namespace ClientTracker
variable {t : ClientTracker} {key : ClientKey}

theorem sendTransportEvent_cases (t : ClientTracker) (event : TransportEvent) :
    t.sendTransportEvent event = (.error .stopped, t) ∨ ∃ budget, t.sendTransportEvent event =
        (.ok (), { t with sent := t.sent ++ [event], budget := budget }) := by
  unfold sendTransportEvent
  split
  · exact .inr ⟨none, by simp_all⟩
  · exact .inl rfl
  · exact .inr ⟨_, rfl⟩

/-- Nothing happens, or the client is removed and, unless the receiver is gone, its closing is
sent. -/
theorem closeClient_cases (t : ClientTracker) (key : ClientKey) :
    (t.clients.lookup key = none ∧ t.closeClient key = (.ok (), t)) ∨
      ∃ client legacy, t.clients.lookup key = some client ∧ (t.closeClient key = (.error .stopped,
            { t with clients := t.clients.erase key, legacyStreamIds := legacy }) ∨
          ∃ budget, t.closeClient key = (.ok (),
            { t with
              clients := t.clients.erase key
              legacyStreamIds := legacy
              sent := t.sent ++ [.connectionClosed client.connectionId]
              budget := budget })) := by
  cases hl : t.clients.lookup key with
  | none => exact .inl ⟨rfl, by simp [closeClient, hl]⟩
  | some client =>
    refine .inr ⟨client, if t.legacyStreamIds.lookup key.1 = some key.2 then
      t.legacyStreamIds.erase key.1 else t.legacyStreamIds, rfl, ?_⟩
    simp only [closeClient, hl]
    exact sendTransportEvent_cases _ _

theorem Synced.closeClient (h : t.Synced) (key : ClientKey) : (t.closeClient key).2.Synced := by
  obtain ⟨phase, h⟩ := h
  rcases closeClient_cases t key with ⟨-, heq⟩ | ⟨client, legacy, hl, heq | ⟨budget, heq⟩⟩
  · rw [heq]
    exact ⟨phase, h⟩
  · rw [heq]
    exact ⟨phase, h.shrink (shrinks_erase _ key)⟩
  · rw [heq]
    exact ⟨_, h.closed hl⟩

theorem Synced.shrink (h : t.Synced) (hshrinks : Shrinks t.clients clients)
    (legacy : AList fun _ : ClientId => StreamId) (joinSet : List OutboundTask)
    (pongs : List (ClientKey × PongStatus)) :
    Synced { t with
      clients := clients, legacyStreamIds := legacy, joinSet := joinSet, pongs := pongs } := by
  obtain ⟨phase, h⟩ := h
  exact ⟨phase, h.shrink hshrinks⟩

/-- The client as it is kept after a message. -/
def touched (client : ClientState) (seqId : Option ℕ) (now : ℕ) : ClientState :=
  ⟨client.connectionId, now, seqId.or client.lastInboundSeqId⟩

theorem forwardMessage_eq (t : ClientTracker) (key : ClientKey) (client : ClientState)
    (seqId : Option ℕ) (message : JSONRPCMessage) (now : ℕ) :
    t.forwardMessage key client seqId message now =
      sendTransportEvent { t with clients := t.clients.insert key (touched client seqId now) }
        (.incomingMessage client.connectionId message) := rfl

theorem Synced.forwardMessage (h : t.Synced) {client : ClientState}
    (hl : t.clients.lookup key = some client) (seqId : Option ℕ) (message : JSONRPCMessage)
    (now : ℕ) : (t.forwardMessage key client seqId message now).2.Synced := by
  obtain ⟨phase, h⟩ := h
  have hnew : SyncedAt (t.clients.insert key (touched client seqId now)) t.sent
      t.nextConnectionId phase := h.shrink (shrinks_insert hl rfl)
  rw [forwardMessage_eq]
  rcases sendTransportEvent_cases
    { t with clients := t.clients.insert key (touched client seqId now) }
    (.incomingMessage client.connectionId message) with heq | ⟨budget, heq⟩
  · rw [heq]
    exact ⟨phase, hnew⟩
  · rw [heq]
    exact ⟨phase, hnew.used (lookup_insert _) message⟩

theorem Synced.openConnection (h : t.Synced) (key : ClientKey) (isLegacyStreamId : Bool)
    (seqId : Option ℕ) (message : JSONRPCMessage) (now : ℕ) :
    (t.openConnection key isLegacyStreamId seqId message now).2.Synced := by
  obtain ⟨phase, h⟩ := h
  simp only [ClientTracker.openConnection]
  rcases sendTransportEvent_cases { t with nextConnectionId := t.nextConnectionId + 1 }
    (.connectionOpened t.nextConnectionId) with heq | ⟨budget, heq⟩
  · rw [heq]
    exact ⟨phase, h.mono (Nat.le_succ _)⟩
  · rw [heq]
    simp only [Outcome.andThen]
    have hopened := h.opened key
      ⟨t.nextConnectionId, now, if isLegacyStreamId then none else seqId⟩ rfl
    rcases sendTransportEvent_cases _ _ with heq | ⟨budget', heq⟩
    · rw [heq]
      exact ⟨_, hopened⟩
    · rw [heq]
      exact ⟨_, hopened.used (lookup_insert _) message⟩

end ClientTracker

end CodexRs.AppServerTransport
