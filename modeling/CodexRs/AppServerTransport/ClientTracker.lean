import CodexRs.AppServerTransport.Protocol
import CodexRs.Library.Run
import Mathlib.Data.List.AList

/-!
# The tracker of remote-control clients

The events sent to the transport are kept; `budget` is the number of events that are still taken
before the receiver is dropped, if it ever is.
-/
namespace CodexRs.AppServerTransport

structure ClientState where
  connectionId : ℕ
  lastActivityAt : ℕ
  lastInboundSeqId : Option ℕ

/-- An outbound task returns the key of its client; the connection it was spawned for is
noted besides. -/
structure OutboundTask where
  clientKey : ClientKey
  connectionId : ℕ
deriving DecidableEq

inductive TransportEvent where
  | connectionOpened (connectionId : ℕ)
  | incomingMessage (connectionId : ℕ) (message : JSONRPCMessage)
  | connectionClosed (connectionId : ℕ)

inductive Stopped where
  | stopped

structure ClientTracker where
  clients : AList fun _ : ClientKey => ClientState
  legacyStreamIds : AList fun _ : ClientId => StreamId
  joinSet : List OutboundTask
  pongs : List (ClientKey × PongStatus)
  sent : List TransportEvent
  budget : Option ℕ
  nextConnectionId : ℕ

abbrev Outcome := Except Stopped Unit × ClientTracker

def Outcome.andThen (r : Outcome) (f : ClientTracker → Outcome) : Outcome :=
  match r with
  | (.ok (), t) => f t
  | (.error e, t) => (.error e, t)

def idleTimeoutMs : ℕ := 10 * 60 * 1000

def messageStartsConnection : JSONRPCMessage → Bool
  | .request _ method _ => method = "initialize".toList
  | _ => false

def isInitialize : ClientEvent → Bool
  | .clientMessage message => messageStartsConnection message
  | _ => false

def isPing : ClientEvent → Bool
  | .ping => true
  | _ => false

namespace ClientTracker

/-- A tracker without clients; `next` connection ids are taken by other transports. -/
def new (budget : Option ℕ) (next : ℕ) : ClientTracker where
  clients := ∅
  legacyStreamIds := ∅
  joinSet := []
  pongs := []
  sent := []
  budget := budget
  nextConnectionId := next

variable (t : ClientTracker)

def sendTransportEvent (event : TransportEvent) : Outcome :=
  match t.budget with
  | none => (.ok (), { t with sent := t.sent ++ [event] })
  | some 0 => (.error .stopped, t)
  | some (n + 1) => (.ok (), { t with sent := t.sent ++ [event], budget := some n })

variable (key : ClientKey)

def closeClient : Outcome :=
  match t.clients.lookup key with
  | none => (.ok (), t)
  | some client =>
    let legacyStreamIds :=
      if t.legacyStreamIds.lookup key.1 = some key.2 then t.legacyStreamIds.erase key.1
      else t.legacyStreamIds
    sendTransportEvent
      { t with clients := t.clients.erase key, legacyStreamIds := legacyStreamIds }
      (.connectionClosed client.connectionId)

variable (envelope : ClientEnvelope)

/-- The stream of an envelope and the legacy streams known afterwards; `random` is the id
that is made up for a client that sends none. -/
def resolveStreamId (random : StreamId) : StreamId × AList fun _ : ClientId => StreamId :=
  match envelope.streamId with
  | some streamId => (streamId, t.legacyStreamIds)
  | none =>
    let known := t.legacyStreamIds.lookup envelope.clientId
    if isInitialize envelope.event then
      (known.getD random, t.legacyStreamIds.erase envelope.clientId)
    else (known.getD (if isPing envelope.event then random else []), t.legacyStreamIds)

/-- A message for a client that has a connection. -/
def forwardMessage (client : ClientState)
    (seqId : Option ℕ) (message : JSONRPCMessage) (now : ℕ) : Outcome :=
  let client := { client with
    lastActivityAt := now
    lastInboundSeqId := seqId.or client.lastInboundSeqId }
  sendTransportEvent { t with clients := t.clients.insert key client }
    (.incomingMessage client.connectionId message)

variable (isLegacyStreamId : Bool) (seqId : Option ℕ) (message : JSONRPCMessage) (now : ℕ)

/-- A connection opened with its first message. -/
def openConnection : Outcome :=
  let connectionId := t.nextConnectionId
  (sendTransportEvent { t with nextConnectionId := connectionId + 1 }
    (.connectionOpened connectionId)).andThen fun t =>
  let client := ⟨connectionId, now, if isLegacyStreamId then none else seqId⟩
  sendTransportEvent
    { t with
      joinSet := t.joinSet ++ [⟨key, connectionId⟩]
      clients := t.clients.insert key client
      legacyStreamIds :=
        if isLegacyStreamId then t.legacyStreamIds.insert key.1 key.2 else t.legacyStreamIds }
    (.incomingMessage connectionId message)

/-- The message has been seen before. -/
def isStale : Bool :=
  match seqId, t.clients.lookup key with
  | some seqId, some client => client.lastInboundSeqId.any (seqId ≤ ·)
  | _, _ => false

def handleClientMessage : Outcome :=
  let starts := messageStartsConnection message
  if t.isStale key seqId ∧ ¬ starts then (.ok (), t)
  else
    let closed : Outcome :=
      if starts ∧ (t.clients.lookup key).isSome then t.closeClient key else (.ok (), t)
    closed.andThen fun t =>
    match t.clients.lookup key with
    | some client => t.forwardMessage key client seqId message now
    | none =>
      if starts then t.openConnection key isLegacyStreamId seqId message now else (.ok (), t)

def handlePing : ClientTracker :=
  match t.clients.lookup key with
  | some client =>
    { t with
      clients := t.clients.insert key { client with lastActivityAt := now }
      pongs := t.pongs ++ [(key, .active)] }
  | none => { t with pongs := t.pongs ++ [(key, .unknown)] }

def handleMessage (random : StreamId) : Outcome :=
  let (streamId, legacyStreamIds) := t.resolveStreamId envelope random
  let t := { t with legacyStreamIds := legacyStreamIds }
  if streamId = [] then (.ok (), t)
  else
    let key := (envelope.clientId, streamId)
    match envelope.event with
    | .clientMessage message =>
      t.handleClientMessage key envelope.streamId.isNone envelope.seqId message now
    | .clientMessageChunk .. => (.ok (), t)
    | .ack _ => (.ok (), t)
    | .ping => (.ok (), t.handlePing key now)
    | .clientClosed => t.closeClient key

def clientIsAlive (client : ClientState) (now : ℕ) : Bool :=
  now - client.lastActivityAt < idleTimeoutMs

def expiredClientIds : List ClientKey :=
  t.clients.keys.filter fun key =>
    (t.clients.lookup key).any fun client => !clientIsAlive client now

/-- The clients are closed one after the other, as the map happens to list them. -/
def closeClients (t : ClientTracker) : List ClientKey → Outcome
  | [] => (.ok (), t)
  | key :: keys => (t.closeClient key).andThen fun t => t.closeClients keys

end ClientTracker

/-- What the reader of the websocket drives the tracker with. -/
inductive ReaderStep where
  | message (envelope : ClientEnvelope) (now : ℕ) (random : StreamId)
  | sweep (now : ℕ) (order : List ClientKey)
  | completion (task : OutboundTask)
  | panic (task : OutboundTask)
  | otherConnections (n : ℕ)

/-- A sweep closes the expired clients in some order. A task may finish at any time; one that panics
returns no key. -/
inductive Turn : ClientTracker → ReaderStep → ClientTracker → Prop
  | message (t : ClientTracker) (envelope : ClientEnvelope) (now : ℕ) (random : StreamId) :
      Turn t (.message envelope now random) (t.handleMessage envelope now random).2
  | sweep (t : ClientTracker) (now : ℕ) {order : List ClientKey} :
      order.Perm (t.expiredClientIds now) → Turn t (.sweep now order) (t.closeClients order).2
  | completion (t : ClientTracker) {task : OutboundTask} : task ∈ t.joinSet →
      Turn t (.completion task)
        (({ t with joinSet := t.joinSet.erase task } : ClientTracker).closeClient task.clientKey).2
  | panic (t : ClientTracker) {task : OutboundTask} : task ∈ t.joinSet →
      Turn t (.panic task) { t with joinSet := t.joinSet.erase task }
  | otherConnections (t : ClientTracker) (n : ℕ) :
      Turn t (.otherConnections n) { t with nextConnectionId := t.nextConnectionId + n }

end CodexRs.AppServerTransport
