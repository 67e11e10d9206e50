import CodexRs.Library.Run
import CodexRs.AppServerTransport.Protocol
import CodexRs.Library.Base64

/-!
# Reassembling segmented client messages

There is one assembly for each client, for one message. Chunks that have been seen, are too large
or belong to complete messages are dropped. The base64 engine and the parser of messages are
parameters.
-/
namespace CodexRs.AppServerTransport
open Text Base64

def segmentMaxBytes : ℕ := 150 * 1024
def reassembledMaxBytes : ℕ := 100 * 1024 * 1024
def segmentCountMax : ℕ := 1024
def segmentAssemblyMaxCount : ℕ := 128

structure ClientSegmentMetadata where
  seqId : ℕ
  segmentCount : ℕ
  messageSizeBytes : ℕ
deriving DecidableEq

structure ClientSegmentAssembly where
  streamId : StreamId
  metadata : ClientSegmentMetadata
  raw : List UInt8
  nextSegmentId : ℕ
  lastChunkSeenAt : ℕ
deriving DecidableEq

abbrev Assemblies := AList fun _ : ClientId => ClientSegmentAssembly

inductive ClientSegmentObservation where
  | forward (envelope : ClientEnvelope)
  | pending
  | dropped

inductive AssemblyUpdate where
  | pending
  | ignore
  | drop
  | complete (message : JSONRPCMessage)

/-- What observing a chunk needs from other crates. -/
structure Codec where
  engine : Engine
  fromSlice : List UInt8 → Option JSONRPCMessage

namespace Assemblies
variable (r : Assemblies) (clientId : ClientId) (streamId : StreamId)

def shouldIgnoreChunk (seqId segmentId : ℕ) : Bool :=
  (r.lookup clientId).any fun assembly =>
    assembly.streamId = streamId ∧
      (seqId < assembly.metadata.seqId ∨
        seqId = assembly.metadata.seqId ∧ segmentId < assembly.nextSegmentId)

def removeAssembly : Assemblies :=
  if (r.lookup clientId).any fun assembly => assembly.streamId = streamId then r.erase clientId
  else r

def invalidateStream : Assemblies :=
  r.removeAssembly clientId streamId

def invalidateClient : Assemblies := r.erase clientId

/-- A client whose last chunk is the oldest; the map's order decides between equals. -/
def oldestClient : Option ClientId :=
  r.keys.minOn? fun clientId =>
    ((r.lookup clientId).map ClientSegmentAssembly.lastChunkSeenAt).getD 0

/-- Removes the oldest assemblies; `fuel` is the number of assemblies. -/
def evictAssemblies : ℕ → Assemblies → Assemblies
  | 0, r => r
  | fuel + 1, r =>
    if segmentAssemblyMaxCount ≤ r.keys.length then
      match oldestClient r with
      | none => r
      | some clientId => evictAssemblies fuel (r.erase clientId)
    else r

def evictAssembliesIfFull : Assemblies := evictAssemblies r.keys.length r

end Assemblies

def freshAssembly (streamId : StreamId) (metadata : ClientSegmentMetadata) (now : ℕ) :
    ClientSegmentAssembly where
  streamId := streamId
  metadata := metadata
  raw := []
  nextSegmentId := 0
  lastChunkSeenAt := now

/-- The assemblies with one for the stream of the chunk, if the client has none. -/
def Assemblies.prepare (r : Assemblies) (clientId : ClientId) (streamId : StreamId)
    (metadata : ClientSegmentMetadata) (now : ℕ) : Assemblies :=
  match r.lookup clientId with
  | some assembly =>
    if assembly.streamId ≠ streamId then r.insert clientId (freshAssembly streamId metadata now)
    else r
  | none => r.evictAssembliesIfFull.insert clientId (freshAssembly streamId metadata now)

/-- The values that a chunk must not have. -/
def invalidChunk (segmentId segmentCount messageSizeBytes : ℕ) (chunk : Str) : Bool :=
  segmentCount = 0 ∨ segmentCountMax < segmentCount ∨ segmentCount ≤ segmentId ∨
    messageSizeBytes = 0 ∨ reassembledMaxBytes < messageSizeBytes ∨ chunk = []

section
variable (codec : Codec) (assembly : ClientSegmentAssembly)

/-- The next chunk of an assembly added to it. -/
def appendChunk (chunk : Str) (now : ℕ) : AssemblyUpdate × ClientSegmentAssembly :=
  let assembly := { assembly with lastChunkSeenAt := now }
  let chunkStart := assembly.raw.length
  let chunkEnd := min assembly.metadata.messageSizeBytes
    (chunkStart + codec.engine.decodedLenEstimate (utf8Length chunk))
  match codec.engine.decodeSlice chunk (chunkEnd - chunkStart) with
  | .error _ => (.drop, assembly)
  | .ok bytes =>
    let assembly := { assembly with
      raw := assembly.raw ++ bytes
      nextSegmentId := assembly.nextSegmentId + 1 }
    if assembly.nextSegmentId < assembly.metadata.segmentCount then (.pending, assembly)
    else if assembly.raw.length ≠ assembly.metadata.messageSizeBytes then (.drop, assembly)
    else
      match codec.fromSlice assembly.raw with
      | some message => (.complete message, assembly)
      | none => (.drop, assembly)

def updateAssembly (metadata : ClientSegmentMetadata)
    (segmentId : ℕ) (chunk : Str) (now : ℕ) : AssemblyUpdate × ClientSegmentAssembly :=
  if metadata.seqId < assembly.metadata.seqId then (.ignore, assembly)
  else if assembly.metadata ≠ metadata then (.drop, assembly)
  else if segmentId < assembly.nextSegmentId then (.pending, assembly)
  else if segmentId ≠ assembly.nextSegmentId then (.drop, assembly)
  else appendChunk codec assembly chunk now

variable (r : Assemblies) (envelope : ClientEnvelope) (streamId : StreamId)

/-- What becomes of a chunk when its assembly has been updated. -/
def finishUpdate
    (p : AssemblyUpdate × ClientSegmentAssembly) : ClientSegmentObservation × Assemblies :=
  let r : Assemblies := r.insert envelope.clientId p.2
  match p.1 with
  | .pending => (.pending, r)
  | .ignore => (.dropped, r)
  | .drop => (.dropped, r.removeAssembly envelope.clientId streamId)
  | .complete message =>
    (.forward { envelope with event := .clientMessage message },
      r.removeAssembly envelope.clientId streamId)

def Assemblies.observeChunk
    (metadata : ClientSegmentMetadata) (segmentId : ℕ) (chunk : Str) (now : ℕ) :
    ClientSegmentObservation × Assemblies :=
  let r := r.prepare envelope.clientId streamId metadata now
  match r.lookup envelope.clientId with
  | none => (.dropped, r)
  | some assembly =>
    finishUpdate r envelope streamId (updateAssembly codec assembly metadata segmentId chunk now)

def Assemblies.observe (now : ℕ) : ClientSegmentObservation × Assemblies :=
  match envelope.event with
  | .clientMessageChunk segmentId segmentCount messageSizeBytes chunk =>
    match envelope.seqId, envelope.streamId with
    | some seqId, some streamId =>
      if r.shouldIgnoreChunk envelope.clientId streamId seqId segmentId then (.dropped, r)
      else if invalidChunk segmentId segmentCount messageSizeBytes chunk then
        (.dropped, r.removeAssembly envelope.clientId streamId)
      else
        r.observeChunk codec envelope streamId ⟨seqId, segmentCount, messageSizeBytes⟩ segmentId
          chunk now
    | _, _ => (.dropped, r)
  | _ => (.forward envelope, r)

end

structure WebsocketState where
  lastCompleted : AList fun _ : ClientId × Option StreamId => ℕ := ∅
  assemblies : Assemblies := ∅

namespace WebsocketState

def clientMessageKey (envelope : ClientEnvelope) : Option ((ClientId × Option StreamId) × ℕ) :=
  match envelope.event, envelope.seqId with
  | .clientMessageChunk .., some seqId => some ((envelope.clientId, envelope.streamId), seqId)
  | _, _ => none

variable (s : WebsocketState)

/-- The chunk belongs to a message that has been completed, or to an older one. -/
def isCompleted (envelope : ClientEnvelope) : Bool :=
  (clientMessageKey envelope).any fun p => (s.lastCompleted.lookup p.1).any (p.2 ≤ ·)

def shouldIgnore (envelope : ClientEnvelope) : Bool :=
  match envelope.event, envelope.seqId, envelope.streamId with
  | .clientMessageChunk segmentId _ _ _, some seqId, some streamId =>
    s.assemblies.shouldIgnoreChunk envelope.clientId streamId seqId segmentId
  | _, _, _ => false

/-- The completion of a message that has been forwarded is noted. -/
def recordCompletion (envelope : ClientEnvelope)
    (observation : ClientSegmentObservation) : WebsocketState :=
  match observation, clientMessageKey envelope with
  | .forward _, some (key, seqId) =>
    { s with lastCompleted := s.lastCompleted.insert key seqId }
  | _, _ => s

def observeClientMessage (codec : Codec) (s : WebsocketState) (envelope : ClientEnvelope)
    (wireSizeBytes now : ℕ) : ClientSegmentObservation × WebsocketState :=
  if s.isCompleted envelope then (.dropped, s)
  else if s.shouldIgnore envelope then (.dropped, s)
  else if (clientMessageKey envelope).isSome ∧ segmentMaxBytes < wireSizeBytes then
    match envelope.streamId with
    | some streamId =>
      (.dropped, { s with assemblies := s.assemblies.invalidateStream envelope.clientId streamId })
    | none => (.dropped, s)
  else
    let (observation, assemblies) := s.assemblies.observe codec envelope now
    (observation, recordCompletion { s with assemblies := assemblies } envelope observation)

/-- A stream of a client is gone. -/
def invalidateStream (s : WebsocketState) (clientId : ClientId) (streamId : StreamId) :
    WebsocketState where
  lastCompleted := s.lastCompleted.erase (clientId, some streamId)
  assemblies := s.assemblies.invalidateStream clientId streamId

/-- A client without a stream of its own is gone. -/
def invalidateClient (s : WebsocketState) (clientId : ClientId) : WebsocketState where
  lastCompleted := (s.lastCompleted.keys.filter fun key => key.1 = clientId).foldl
    (fun completed key => completed.erase key) s.lastCompleted
  assemblies := s.assemblies.invalidateClient clientId

end WebsocketState

/-- What happens to the inbound state. -/
inductive Inbound where
  | observe (envelope : ClientEnvelope) (wireSizeBytes now : ℕ)
  | invalidateStream (clientId : ClientId) (streamId : StreamId)
  | invalidateClient (clientId : ClientId)

def Inbound.apply (codec : Codec) (s : WebsocketState) : Inbound → WebsocketState
  | .observe envelope wireSizeBytes now =>
    (s.observeClientMessage codec envelope wireSizeBytes now).2
  | .invalidateStream clientId streamId => s.invalidateStream clientId streamId
  | .invalidateClient clientId => s.invalidateClient clientId

/-- The state after a history of envelopes and invalidations. -/
def inboundState (codec : Codec) (history : List Inbound) : WebsocketState :=
  history.foldl (Inbound.apply codec) {}

end CodexRs.AppServerTransport
