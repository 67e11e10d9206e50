import CodexRs.AppServerTransport.Segment

/-!
# The outbound side of the websocket state

Messages are serialized and split into segments; they stay abstract, and the serializer and the
base64 encoder are parameters. Envelopes are numbered for each stream and kept until they are
acknowledged; a decrement of a zero counter has no result here.
-/
namespace CodexRs.AppServerTransport
open Text Base64

section

def segmentTargetBytes : ℕ := 100 * 1024

inductive ServerEvent (M : Type) where
  | serverMessage (message : M)
  | serverMessageChunk (segmentId segmentCount messageSizeBytes : ℕ) (messageChunkBase64 : Str)
  | ack
  | pong (status : PongStatus)

structure ServerEnvelope (M : Type) where
  event : ServerEvent M
  clientId : ClientId
  streamId : StreamId
  seqId : ℕ

variable {M : Type}

def ServerEvent.segmentId : ServerEvent M → Option ℕ
  | .serverMessageChunk segmentId _ _ _ => some segmentId
  | .serverMessage _ => none
  | .ack => none
  | .pong _ => none

/-- What splitting needs from other crates. -/
structure ServerCodec (M : Type) where
  messageBytes : M → Option (List UInt8)
  serialize : ServerEnvelope M → Option Str
  encode : List UInt8 → Str

inductive SplitError where
  | serialize
  | segmentCountExceedsMaximum

def divCeil (a b : ℕ) : ℕ := (a + b - 1) / b

/-- The slices of length `size`, the last of which may be shorter. -/
def chunks (size : ℕ) (raw : List UInt8) : List (List UInt8) :=
  (List.range (divCeil raw.length size)).map fun i => (raw.drop (i * size)).take size

variable (codec : ServerCodec M) (envelope : ServerEnvelope M)

def serializedLen (envelope : ServerEnvelope M) : Except SplitError ℕ :=
  match codec.serialize envelope with
  | some text => .ok (utf8Length text)
  | none => .error .serialize

variable (segmentId segmentCount messageSizeBytes : ℕ) (chunk : List UInt8)

def buildChunkEnvelope : Except SplitError (ServerEnvelope M) :=
  if segmentCountMax < segmentCount then .error .segmentCountExceedsMaximum
  else .ok { envelope with
    event := .serverMessageChunk segmentId segmentCount messageSizeBytes (codec.encode chunk) }

def serializedChunkLen : Except SplitError ℕ := do
  serializedLen codec (← buildChunkEnvelope codec envelope segmentId segmentCount messageSizeBytes
    chunk)

def segmentFits : Bool :=
  match serializedChunkLen codec envelope segmentId segmentCount messageSizeBytes chunk with
  | .ok size => size ≤ segmentMaxBytes
  | .error _ => false

/-- The search for a number of segments. The size of a chunk shrinks in every round, so that the
message's size is enough fuel. -/
def splitRaw (raw : List UInt8) : ℕ → ℕ → Except SplitError (List (ServerEnvelope M))
  | 0, _ => .ok []
  | fuel + 1, requested =>
    let chunkSize := max 1 (divCeil raw.length requested)
    let segmentCount := divCeil raw.length chunkSize
    let segments := (chunks chunkSize raw).zipIdx
    if segments.all fun p => segmentFits codec envelope p.2 segmentCount raw.length p.1 then
      segments.mapM fun p => buildChunkEnvelope codec envelope p.2 segmentCount raw.length p.1
    else if chunkSize = 1 then .ok []
    else
      let nextSegmentCount := segmentCount + 1
      let nextChunkSize := max 1 (divCeil raw.length nextSegmentCount)
      splitRaw raw fuel (if nextChunkSize = chunkSize then raw.length else nextSegmentCount)

def splitServerEnvelopeForTransport : Except SplitError (List (ServerEnvelope M)) := do
  match envelope.event with
  | .serverMessage message =>
    if (← serializedLen codec envelope) ≤ segmentMaxBytes then return [envelope]
    match codec.messageBytes message with
    | none => throw .serialize
    | some raw =>
      if reassembledMaxBytes < raw.length then return []
      let minimalSegmentCount := min (max raw.length 1) segmentCountMax
      let minimalLen ← serializedChunkLen codec envelope 0 minimalSegmentCount raw.length
        (raw.take 1)
      if segmentMaxBytes < minimalLen then return []
      splitRaw codec envelope raw (raw.length + 1) (max 2 (divCeil raw.length segmentTargetBytes))
  | _ => return [envelope]

end

variable {M : Type}

def u64Max : ℕ := 2 ^ 64 - 1
def usizeMax : ℕ := 2 ^ 64 - 1

/-- The place of an envelope or an acknowledgement in a stream. -/
abbrev Cursor := ℕ ×ₗ ℕ

variable (envelope : ServerEnvelope M)

def ServerEnvelope.key : ClientKey :=
  (envelope.clientId, envelope.streamId)

def ServerEnvelope.cursor : Cursor :=
  toLex (envelope.seqId, envelope.event.segmentId.getD 0)

/-- Without a segment, all segments of the message are acknowledged. -/
def ackedCursor (seqId : ℕ) (segmentId : Option ℕ) : Cursor :=
  toLex (seqId, segmentId.getD usizeMax)

structure BoundedOutboundBuffer (M : Type) where
  bufferByStream : AList fun _ : ClientKey => List (ServerEnvelope M)
  used : ℕ

namespace BoundedOutboundBuffer

def new : BoundedOutboundBuffer M := ⟨∅, 0⟩

variable (b : BoundedOutboundBuffer M)

def stream (key : ClientKey) : List (ServerEnvelope M) :=
  (b.bufferByStream.lookup key).getD []

def insert (b : BoundedOutboundBuffer M) (envelope : ServerEnvelope M) :
    BoundedOutboundBuffer M where
  bufferByStream := b.bufferByStream.insert envelope.key (b.stream envelope.key ++ [envelope])
  used := b.used + 1

/-- The envelopes behind the cursor, and the counter without the others. -/
def retain (acked : Cursor) : List (ServerEnvelope M) → ℕ → Option (List (ServerEnvelope M) × ℕ)
  | [], used => some ([], used)
  | envelope :: rest, used =>
    if envelope.cursor ≤ acked then
      match used with
      | 0 => none
      | used + 1 => retain acked rest used
    else (retain acked rest used).map fun p => (envelope :: p.1, p.2)

def ack (key : ClientKey) (seqId : ℕ) (segmentId : Option ℕ) : Option (BoundedOutboundBuffer M) :=
  match b.bufferByStream.lookup key with
  | none => some b
  | some buffer =>
    (retain (ackedCursor seqId segmentId) buffer b.used).map fun p =>
      if p.1 = [] then ⟨b.bufferByStream.erase key, p.2⟩
      else ⟨b.bufferByStream.insert key p.1, p.2⟩

def serverEnvelopes : List (ServerEnvelope M) :=
  b.bufferByStream.entries.flatMap fun entry => entry.2

end BoundedOutboundBuffer

structure OutboundState (M : Type) where
  outboundBuffer : BoundedOutboundBuffer M := .new
  nextSeqIdByStream : AList fun _ : ClientKey => ℕ := ∅

structure QueuedServerEnvelope (M : Type) where
  event : ServerEvent M
  clientId : ClientId
  streamId : StreamId

def QueuedServerEnvelope.key (queued : QueuedServerEnvelope M) : ClientKey :=
  (queued.clientId, queued.streamId)

variable (codec : ServerCodec M)

/-- Buffers the envelopes that can be serialized, and returns them with their payloads. -/
def bufferEnvelopes : BoundedOutboundBuffer M → List (ServerEnvelope M) →
    BoundedOutboundBuffer M × List (ServerEnvelope M × Str)
  | b, [] => (b, [])
  | b, envelope :: rest =>
    match codec.serialize envelope with
    | none => bufferEnvelopes b rest
    | some payload =>
      let p := bufferEnvelopes (b.insert envelope) rest
      (p.1, (envelope, payload) :: p.2)

namespace OutboundState
variable (s : OutboundState M)

def nextSeqId (key : ClientKey) : ℕ :=
  (s.nextSeqIdByStream.lookup key).getD 1

/-- Takes the next sequence id of the stream for an envelope; it stays at the largest one. -/
def send (queued : QueuedServerEnvelope M) : OutboundState M × List (ServerEnvelope M × Str) :=
  let seqId := s.nextSeqId queued.key
  let envelope : ServerEnvelope M := ⟨queued.event, queued.clientId, queued.streamId, seqId⟩
  match splitServerEnvelopeForTransport codec envelope with
  | .error _ => ({ s with nextSeqIdByStream := s.nextSeqIdByStream.insert queued.key seqId }, [])
  | .ok envelopes =>
    let p := bufferEnvelopes codec s.outboundBuffer envelopes
    (⟨p.1, s.nextSeqIdByStream.insert queued.key (min (seqId + 1) u64Max)⟩, p.2)

/-- An acknowledgement must name a message and a stream. -/
def acknowledge (envelope : ClientEnvelope) : Option (OutboundState M) :=
  match envelope.event, envelope.seqId, envelope.streamId with
  | .ack segmentId, some seqId, some streamId =>
    (s.outboundBuffer.ack (envelope.clientId, streamId) seqId segmentId).map fun b =>
      { s with outboundBuffer := b }
  | _, _, _ => some s

end OutboundState

end CodexRs.AppServerTransport
