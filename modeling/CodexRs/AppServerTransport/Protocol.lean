import CodexRs.Library.Json

/-!
# Envelopes of remote-control clients

What arrives from the clients of a remotely controlled server: messages, whole or in
chunks, and the signals around them.
-/
namespace CodexRs.AppServerTransport
open Text

inductive RequestId where
  | string (value : Str)
  | integer (value : ℤ)

inductive JSONRPCMessage where
  | request (id : RequestId) (method : Str) (params : Option Json)
  | notification (method : Str) (params : Option Json)
  | response (id : RequestId) (result : Json)
  | error (id : RequestId) (code : ℤ) (data : Option Json) (message : Str)

abbrev ClientId := Str
abbrev StreamId := Str
abbrev ClientKey := ClientId × StreamId

inductive ClientEvent where
  | clientMessage (message : JSONRPCMessage)
  | clientMessageChunk (segmentId segmentCount messageSizeBytes : ℕ) (messageChunkBase64 : Str)
  | ack (segmentId : Option ℕ)
  | ping
  | clientClosed

structure ClientEnvelope where
  event : ClientEvent
  clientId : ClientId
  streamId : Option StreamId
  seqId : Option ℕ
  cursor : Option Str

inductive PongStatus where
  | active
  | unknown

end CodexRs.AppServerTransport
