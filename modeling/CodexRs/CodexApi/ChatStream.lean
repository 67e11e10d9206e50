import CodexRs.Protocol.Models
import Mathlib.Data.List.AList

/-!
# The chat completions stream

Fragments of tool calls are routed to their calls by index or by id. The JSON parser is a
parameter.
-/
namespace CodexRs.CodexApi
open Text Protocol

inductive ApiError where
  | stream (message : Str)
  | contextWindowExceeded

inductive ResponseEvent where
  | outputItemDone (item : ResponseItem)
  | outputItemAdded (item : ResponseItem)
  | completed (responseId : Str) (endTurn : Option Bool)
  | outputTextDelta (delta : Str)
  | reasoningContentDelta (delta : Str) (contentIndex : ℕ)

structure ToolCallState where
  id : Option Str := none
  name : Option Str := none
  arguments : Str := []

/-- The tables by which fragments of tool calls find their calls. -/
structure ToolCalls where
  calls : AList fun _ : ℕ => ToolCallState := ∅
  order : List ℕ := []
  orderSeen : List ℕ := []
  indexById : AList fun _ : Str => ℕ := ∅
  nextIndex : ℕ := 0
  lastIndex : Option ℕ := none

structure ChatState where
  tools : ToolCalls := {}
  assistantItem : Option ResponseItem := none
  reasoningItem : Option ResponseItem := none
  completedSent : Bool := false
  sent : List (Except ApiError ResponseEvent) := []

namespace ChatState

def send (s : ChatState) (event : ResponseEvent) : ChatState :=
  { s with sent := s.sent ++ [.ok event] }

def fail (s : ChatState) (error : ApiError) : ChatState :=
  { s with sent := s.sent ++ [.error error] }

end ChatState

def emptyMessage : ResponseItem := .message none "assistant".toList [] none

def emptyReasoning : ResponseItem := .reasoning [] [] (some []) none

variable (s : ChatState)

def openAssistant : ChatState :=
  match s.assistantItem with
  | none => { s with assistantItem := some emptyMessage }.send (.outputItemAdded emptyMessage)
  | some _ => s

def openReasoning : ChatState :=
  match s.reasoningItem with
  | none => { s with reasoningItem := some emptyReasoning }.send (.outputItemAdded emptyReasoning)
  | some _ => s

def appendAssistantText (text : Str) : ChatState :=
  let s := openAssistant s
  match s.assistantItem with
  | some (.message id role content phase) =>
    let item := .message id role (content ++ [.outputText text]) phase
    { s with assistantItem := some item }.send (.outputTextDelta text)
  | _ => s

def appendReasoningText (text : Str) : ChatState :=
  let s := openReasoning s
  match s.reasoningItem with
  | some (.reasoning id summary (some content) encrypted) =>
    let item := .reasoning id summary (some (content ++ [.reasoningText text])) encrypted
    { s with reasoningItem := some item }.send (.reasoningContentDelta text content.length)
  | _ => s

/-- The text of a `reasoning` value: itself, or its `text`, or its `content`. -/
def reasoningText (reasoning : Json) : Option Str :=
  match reasoning.asStr with
  | some text => some text
  | none =>
    match (reasoning.get "text").bind Json.asStr with
    | some text => some text
    | none => (reasoning.get "content").bind Json.asStr

def appendReasoning (holder : Json) : ChatState :=
  match (holder.get "reasoning").bind reasoningText with
  | some text => appendReasoningText s text
  | none => s

/-- The texts of a `content` value: of all its parts, or itself. -/
def contentTexts (content : Json) : List Str :=
  match content with
  | .array items => items.filterMap fun item => (item.get "text").bind Json.asStr
  | .string text => [text]
  | _ => []

def appendContent (delta : Json) : ChatState :=
  match delta.get "content" with
  | some content => (contentTexts content).foldl appendAssistantText s
  | none => s

/-- What is read of one element of `tool_calls`. -/
structure Fragment where
  index : Option ℕ
  id : Option Str
  name : Option Str
  arguments : Option Str
deriving DecidableEq

def Fragment.ofJson (toolCall : Json) : Fragment where
  index := ((toolCall.get "index").bind Json.asU64).map UInt64.toNat
  id := (toolCall.get "id").bind Json.asStr
  name := ((toolCall.get "function").bind (Json.get "name")).bind Json.asStr
  arguments := ((toolCall.get "function").bind (Json.get "arguments")).bind Json.asStr

/-- The first number from `n` on that is not used; `fuel` numbers are looked at. -/
def skipUsed (used : ℕ → Bool) : ℕ → ℕ → ℕ
  | 0, n => n
  | fuel + 1, n => if used n then skipUsed used fuel (n + 1) else n

namespace ToolCalls
variable (t : ToolCalls)

/-- The first number that is free; at most as many as there are calls are taken. -/
def freeIndex : ℕ :=
  skipUsed (fun i => (t.calls.lookup i).isSome) t.calls.keys.length t.nextIndex

variable (fragment : Fragment)

/-- The index a fragment names: that of a known id comes first, then its own; a fragment
with neither belongs to the last call. -/
def namedIndex : Option ℕ :=
  match fragment.id with
  | some id =>
    match t.indexById.lookup id with
    | some existing => some existing
    | none => fragment.index
  | none =>
    match fragment.index with
    | some index => some index
    | none => t.lastIndex

def addFragment (state : ToolCallState) (fragment : Fragment) : ToolCallState where
  id := state.id.or fragment.id
  name := state.name.or (fragment.name.filter (· ≠ []))
  arguments := state.arguments ++ fragment.arguments.getD []

def registerId (indexById : AList fun _ : Str => ℕ) (id : Option Str) (index : ℕ) :
    AList fun _ : Str => ℕ :=
  match id with
  | none => indexById
  | some id =>
    match indexById.lookup id with
    | some _ => indexById
    | none => indexById.insert id index

/-- A fragment added to the call at `index`. -/
def addAt (index : ℕ) (fragment : Fragment) : ToolCalls :=
  { t with
    calls := t.calls.insert index (addFragment ((t.calls.lookup index).getD {}) fragment)
    order := if index ∈ t.orderSeen then t.order else t.order ++ [index]
    orderSeen := if index ∈ t.orderSeen then t.orderSeen else index :: t.orderSeen
    indexById := registerId t.indexById fragment.id index
    lastIndex := some index }

def route : ToolCalls :=
  match t.namedIndex fragment with
  | some index => t.addAt index fragment
  | none => { t with nextIndex := t.freeIndex + 1 }.addAt t.freeIndex fragment

end ToolCalls

def routeToolCalls (delta : Json) : ChatState :=
  match (delta.get "tool_calls").bind Json.asArray with
  | some toolCalls =>
    { s with tools := toolCalls.foldl (fun t toolCall => t.route (.ofJson toolCall)) s.tools }
  | none => s

variable (choice : Json)

def applyDelta : ChatState :=
  match choice.get "delta" with
  | some delta => routeToolCalls (appendContent (appendReasoning s delta) delta) delta
  | none => s

def applyMessage : ChatState :=
  match choice.get "message" with
  | some message => appendReasoning s message
  | none => s

def flushReasoning : ChatState :=
  match s.reasoningItem with
  | some item => { s with reasoningItem := none }.send (.outputItemDone item)
  | none => s

def flushAssistant : ChatState :=
  match s.assistantItem with
  | some item => { s with assistantItem := none }.send (.outputItemDone item)
  | none => s

def completedEvent : ResponseEvent := .completed [] none

def flushAndComplete : ChatState :=
  (flushAssistant (flushReasoning s)).send completedEvent

def finishStop : ChatState :=
  let s := flushAssistant (flushReasoning s)
  if s.completedSent then s else { s.send completedEvent with completedSent := true }

def functionCallItem (index : ℕ) (state : ToolCallState) (name : Str) : ResponseItem :=
  .functionCall none name none state.arguments
    (state.id.getD ("tool-call-".toList ++ (toString index).toList))

/-- One call taken out of the tables and sent; a call without a name is dropped. -/
def sendToolCall (index : ℕ) : ChatState :=
  match s.tools.calls.lookup index with
  | none => s
  | some state =>
    let tools := { s.tools with
      calls := s.tools.calls.erase index
      orderSeen := s.tools.orderSeen.filter (· ≠ index) }
    match state.name with
    | none => { s with tools := tools }
    | some name =>
      { s with tools := tools }.send (.outputItemDone (functionCallItem index state name))

def finishToolCalls : ChatState :=
  let s := flushReasoning s
  let order := s.tools.order
  order.foldl sendToolCall { s with tools := { s.tools with order := [] } }

/-- One choice of an event; the flag tells that the stream has ended with an error. -/
def processChoice : ChatState × Bool :=
  let s := applyMessage (applyDelta s choice) choice
  let finishReason := (choice.get "finish_reason").bind Json.asStr
  if finishReason = some "stop".toList then (finishStop s, false)
  else if finishReason = some "length".toList then (s.fail .contextWindowExceeded, true)
  else if finishReason = some "tool_calls".toList then (finishToolCalls s, false)
  else (s, false)

def processChoices (s : ChatState) : List Json → ChatState × Bool
  | [] => (s, false)
  | choice :: choices =>
    match processChoice s choice with
    | (s, true) => (s, true)
    | (s, false) => processChoices s choices

/-- What waiting for the next event gives; a stream that is closed gives nothing more. -/
inductive Poll where
  | event (data : Str)
  | error (message : Str)
  | timeout

def finishStream : ChatState :=
  if s.completedSent then s else flushAndComplete s

variable (fromStr : Str → Option Json)

def eventChoices (data : Str) : List Json :=
  (((fromStr data).bind (Json.get "choices")).bind Json.asArray).getD []

/-- One event; the flag tells that the stream is not read any further. -/
def processEvent (s : ChatState) (data : Str) : ChatState × Bool :=
  let data := trim data
  if data = [] then (s, false)
  else if data = "[DONE]".toList ∨ data = "DONE".toList then (finishStream s, true)
  else processChoices s (eventChoices fromStr data)

def processPoll (s : ChatState) : Poll → ChatState × Bool
  | .event data => processEvent fromStr s data
  | .error message => (s.fail (.stream message), true)
  | .timeout => (s.fail (.stream "idle timeout waiting for SSE".toList), true)

def processPolls (s : ChatState) : List Poll → ChatState
  | [] => finishStream s
  | poll :: polls =>
    match processPoll fromStr s poll with
    | (s, true) => s
    | (s, false) => processPolls s polls

/-- The events sent for a stream that gives `polls` and is then closed. -/
def processChatSse (polls : List Poll) : List (Except ApiError ResponseEvent) :=
  (processPolls fromStr {} polls).sent

end CodexRs.CodexApi
