import CodexRs.Protocol.Models
import Mathlib.Data.List.AList

/-!
# Chat completion requests

Reasoning is attached to a message or call next to it; calls that follow each other share one
assistant message.
-/
namespace CodexRs.CodexApi
open Text Protocol

def textPart (text : Str) : Json :=
  .object [("type", .ofString "text"), ("text", .string text)]

def imagePart (imageUrl : Str) : Json :=
  .object [("type", .ofString "image_url"), ("image_url", .object [("url", .string imageUrl)])]

def serializeDetail : ImageDetail → Json
  | .auto => .ofString "auto"
  | .low => .ofString "low"
  | .high => .ofString "high"
  | .original => .ofString "original"

def serializeOutputItem : FunctionCallOutputContentItem → Json
  | .inputText text => .object [("type", .ofString "input_text"), ("text", .string text)]
  | .inputImage imageUrl none =>
    .object [("type", .ofString "input_image"), ("image_url", .string imageUrl)]
  | .inputImage imageUrl (some detail) =>
    .object [("type", .ofString "input_image"), ("image_url", .string imageUrl),
      ("detail", serializeDetail detail)]

def serializePayload (output : FunctionCallOutputPayload) : Json :=
  match output.body with
  | .text content => .string content
  | .contentItems items => .array (items.map serializeOutputItem)

def serializeStatus : LocalShellStatus → Json
  | .completed => .ofString "completed"
  | .inProgress => .ofString "in_progress"
  | .incomplete => .ofString "incomplete"

def serializeAction : LocalShellAction → Json
  | .exec action =>
    .object [("type", .ofString "exec"), ("command", .array (action.command.map .string)),
      ("timeout_ms", .ofOption (fun n => .number (.posInt n)) action.timeoutMs),
      ("working_directory", .ofOption .string action.workingDirectory),
      ("env", .ofOption (fun env => .object (env.map fun p => (p.1, .string p.2))) action.env),
      ("user", .ofOption .string action.user)]

section

def isAssistantMessage : ResponseItem → Bool
  | .message _ role _ _ => role = "assistant".toList
  | _ => false

variable (input : List ResponseItem)

def lastEmittedRole : Option Str :=
  input.foldl (fun last item =>
    match item with
    | .message _ role _ _ => some role
    | .functionCall .. | .localShellCall .. => some "assistant".toList
    | .functionCallOutput .. => some "tool".toList
    | _ => last) none

def lastUserIndex : Option ℕ :=
  input.zipIdx.foldl (fun last p =>
    match p.1 with
    | .message _ role _ _ => if role = "user".toList then some p.2 else last
    | _ => last) none

/-- The item next to the reasoning at `idx` that it is attached to. -/
def reasoningAnchor (idx : ℕ) : Option ℕ :=
  if 0 < idx ∧ (input[idx - 1]?).any isAssistantMessage then some (idx - 1)
  else
    match input[idx + 1]? with
    | some (.functionCall ..) => some (idx + 1)
    | some (.localShellCall ..) => some (idx + 1)
    | some item => if isAssistantMessage item then some (idx + 1) else none
    | none => none

abbrev Anchors := AList fun _ : ℕ => Str

def attachReasoning (anchors : Anchors) (anchor : ℕ) (text : Str) : Anchors :=
  anchors.insert anchor ((anchors.lookup anchor).getD [] ++ text)

def anchorReasoning (anchors : Anchors) (p : ResponseItem × ℕ) : Anchors :=
  if (lastUserIndex input).any (p.2 ≤ ·) then anchors
  else
    match p.1 with
    | .reasoning _ _ (some items) _ =>
      let text := items.flatMap reasoningContentText
      if trim text = [] then anchors
      else
        match reasoningAnchor input p.2 with
        | some anchor => attachReasoning anchors anchor text
        | none => anchors
    | _ => anchors

def reasoningByAnchorIndex : Anchors :=
  if lastEmittedRole input = some "user".toList then ∅
  else input.zipIdx.foldl (anchorReasoning input) ∅

end

def insertReasoning (reasoning : Option Str) (msg : Json) : Json :=
  match reasoning with
  | some reasoning => msg.insert "reasoning" (.string reasoning)
  | none => msg

/-- The calls of a message that a further call is grouped with. -/
def groupedCalls (msg : Json) : Option (List Json) :=
  if (msg.get "role").bind Json.asStr = some "assistant".toList ∧
      (msg.get "content").any Json.isNull then
    (msg.get "tool_calls").bind Json.asArray
  else none

def appendGroupReasoning (msg : Json) (reasoning : Option Str) : Json :=
  match reasoning with
  | none => msg
  | some reasoning =>
    match msg.get "reasoning" with
    | some (.string existing) =>
      let existing := if existing = [] then existing else existing ++ ['\n']
      msg.insert "reasoning" (.string (existing ++ reasoning))
    | _ => msg.insert "reasoning" (.string reasoning)

def newCallMessage (toolCall : Json) (reasoning : Option Str) : Json :=
  insertReasoning reasoning (.object [("role", .ofString "assistant"), ("content", .null),
    ("tool_calls", .array [toolCall])])

def pushToolCallMessage (messages : List Json) (toolCall : Json) (reasoning : Option Str) :
    List Json :=
  match messages.getLast?.bind fun last => (groupedCalls last).map (last, ·) with
  | some (last, calls) =>
    messages.dropLast ++
      [appendGroupReasoning (last.insert "tool_calls" (.array (calls ++ [toolCall]))) reasoning]
  | none => messages ++ [newCallMessage toolCall reasoning]

structure RenderState where
  messages : List Json
  lastAssistantText : Option Str

def partText : ContentItem → Str
  | .inputText text => text
  | .outputText text => text
  | .inputImage _ _ => []

def contentPart : ContentItem → Json
  | .inputText text => textPart text
  | .outputText text => textPart text
  | .inputImage imageUrl _ => imagePart imageUrl

def isImage : ContentItem → Bool
  | .inputImage _ _ => true
  | _ => false

variable (role : Str)

def outboundRole : Str := if role = "developer".toList then "user".toList else role

variable (content : List ContentItem)

def messageContent : Json :=
  if role ≠ "assistant".toList ∧ content.any isImage then .array (content.map contentPart)
  else .string (content.flatMap partText)

def renderedMessage (reasoning : Option Str) : Json :=
  insertReasoning (if role = "assistant".toList then reasoning else none)
    (.object [("role", .string (outboundRole role)), ("content", messageContent role content)])

def renderMessage (s : RenderState) (role : Str) (content : List ContentItem)
    (reasoning : Option Str) : RenderState :=
  let text := content.flatMap partText
  let pushed := s.messages ++ [renderedMessage role content reasoning]
  if role = "assistant".toList then
    if s.lastAssistantText = some text then s else ⟨pushed, some text⟩
  else { s with messages := pushed }

def functionToolCall (name arguments callId : Str) : Json :=
  .object [("id", .string callId), ("type", .ofString "function"),
    ("function", .object [("name", .string name), ("arguments", .string arguments)])]

def localShellToolCall (id : Option Str) (status : LocalShellStatus) (action : LocalShellAction) :
    Json :=
  .object [("id", .string (id.getD [])), ("type", .ofString "local_shell_call"),
    ("status", serializeStatus status), ("action", serializeAction action)]

def customToolCall (id : Option Str) (name input : Str) : Json :=
  .object [("id", .ofOption .string id), ("type", .ofString "custom"),
    ("custom", .object [("name", .string name), ("input", .string input)])]

def outputPart : FunctionCallOutputContentItem → Json
  | .inputText text => textPart text
  | .inputImage imageUrl _ => imagePart imageUrl

def outputContent (output : FunctionCallOutputPayload) : Json :=
  match output.contentItems with
  | some items => .array (items.map outputPart)
  | none => .string (output.textContent.getD [])

def toolMessage (callId : Str) (content : Json) : Json :=
  .object [("role", .ofString "tool"), ("tool_call_id", .string callId), ("content", content)]

def renderItem (anchors : Anchors) (s : RenderState) (p : ResponseItem × ℕ) : RenderState :=
  let reasoning := anchors.lookup p.2
  match p.1 with
  | .message _ role content _ => renderMessage s role content reasoning
  | .functionCall _ name _ arguments callId =>
    { s with messages :=
        pushToolCallMessage s.messages (functionToolCall name arguments callId) reasoning }
  | .localShellCall id _ status action =>
    { s with messages :=
        pushToolCallMessage s.messages (localShellToolCall id status action) reasoning }
  | .functionCallOutput callId output =>
    { s with messages := s.messages ++ [toolMessage callId (outputContent output)] }
  | .customToolCall id _ _ name input =>
    { s with messages := pushToolCallMessage s.messages (customToolCall id name input) reasoning }
  | .customToolCallOutput callId _ output =>
    { s with messages := s.messages ++ [toolMessage callId (serializePayload output)] }
  | .reasoning .. | .webSearchCall .. | .other | .compaction _ | .toolSearchCall ..
  | .toolSearchOutput .. | .imageGenerationCall .. | .contextCompaction _ => s

def systemMessage (instructions : Str) : Json :=
  .object [("role", .ofString "system"), ("content", .string instructions)]

/-- The messages of the request for a conversation. -/
def buildMessages (instructions : Str) (input : List ResponseItem) : List Json :=
  (input.zipIdx.foldl (renderItem (reasoningByAnchorIndex input))
    ⟨[systemMessage instructions], none⟩).messages

/-- The body of the request. -/
def build (model instructions : Str) (input : List ResponseItem) (tools : List Json) : Json :=
  .object [("model", .string model), ("messages", .array (buildMessages instructions input)),
    ("stream", .bool true), ("tools", .array tools)]

end CodexRs.CodexApi
