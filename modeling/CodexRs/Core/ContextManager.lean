import CodexRs.Utils.Truncate

/-!
# The transcript of a thread

Messages that were injected as context are told by the markers their texts begin and end with. A
rollback cuts off the newest turns of the user, with the context that was injected right before.
-/
namespace CodexRs.Core
open Text Protocol Utils

structure HookPromptFragment where
  text : Str
  hookRunId : Str

/-- The deserializers of hook prompts and of messages between agents, and a budget times 1.2 in
floating point. -/
structure Primitives where
  hookPromptXml : Str → Option HookPromptFragment
  interAgentCommunication : Str → Bool
  serializationBudget : TruncationPolicy → TruncationPolicy

/-- No text deserializes, and budgets stay as they are. -/
def Primitives.bare : Primitives := ⟨fun _ => none, fun _ => false, id⟩

/-- Markers are ASCII, so that a candidate of as many characters has as many bytes or
differs from the marker. -/
def startsWithMarker (trimmed marker : Str) : Bool :=
  eqIgnoreAsciiCase (trimmed.take marker.length) marker

def endsWithMarker (trimmed marker : Str) : Bool :=
  eqIgnoreAsciiCase (trimmed.drop (trimmed.length - marker.length)) marker

structure FragmentRegistration where
  startMarker : Str
  endMarker : Str

def FragmentRegistration.matchesText (fragment : FragmentRegistration) (text : Str) : Bool :=
  if fragment.startMarker = [] ∨ fragment.endMarker = [] then false
  else
    startsWithMarker (trimStart text) fragment.startMarker &&
      endsWithMarker (trimEnd (trimStart text)) fragment.endMarker

def contextualUserFragments : List FragmentRegistration :=
  [⟨"# AGENTS.md instructions for ".toList, "</INSTRUCTIONS>".toList⟩,
   ⟨"<environment_context>".toList, "</environment_context>".toList⟩,
   ⟨"<skill>".toList, "</skill>".toList⟩,
   ⟨"<user_shell_command>".toList, "</user_shell_command>".toList⟩,
   ⟨"<turn_aborted>".toList, "</turn_aborted>".toList⟩,
   ⟨"<subagent_notification>".toList, "</subagent_notification>".toList⟩]

def isStandardContextualUserText (text : Str) : Bool :=
  contextualUserFragments.any (·.matchesText text)

def contextualDeveloperPrefixes : List Str :=
  ["<permissions instructions>".toList, "<model_switch>".toList, "<collaboration_mode>".toList,
   "<realtime_conversation>".toList, "<personality_spec>".toList]

def isContextualDevFragment : ContentItem → Bool
  | .inputText text => contextualDeveloperPrefixes.any (startsWithMarker (trimStart text))
  | _ => false

section
variable (prims : Primitives)

def parseHookPromptFragment (text : Str) : Option HookPromptFragment :=
  (prims.hookPromptXml (trim text)).filter fun fragment => trim fragment.hookRunId ≠ []

def isContextualUserFragment : ContentItem → Bool
  | .inputText text =>
    (parseHookPromptFragment prims text).isSome || isStandardContextualUserText text
  | _ => false

def isContextualUserMessageContent (message : List ContentItem) : Bool :=
  message.any (isContextualUserFragment prims)

def isContextualDevMessageContent (message : List ContentItem) : Bool :=
  message.any isContextualDevFragment

def hasNonContextualDevMessageContent (message : List ContentItem) : Bool :=
  message.any (!isContextualDevFragment ·)

/-- The hook prompts of a message that has nothing else but injected context. -/
def hookPromptFragments : List ContentItem → Option (List HookPromptFragment)
  | [] => some []
  | .inputText text :: content =>
    match parseHookPromptFragment prims text with
    | some fragment => (hookPromptFragments content).map (fragment :: ·)
    | none => if isStandardContextualUserText text then hookPromptFragments content else none
  | _ :: _ => none

def parseVisibleHookPromptMessage (content : List ContentItem) : Option (List HookPromptFragment) :=
  (hookPromptFragments prims content).filter (· ≠ [])

inductive UserInput where
  | text (text : Str)
  | image (imageUrl : Str)

def isLocalImageOpenTagText (text : Str) : Bool :=
  (stripPrefix "<image name=".toList text).any (·.getLast? = some '>')

def isImageOpenTagText (text : Str) : Bool := text = "<image>".toList

def isImageCloseTagText (text : Str) : Bool := text = "</image>".toList

def isInputImage : Option ContentItem → Bool
  | some (.inputImage _ _) => true
  | _ => false

/-- The tags around an image are left out. -/
def parseUserMessage (message : List ContentItem) : Option (List UserInput) :=
  if isContextualUserMessageContent prims message then none
  else some (message.zipIdx.filterMap fun (contentItem, idx) =>
    match contentItem with
    | .inputText text =>
      if ((isLocalImageOpenTagText text || isImageOpenTagText text) &&
            isInputImage message[idx + 1]?) ||
          (0 < idx && isImageCloseTagText text && isInputImage message[idx - 1]?) then none
      else some (.text text)
    | .inputImage imageUrl _ => some (.image imageUrl)
    | .outputText _ => none)

/-- The item's turn item where that is a message of the user. -/
def parseUserTurnItem : ResponseItem → Option (List UserInput)
  | .message _ role content _ =>
    if role = "user".toList ∧ parseVisibleHookPromptMessage prims content = none then
      parseUserMessage prims content
    else none
  | _ => none

/-- The text of a user's message. -/
def UserMessageItem.message (content : List UserInput) : Str :=
  content.flatMap fun
    | .text text => text
    | .image _ => []

def isInterAgentInstructionContent : List ContentItem → Bool
  | [.inputText text] | [.outputText text] => prims.interAgentCommunication text
  | _ => false

def isUserTurnBoundary : ResponseItem → Bool
  | .message _ role content _ =>
    (role = "user".toList && !isContextualUserMessageContent prims content) ||
      (role = "assistant".toList && isInterAgentInstructionContent prims content)
  | _ => false

end

structure ContextManager where
  items : List ResponseItem
  referenceContextItem : Option TurnContextItem

def truncateFunctionOutputPayload (output : FunctionCallOutputPayload)
    (policy : TruncationPolicy) : FunctionCallOutputPayload where
  body := match output.body with
    | .text content => .text (truncateText content policy)
    | .contentItems items => .contentItems (truncateFunctionOutputItemsWithPolicy items policy)
  success := output.success

def isApiMessage : ResponseItem → Bool
  | .message _ role _ _ => role ≠ "system".toList
  | .other => false
  | _ => true

namespace ContextManager

def new : ContextManager := ⟨[], none⟩

variable (prims : Primitives) (policy : TruncationPolicy)

def processItem : ResponseItem → ResponseItem
  | .functionCallOutput callId output =>
    .functionCallOutput callId
      (truncateFunctionOutputPayload output (prims.serializationBudget policy))
  | .customToolCallOutput callId name output =>
    .customToolCallOutput callId name
      (truncateFunctionOutputPayload output (prims.serializationBudget policy))
  | item => item

variable (manager : ContextManager) (items : List ResponseItem)

def recordItems : ContextManager :=
  { manager with
    items := manager.items ++ (items.filter isApiMessage).map (processItem prims policy) }

def replace : ContextManager :=
  { manager with items := items }

end ContextManager

variable (prims : Primitives)

def userMessagePositions (items : List ResponseItem) : List ℕ :=
  items.zipIdx.filterMap fun p => if isUserTurnBoundary prims p.1 then some p.2 else none

/-- A message of the developer with injected context. -/
def isContextualDevMessage : ResponseItem → Bool
  | .message _ role content _ =>
    role = "developer".toList && isContextualDevMessageContent content
  | _ => false

/-- A message of the user with injected context. -/
def isContextualUserMessage : ResponseItem → Bool
  | .message _ role content _ =>
    role = "user".toList && isContextualUserMessageContent prims content
  | _ => false

def isMixedDevMessage : ResponseItem → Bool
  | .message _ _ content _ => hasNonContextualDevMessageContent content
  | _ => false

/-- The cut moves back over injected context, but never before the first turn. A message of
the developer that holds more than context takes the baseline with it. -/
def trimPreTurnContextUpdates (snapshot : List ResponseItem) (firstInstructionTurnIdx : ℕ) :
    ℕ → Option TurnContextItem → ℕ × Option TurnContextItem
  | 0, reference => (0, reference)
  | cutIdx + 1, reference =>
    if firstInstructionTurnIdx < cutIdx + 1 then
      match snapshot[cutIdx]? with
      | some item =>
        if isContextualDevMessage item then
          trimPreTurnContextUpdates snapshot firstInstructionTurnIdx cutIdx
            (if isMixedDevMessage item then none else reference)
        else if isContextualUserMessage prims item then
          trimPreTurnContextUpdates snapshot firstInstructionTurnIdx cutIdx reference
        else (cutIdx + 1, reference)
      | none => (cutIdx + 1, reference)
    else (cutIdx + 1, reference)

def ContextManager.dropLastNUserTurns (manager : ContextManager) (numTurns : UInt32) :
    ContextManager :=
  if numTurns = 0 then manager
  else
    match userMessagePositions prims manager.items with
    | [] => manager
    | firstInstructionTurnIdx :: later =>
      let userPositions := firstInstructionTurnIdx :: later
      let cutIdx :=
        if userPositions.length ≤ numTurns.toNat then firstInstructionTurnIdx
        else userPositions.getD (userPositions.length - numTurns.toNat) firstInstructionTurnIdx
      let (cutIdx, reference) := trimPreTurnContextUpdates prims manager.items
        firstInstructionTurnIdx cutIdx manager.referenceContextItem
      ⟨manager.items.take cutIdx, reference⟩

end CodexRs.Core
