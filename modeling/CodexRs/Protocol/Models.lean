import CodexRs.Library.Json

/-!
# Items of a conversation and of a rollout

A rollout is the record of a session from which its history and what is displayed of it are
rebuilt. Of its events only those are told apart that one of the two looks at.
-/
namespace CodexRs.Protocol
open Text

inductive ImageDetail where
  | auto
  | low
  | high
  | original
deriving DecidableEq

inductive ContentItem where
  | inputText (text : Str)
  | inputImage (imageUrl : Str) (detail : Option ImageDetail)
  | outputText (text : Str)
deriving DecidableEq

inductive MessagePhase where
  | commentary
  | finalAnswer
deriving DecidableEq

inductive ReasoningItemReasoningSummary where
  | summaryText (text : Str)
deriving DecidableEq

inductive ReasoningItemContent where
  | reasoningText (text : Str)
  | text (text : Str)
deriving DecidableEq

def reasoningContentText : ReasoningItemContent → Str
  | .reasoningText text => text
  | .text text => text

inductive LocalShellStatus where
  | completed
  | inProgress
  | incomplete
deriving DecidableEq

structure LocalShellExecAction where
  command : List Str
  timeoutMs : Option UInt64
  workingDirectory : Option Str
  env : Option (List (String × Str))
  user : Option Str
deriving DecidableEq

inductive LocalShellAction where
  | exec (action : LocalShellExecAction)
deriving DecidableEq

inductive FunctionCallOutputContentItem where
  | inputText (text : Str)
  | inputImage (imageUrl : Str) (detail : Option ImageDetail)
deriving DecidableEq

inductive FunctionCallOutputBody where
  | text (content : Str)
  | contentItems (items : List FunctionCallOutputContentItem)
deriving DecidableEq

structure FunctionCallOutputPayload where
  body : FunctionCallOutputBody
  success : Option Bool
deriving DecidableEq

namespace FunctionCallOutputPayload

def fromText (content : Str) : FunctionCallOutputPayload := ⟨.text content, none⟩

def textContent (payload : FunctionCallOutputPayload) : Option Str :=
  match payload.body with
  | .text content => some content
  | .contentItems _ => none

def contentItems (payload : FunctionCallOutputPayload) :
    Option (List FunctionCallOutputContentItem) :=
  match payload.body with
  | .text _ => none
  | .contentItems items => some items

end FunctionCallOutputPayload

inductive WebSearchAction where
  | search (query : Option Str) (queries : Option (List Str))
  | openPage (url : Option Str)
  | findInPage (url pattern : Option Str)
  | other
deriving DecidableEq

inductive ResponseItem where
  | message (id : Option Str) (role : Str) (content : List ContentItem)
      (phase : Option MessagePhase)
  | reasoning (id : Str) (summary : List ReasoningItemReasoningSummary)
      (content : Option (List ReasoningItemContent)) (encryptedContent : Option Str)
  | localShellCall (id callId : Option Str) (status : LocalShellStatus) (action : LocalShellAction)
  | functionCall (id : Option Str) (name : Str) (namespaceName : Option Str) (arguments callId : Str)
  | toolSearchCall (id callId status : Option Str) (execution : Str) (arguments : Json)
  | functionCallOutput (callId : Str) (output : FunctionCallOutputPayload)
  | customToolCall (id status : Option Str) (callId name input : Str)
  | customToolCallOutput (callId : Str) (name : Option Str) (output : FunctionCallOutputPayload)
  | toolSearchOutput (callId : Option Str) (status execution : Str) (tools : List Json)
  | webSearchCall (id status : Option Str) (action : Option WebSearchAction)
  | imageGenerationCall (id status : Str) (revisedPrompt : Option Str) (result : Str)
  | compaction (encryptedContent : Str)
  | contextCompaction (encryptedContent : Option Str)
  | other
deriving DecidableEq

/-- The settings of a turn that a later turn is compared with. -/
structure TurnContextItem where
  turnId : Option Str
  model : Str
  realtimeActive : Option Bool
deriving DecidableEq

structure CompactedItem where
  message : Str
  replacementHistory : Option (List ResponseItem)
deriving DecidableEq

structure TextElement where
  start : ℕ
  stop : ℕ
  placeholder : Option Str
deriving DecidableEq

structure UserMessageEvent where
  message : Str
  images : Option (List Str)
  textElements : List TextElement
  localImages : List Str
deriving DecidableEq

inductive CodexErrorInfo where
  | threadRollbackFailed
  | activeTurnNotSteerable
  | other
deriving DecidableEq

structure ErrorEvent where
  message : Str
  codexErrorInfo : Option CodexErrorInfo
deriving DecidableEq

def ErrorEvent.affectsTurnStatus (payload : ErrorEvent) : Bool :=
  payload.codexErrorInfo.all (· = .other)

/-- An event of a call carries the item that is built from it, and the turn it belongs to if
that is named. -/
inductive EventMsg where
  | userMessage (payload : UserMessageEvent)
  | agentMessage (message : Str)
  | agentReasoning (text : Str)
  | agentReasoningRawContent (text : Str)
  | call (turnId : Option Str) (id detail : Str)
  | contextCompacted
  | enteredReviewMode (userFacingHint : Option Str)
  | exitedReviewMode (overallExplanation : Option Str)
  | error (payload : ErrorEvent)
  | threadRolledBack (numTurns : UInt32)
  | turnAborted (turnId : Option Str) (completedAt durationMs : Option ℤ)
  | turnStarted (turnId : Str) (startedAt : Option ℤ)
  | turnComplete (turnId : Str) (completedAt durationMs : Option ℤ)
  | other
deriving DecidableEq

inductive RolloutItem where
  | sessionMeta
  | responseItem (item : ResponseItem)
  | compacted (compacted : CompactedItem)
  | turnContext (context : TurnContextItem)
  | eventMsg (event : EventMsg)
deriving DecidableEq

end CodexRs.Protocol
