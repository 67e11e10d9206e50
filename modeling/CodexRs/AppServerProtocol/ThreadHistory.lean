import CodexRs.Core.ContextManager

/-!
# The displayed history of a thread

A turn is opened by its start, or by the first thing to show where no turn is open.
-/
namespace CodexRs.AppServerProtocol
open Text Protocol CodexRs.Core

inductive UserInput where
  | text (text : Str) (textElements : List TextElement)
  | image (url : Str)
  | localImage (path : Str)
deriving DecidableEq

/-- All but the messages are known by their id and by what is shown of them. -/
inductive ThreadItem where
  | userMessage (id : Str) (content : List UserInput)
  | hookPrompt (id : Str) (fragments : List HookPromptFragment)
  | agentMessage (id : Str) (text : Str)
  | reasoning (id : Str) (summary content : List Str)
  | contextCompaction (id : Str)
  | enteredReviewMode (id : Str) (review : Str)
  | exitedReviewMode (id : Str) (review : Str)
  | call (id : Str) (detail : Str)

def ThreadItem.id : ThreadItem → Str
  | .userMessage id _ | .hookPrompt id _ | .agentMessage id _ | .reasoning id _ _
  | .contextCompaction id | .enteredReviewMode id _ | .exitedReviewMode id _ | .call id _ => id

inductive TurnStatus where
  | completed
  | interrupted
  | failed
  | inProgress
deriving DecidableEq

structure Turn where
  id : Str
  items : List ThreadItem
  error : Option ErrorEvent
  status : TurnStatus
  startedAt : Option ℤ
  completedAt : Option ℤ
  durationMs : Option ℤ

structure PendingTurn extends Turn where
  openedExplicitly : Bool
  sawCompaction : Bool
  rolloutStartIndex : ℕ

def Turn.abort (turn : Turn) (completedAt durationMs : Option ℤ) : Turn :=
  { turn with status := .interrupted, completedAt, durationMs }

def Turn.markCompleted (turn : Turn) (completedAt durationMs : Option ℤ) : Turn :=
  { turn with
    status := if turn.status = .completed ∨ turn.status = .inProgress then .completed
      else turn.status
    completedAt, durationMs }

def upsertTurnItem (item : ThreadItem) : List ThreadItem → List ThreadItem
  | [] => [item]
  | existing :: items =>
    if existing.id = item.id then item :: items else existing :: upsertTurnItem item items

/-- The first turn with an id is changed. -/
def updateTurn (turnId : Str) (f : Turn → Turn) : List Turn → List Turn
  | [] => []
  | turn :: turns => if turn.id = turnId then f turn :: turns else turn :: updateTurn turnId f turns

structure ThreadHistoryBuilder where
  turns : List Turn
  currentTurn : Option PendingTurn
  nextItemIndex : ℕ
  currentRolloutIndex : ℕ
  nextRolloutIndex : ℕ

namespace ThreadHistoryBuilder

def new : ThreadHistoryBuilder := ⟨[], none, 1, 0, 0⟩

variable (prims : Primitives) (uuid : ℕ → Str) (b : ThreadHistoryBuilder)

def finishCurrentTurn : ThreadHistoryBuilder :=
  match b.currentTurn with
  | none => b
  | some turn =>
    if turn.items = [] ∧ ¬ turn.openedExplicitly ∧ ¬ turn.sawCompaction then
      { b with currentTurn := none }
    else { b with turns := b.turns ++ [turn.toTurn], currentTurn := none }

/-- Without an id of its own a turn is named after its place in the rollout, if there is one. -/
def newTurn (id : Option Str) : PendingTurn where
  id := id.getD (if b.nextRolloutIndex = 0 then uuid b.nextItemIndex
    else "rollout-".toList ++ (Nat.repr b.currentRolloutIndex).toList)
  items := []
  error := none
  status := .completed
  startedAt := none
  completedAt := none
  durationMs := none
  openedExplicitly := false
  sawCompaction := false
  rolloutStartIndex := b.currentRolloutIndex

def ensureTurn : PendingTurn := b.currentTurn.getD (b.newTurn uuid none)

def itemId (index : ℕ) : Str := "item-".toList ++ (Nat.repr index).toList

/-- Puts an item with a new id at the end of the open turn. -/
def pushItem (item : Str → ThreadItem) : ThreadHistoryBuilder :=
  let turn := b.ensureTurn uuid
  { b with
    nextItemIndex := b.nextItemIndex + 1
    currentTurn := some { turn with items := turn.items ++ [item (itemId b.nextItemIndex)] } }

variable (payload : UserMessageEvent)

def buildUserInputs : List UserInput :=
  (if trim payload.message = [] then [] else [.text payload.message payload.textElements]) ++
    (payload.images.getD []).map .image ++ payload.localImages.map .localImage

/-- Messages stay in turns that were opened by their start; others are closed first. -/
def handleUserMessage : ThreadHistoryBuilder :=
  let b := match b.currentTurn with
    | some turn =>
      if ¬ turn.openedExplicitly ∧ ¬ (turn.sawCompaction ∧ turn.items = []) then
        b.finishCurrentTurn
      else b
    | none => b
  b.pushItem uuid (.userMessage · (buildUserInputs payload))

variable (text : Str)

def handleAgentMessage : ThreadHistoryBuilder :=
  if text = [] then b else b.pushItem uuid (.agentMessage · text)

/-- Text of a reasoning joins the newest item if that is a reasoning. -/
def joinReasoning (extend : ThreadItem → Option ThreadItem)
    (item : Str → ThreadItem) : ThreadHistoryBuilder :=
  if text = [] then b
  else
    let turn := b.ensureTurn uuid
    match turn.items.getLast?.bind extend with
    | some last =>
      { b with currentTurn := some { turn with items := turn.items.dropLast ++ [last] } }
    | none => b.pushItem uuid item

def handleAgentReasoning : ThreadHistoryBuilder :=
  b.joinReasoning uuid text
    (fun
      | .reasoning id summary content => some (.reasoning id (summary ++ [text]) content)
      | _ => none)
    (.reasoning · [text] [])

def handleAgentReasoningRawContent : ThreadHistoryBuilder :=
  b.joinReasoning uuid text
    (fun
      | .reasoning id summary content => some (.reasoning id summary (content ++ [text]))
      | _ => none)
    (.reasoning · [] [text])

variable (turnId : Str)

def upsertItemInTurnId (item : ThreadItem) : ThreadHistoryBuilder :=
  let inTurns := { b with
    turns := updateTurn turnId (fun turn => { turn with items := upsertTurnItem item turn.items })
      b.turns }
  match b.currentTurn with
  | some turn =>
    if turn.id = turnId then
      { b with currentTurn := some { turn with items := upsertTurnItem item turn.items } }
    else inTurns
  | none => inTurns

def upsertItemInCurrentTurn (item : ThreadItem) : ThreadHistoryBuilder :=
  let turn := b.ensureTurn uuid
  { b with currentTurn := some { turn with items := upsertTurnItem item turn.items } }

def handleCall (turnId : Option Str) (item : ThreadItem) : ThreadHistoryBuilder :=
  match turnId with
  | none => b.upsertItemInCurrentTurn uuid item
  | some turnId => b.upsertItemInTurnId turnId item

def reviewFallbackMessage : Str := "Reviewer failed to output a response.".toList

def renderReviewOutputText (overallExplanation : Str) : Str :=
  if trim overallExplanation = [] then reviewFallbackMessage else trim overallExplanation

def handleError (payload : ErrorEvent) : ThreadHistoryBuilder :=
  if payload.affectsTurnStatus then
    { b with currentTurn := b.currentTurn.map fun turn =>
      { turn with status := .failed, error := some payload } }
  else b

def handleTurnAborted (turnId : Option Str) (completedAt durationMs : Option ℤ) :
    ThreadHistoryBuilder :=
  let abortCurrent := { b with currentTurn := b.currentTurn.map fun turn =>
    { turn with toTurn := turn.toTurn.abort completedAt durationMs } }
  match turnId with
  | none => abortCurrent
  | some turnId =>
    if b.currentTurn.any (·.id = turnId) then abortCurrent
    else if b.turns.any (·.id = turnId) then
      { b with turns := updateTurn turnId (·.abort completedAt durationMs) b.turns }
    else abortCurrent

def handleTurnStarted (startedAt : Option ℤ) : ThreadHistoryBuilder :=
  let b := b.finishCurrentTurn
  { b with currentTurn := some { b.newTurn uuid (some turnId) with
    status := .inProgress, startedAt, openedExplicitly := true } }

def handleTurnComplete (completedAt durationMs : Option ℤ) : ThreadHistoryBuilder :=
  let completeCurrent := finishCurrentTurn { b with currentTurn := b.currentTurn.map fun turn =>
    { turn with toTurn := turn.toTurn.markCompleted completedAt durationMs } }
  if b.currentTurn.any (·.id = turnId) then completeCurrent
  else if b.turns.any (·.id = turnId) then
    { b with turns := updateTurn turnId (·.markCompleted completedAt durationMs) b.turns }
  else completeCurrent

def handleThreadRollback (numTurns : UInt32) : ThreadHistoryBuilder :=
  let b := b.finishCurrentTurn
  let turns := if b.turns.length ≤ numTurns.toNat then []
    else b.turns.take (b.turns.length - numTurns.toNat)
  { b with turns, nextItemIndex := (turns.map (·.items.length)).sum + 1 }

def handleEvent : EventMsg → ThreadHistoryBuilder
  | .userMessage payload => b.handleUserMessage uuid payload
  | .agentMessage message => b.handleAgentMessage uuid message
  | .agentReasoning text => b.handleAgentReasoning uuid text
  | .agentReasoningRawContent text => b.handleAgentReasoningRawContent uuid text
  | .call turnId id detail => b.handleCall uuid turnId (.call id detail)
  | .contextCompacted => b.pushItem uuid .contextCompaction
  | .enteredReviewMode userFacingHint =>
    b.pushItem uuid (.enteredReviewMode · (userFacingHint.getD "Review requested.".toList))
  | .exitedReviewMode overallExplanation =>
    b.pushItem uuid (.exitedReviewMode ·
      ((overallExplanation.map renderReviewOutputText).getD reviewFallbackMessage))
  | .error payload => b.handleError payload
  | .threadRolledBack numTurns => b.handleThreadRollback numTurns
  | .turnAborted turnId completedAt durationMs =>
    b.handleTurnAborted turnId completedAt durationMs
  | .turnStarted turnId startedAt => b.handleTurnStarted uuid turnId startedAt
  | .turnComplete turnId completedAt durationMs =>
    b.handleTurnComplete turnId completedAt durationMs
  | .other => b

def parseHookPromptContent : ContentItem → Option HookPromptFragment
  | .inputText text => parseHookPromptFragment prims text
  | _ => none

/-- A message that has nothing but hook prompts. -/
def parseHookPromptMessage (content : List ContentItem) : Option (List HookPromptFragment) :=
  (content.mapM (parseHookPromptContent prims)).filter (· ≠ [])

def handleResponseItem : ResponseItem → ThreadHistoryBuilder
  | .message id role content _ =>
    if role = "user".toList then
      match parseHookPromptMessage prims content with
      | some fragments =>
        let turn := b.ensureTurn uuid
        let item := ThreadItem.hookPrompt (id.getD (uuid b.currentRolloutIndex)) fragments
        { b with currentTurn := some { turn with items := turn.items ++ [item] } }
      | none => b
    else b
  | _ => b

def handleCompacted : ThreadHistoryBuilder :=
  { b with currentTurn := some { b.ensureTurn uuid with sawCompaction := true } }

def handleRolloutItem (item : RolloutItem) : ThreadHistoryBuilder :=
  let b := { b with
    currentRolloutIndex := b.nextRolloutIndex
    nextRolloutIndex := b.nextRolloutIndex + 1 }
  match item with
  | .eventMsg event => b.handleEvent uuid event
  | .compacted _ => b.handleCompacted uuid
  | .responseItem item => b.handleResponseItem prims uuid item
  | .turnContext _ | .sessionMeta => b

def finish : List Turn := b.finishCurrentTurn.turns

end ThreadHistoryBuilder

def buildTurnsFromRolloutItems (prims : Primitives) (uuid : ℕ → Str) (items : List RolloutItem) :
    List Turn :=
  (items.foldl (ThreadHistoryBuilder.handleRolloutItem prims uuid)
    ThreadHistoryBuilder.new).finish

end CodexRs.AppServerProtocol
