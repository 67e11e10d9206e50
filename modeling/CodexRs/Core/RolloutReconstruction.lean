import CodexRs.Core.ContextManager

/-!
# Reconstruction of a history from a rollout

The rollout is scanned from its newest item back, turn by turn; a suffix of it is then replayed
forward. A compaction without a history of its own is replayed as the newest messages of the user
that fit into a budget, followed by the summary.
-/
namespace CodexRs.Core
open Text Protocol Utils

def summaryPrefix : Str :=
  ("Another language model started to solve this problem and produced a summary of its " ++
   "thinking process. You also have access to the state of the tools that were used by that " ++
   "language model. Use this to build on the work that has already been done and avoid " ++
   "duplicating work. Here is the summary produced by the other language model, use the " ++
   "information in this summary to assist with your own analysis:").toList

def isSummaryMessage (message : Str) : Bool := startsWith message (summaryPrefix ++ ['\n'])

def collectUserMessages (prims : Primitives) (items : List ResponseItem) : List Str :=
  items.filterMap fun item =>
    ((parseUserTurnItem prims item).map UserMessageItem.message).filter (!isSummaryMessage ·)

def compactUserMessageMaxTokens : ℕ := 20000

/-- The messages, newest first, until the budget is used up. -/
def selectMessages : ℕ → List Str → List Str
  | _, [] => []
  | remaining, message :: older =>
    if remaining = 0 then []
    else if approxTokenCount message ≤ remaining then
      message :: selectMessages (remaining - approxTokenCount message) older
    else [truncateText message (.tokens remaining)]

def userText (text : Str) : ResponseItem :=
  .message none "user".toList [.inputText text] none

def buildCompactedHistoryWithLimit (history : List ResponseItem) (userMessages : List Str)
    (summaryText : Str) (maxTokens : ℕ) : List ResponseItem :=
  let selectedMessages :=
    if 0 < maxTokens then (selectMessages maxTokens userMessages.reverse).reverse else []
  let summaryText := if summaryText = [] then "(no summary available)".toList else summaryText
  history ++ selectedMessages.map userText ++ [userText summaryText]

def buildCompactedHistory (initialContext : List ResponseItem) (userMessages : List Str)
    (summaryText : Str) : List ResponseItem :=
  buildCompactedHistoryWithLimit initialContext userMessages summaryText
    compactUserMessageMaxTokens

structure PreviousTurnSettings where
  model : Str
  realtimeActive : Option Bool

/-- The baseline of a span: none was seen, a compaction cleared it, or the newest one. -/
inductive TurnReferenceContextItem where
  | neverSet
  | cleared
  | latest (context : TurnContextItem)
deriving DecidableEq

structure ActiveReplaySegment where
  turnId : Option Str := none
  countsAsUserTurn : Bool := false
  previousTurnSettings : Option PreviousTurnSettings := none
  referenceContextItem : TurnReferenceContextItem := .neverSet
  baseReplacementHistory : Option (List ResponseItem) := none

def turnIdsAreCompatible (activeTurnId itemTurnId : Option Str) : Bool :=
  activeTurnId.all fun turnId => itemTurnId.all (· = turnId)

/-- The variables of the reverse scan. -/
structure ReplayScan where
  baseReplacementHistory : Option (List ResponseItem) := none
  previousTurnSettings : Option PreviousTurnSettings := none
  referenceContextItem : TurnReferenceContextItem := .neverSet
  pendingRollbackTurns : ℕ := 0
  rolloutSuffix : List RolloutItem
  activeSegment : Option ActiveReplaySegment := none

variable (segment : ActiveReplaySegment)

def finalizeActiveSegment (scan : ReplayScan) : ReplayScan :=
  if 0 < scan.pendingRollbackTurns then
    if segment.countsAsUserTurn then
      { scan with pendingRollbackTurns := scan.pendingRollbackTurns - 1 }
    else scan
  else
    { scan with
      baseReplacementHistory := scan.baseReplacementHistory.or segment.baseReplacementHistory
      previousTurnSettings :=
        if scan.previousTurnSettings = none ∧ segment.countsAsUserTurn = true then
          segment.previousTurnSettings
        else scan.previousTurnSettings
      referenceContextItem :=
        if scan.referenceContextItem = .neverSet ∧
            (segment.countsAsUserTurn = true ∨ segment.referenceContextItem = .cleared) then
          segment.referenceContextItem
        else scan.referenceContextItem }

namespace ActiveReplaySegment

def identify (turnId : Option Str) : ActiveReplaySegment :=
  if segment.turnId = none then { segment with turnId := turnId } else segment

def recordCompacted (compacted : CompactedItem) : ActiveReplaySegment :=
  { segment with
    referenceContextItem :=
      if segment.referenceContextItem = .neverSet then .cleared else segment.referenceContextItem
    baseReplacementHistory := segment.baseReplacementHistory.or compacted.replacementHistory }

def recordContext (context : TurnContextItem) : ActiveReplaySegment :=
  let segment := segment.identify context.turnId
  if turnIdsAreCompatible segment.turnId context.turnId then
    { segment with
      previousTurnSettings := some ⟨context.model, context.realtimeActive⟩
      referenceContextItem :=
        if segment.referenceContextItem = .neverSet then .latest context
        else segment.referenceContextItem }
  else segment

end ActiveReplaySegment

section
variable (prims : Primitives)

namespace ReplayScan
variable (scan : ReplayScan)

def updateSegment (update : ActiveReplaySegment → ActiveReplaySegment) : ReplayScan :=
  { scan with activeSegment := some (update (scan.activeSegment.getD {})) }

/-- One item of the scan, given the items behind it in the rollout. -/
def scanItem (newer : List RolloutItem) (scan : ReplayScan) : RolloutItem → ReplayScan
  | .compacted compacted =>
    let scan' := scan.updateSegment (·.recordCompacted compacted)
    if (scan.activeSegment.getD {}).baseReplacementHistory = none ∧
        compacted.replacementHistory.isSome = true then
      { scan' with rolloutSuffix := newer }
    else scan'
  | .eventMsg (.threadRolledBack numTurns) =>
    { scan with pendingRollbackTurns := scan.pendingRollbackTurns + numTurns.toNat }
  | .eventMsg (.turnComplete turnId _ _) => scan.updateSegment (·.identify (some turnId))
  | .eventMsg (.turnAborted turnId _ _) =>
    -- An abort without an identifier opens no segment.
    if scan.activeSegment = none ∧ turnId = none then scan
    else scan.updateSegment (·.identify turnId)
  | .eventMsg (.userMessage _) =>
    scan.updateSegment fun segment => { segment with countsAsUserTurn := true }
  | .turnContext context => scan.updateSegment (·.recordContext context)
  | .eventMsg (.turnStarted turnId _) =>
    match scan.activeSegment with
    | some segment =>
      if turnIdsAreCompatible segment.turnId (some turnId) then
        finalizeActiveSegment segment { scan with activeSegment := none }
      else scan
    | none => scan
  | .responseItem item =>
    scan.updateSegment fun segment =>
      { segment with
        countsAsUserTurn := segment.countsAsUserTurn || isUserTurnBoundary prims item }
  | .eventMsg _ | .sessionMeta => scan

def Complete : Prop :=
  scan.baseReplacementHistory ≠ none ∧ scan.previousTurnSettings ≠ none ∧
    scan.referenceContextItem ≠ .neverSet

instance (scan : ReplayScan) : Decidable scan.Complete :=
  inferInstanceAs (Decidable (_ ∧ _ ∧ _))

/-- The loop over the older items, newest first. -/
def scanBack : List RolloutItem → List RolloutItem → ReplayScan → ReplayScan
  | [], _, scan => scan
  | item :: older, newer, scan =>
    let scan := scanItem prims newer scan item
    if scan.Complete then scan else scanBack older (item :: newer) scan

/-- The segment that is still open when the scan ends. -/
def close : ReplayScan :=
  match scan.activeSegment with
  | some segment => finalizeActiveSegment segment { scan with activeSegment := none }
  | none => scan

end ReplayScan

def scanRollout (rolloutItems : List RolloutItem) : ReplayScan :=
  (ReplayScan.scanBack prims rolloutItems.reverse []
    { rolloutSuffix := rolloutItems }).close

end

structure RolloutReconstruction where
  history : List ResponseItem
  previousTurnSettings : Option PreviousTurnSettings
  referenceContextItem : Option TurnContextItem

variable (prims : Primitives) (truncationPolicy : TruncationPolicy)

structure Replay where
  history : ContextManager
  sawLegacyCompactionWithoutReplacementHistory : Bool

def replayItem (replay : Replay) : RolloutItem → Replay
  | .responseItem item =>
    { replay with history := replay.history.recordItems prims truncationPolicy [item] }
  | .compacted compacted =>
    match compacted.replacementHistory with
    | some replacementHistory =>
      { replay with history := replay.history.replace replacementHistory }
    | none =>
      { history := replay.history.replace (buildCompactedHistory []
          (collectUserMessages prims replay.history.items) compacted.message)
        sawLegacyCompactionWithoutReplacementHistory := true }
  | .eventMsg (.threadRolledBack numTurns) =>
    { replay with history := replay.history.dropLastNUserTurns prims numTurns }
  | _ => replay

def TurnReferenceContextItem.toOption : TurnReferenceContextItem → Option TurnContextItem
  | .neverSet | .cleared => none
  | .latest context => some context

/-- The forward replay of the suffix that a scan has left, from its base. -/
def ReplayScan.replay (scan : ReplayScan) : Replay :=
  let history := match scan.baseReplacementHistory with
    | some base => ContextManager.new.replace base
    | none => ContextManager.new
  scan.rolloutSuffix.foldl (replayItem prims truncationPolicy) ⟨history, false⟩

def reconstructHistoryFromRollout (rolloutItems : List RolloutItem) : RolloutReconstruction :=
  let scan := scanRollout prims rolloutItems
  let replay := scan.replay prims truncationPolicy
  { history := replay.history.items
    previousTurnSettings := scan.previousTurnSettings
    referenceContextItem :=
      if replay.sawLegacyCompactionWithoutReplacementHistory then none
      else scan.referenceContextItem.toOption }

end CodexRs.Core
