import CodexRs.Core.ReplayHistory
import CodexRs.Library.UndoStack

/-!
# Rollouts made of whole turns

Blocks from the start of a turn to its end, and rollbacks between them. The scan meets a turn from
its end, and finalizes it as one segment when it comes to its start.
-/
namespace CodexRs.Core
open Text Protocol Checkpoint UndoStack ActiveReplaySegment List

/-- What may stand between the start and the end of a turn. -/
def isTurnItem : RolloutItem → Bool
  | .eventMsg (.threadRolledBack _) | .eventMsg (.turnStarted _ _)
  | .eventMsg (.turnComplete _ _ _) => false
  | _ => true

def responseOf : RolloutItem → Option ResponseItem
  | .responseItem item => some item
  | _ => none

inductive TurnEnd where
  | complete
  | aborted

structure TurnBlock where
  id : Str
  startedAt : Option ℤ := none
  body : List RolloutItem
  ending : TurnEnd := .complete
  completedAt : Option ℤ := none
  durationMs : Option ℤ := none
  turnItems : ∀ item ∈ body, isTurnItem item = true

namespace TurnBlock
variable (block : TurnBlock)

def endEvent : EventMsg :=
  match block.ending with
  | .complete => .turnComplete block.id block.completedAt block.durationMs
  | .aborted => .turnAborted (some block.id) block.completedAt block.durationMs

def items : List RolloutItem :=
  .eventMsg (.turnStarted block.id block.startedAt) :: block.body ++ [.eventMsg block.endEvent]

def responseItems : List ResponseItem := block.body.filterMap responseOf

end TurnBlock

/-- Blocks may come with more that is known of them. -/
inductive RolloutPart (β : Type*) where
  | turn (block : β)
  | rolledBack (numTurns : UInt32)

namespace RolloutPart
variable {β γ : Type*}

def map (f : β → γ) : RolloutPart β → RolloutPart γ
  | .turn block => .turn (f block)
  | .rolledBack numTurns => .rolledBack numTurns

def entry : RolloutPart β → Entry β
  | .turn block => .push block
  | .rolledBack numTurns => .undo numTurns.toNat

def items : RolloutPart TurnBlock → List RolloutItem
  | .turn block => block.items
  | .rolledBack numTurns => [.eventMsg (.threadRolledBack numTurns)]

end RolloutPart

def partItems (parts : List (RolloutPart TurnBlock)) : List RolloutItem :=
  parts.flatMap RolloutPart.items

def isLegacyCompaction : RolloutItem → Bool
  | .compacted ⟨_, none⟩ => true
  | _ => false

variable (items : List RolloutItem)

/-- Every compaction comes with the history that replaces the old one. -/
def CarriesHistories : Prop :=
  ∀ item ∈ items, isLegacyCompaction item = false

instance (items : List RolloutItem) : Decidable (CarriesHistories items) :=
  List.decidableBAll _ items

section
variable (prims : Primitives)

/-- What an item of a turn adds to the segment of the turn. -/
def ActiveReplaySegment.absorb (item : RolloutItem) (segment : ActiveReplaySegment) :
    ActiveReplaySegment :=
  match item with
  | .compacted compacted => segment.recordCompacted compacted
  | .turnContext context => segment.recordContext context
  | .responseItem item =>
    { segment with
      countsAsUserTurn := segment.countsAsUserTurn || isUserTurnBoundary prims item }
  | .eventMsg (.userMessage _) => { segment with countsAsUserTurn := true }
  | _ => segment

/-- The segment of a turn when its start is met. -/
def TurnBlock.segment (block : TurnBlock) : ActiveReplaySegment :=
  block.body.foldr (ActiveReplaySegment.absorb prims) { turnId := some block.id }

end

namespace ActiveReplaySegment
variable {prims : Primitives} {segment : ActiveReplaySegment} {id : Str}

theorem identify_of_turnId
    (h : segment.turnId = some id) (turnId : Option Str) : segment.identify turnId = segment := by
  simp [identify, h]

theorem recordContext_of_turnId (h : segment.turnId = some id) (context : TurnContextItem) :
    segment.recordContext context =
      if context.turnId.all (· = id) then
        { segment with
          previousTurnSettings := some ⟨context.model, context.realtimeActive⟩
          referenceContextItem := if segment.referenceContextItem = .neverSet then .latest context
            else segment.referenceContextItem }
      else segment := by
  rw [recordContext, identify_of_turnId h]
  simp [turnIdsAreCompatible, h]

theorem absorb_turnId (h : segment.turnId = some id)
    (item : RolloutItem) : (segment.absorb prims item).turnId = some id := by
  cases item with
  | turnContext context =>
    rw [absorb, recordContext_of_turnId h]
    split_ifs <;> exact h
  | eventMsg event => cases event <;> exact h
  | _ => exact h

theorem absorb_base (segment : ActiveReplaySegment) (item : RolloutItem) :
    (segment.absorb prims item).baseReplacementHistory =
      segment.baseReplacementHistory.or (carriedHistory item) := by
  cases item with
  | turnContext context => simp [absorb, carriedHistory]
  | eventMsg event => cases event <;> simp [absorb, carriedHistory]
  | _ => simp [absorb, carriedHistory, recordCompacted]

theorem foldr_absorb_turnId (h : segment.turnId = some id) (items : List RolloutItem) :
    (items.foldr (absorb prims) segment).turnId = some id := by
  induction items with
  | nil => exact h
  | cons item items ih => exact absorb_turnId ih item

end ActiveReplaySegment

namespace ReplayScan

variable (prims : Primitives) (newer : List RolloutItem) {scan : ReplayScan}

/-- The scan with the segment of a turn open. -/
def inTurn (scan : ReplayScan) (segment : ActiveReplaySegment) (suffix : List RolloutItem) :
    ReplayScan :=
  { scan with activeSegment := some segment, rolloutSuffix := suffix }

variable {segment : ActiveReplaySegment} {id : Str}

/-- An item inside a turn changes the open segment, and a compaction with a history that is
the newest of the segment moves the suffix behind it. -/
theorem scanItem_inTurn {item : RolloutItem}
    (hid : segment.turnId = some id) (hitem : isTurnItem item = true) (scan : ReplayScan)
    (suffix : List RolloutItem) :
    (scan.inTurn segment suffix).scanItem prims newer item = scan.inTurn (segment.absorb prims item)
        (if segment.baseReplacementHistory = none ∧ carriedHistory item ≠ none then newer
          else suffix) := by
  have hidentify := identify_of_turnId hid
  cases item with
  | compacted compacted =>
    by_cases hopen : segment.baseReplacementHistory = none <;>
      by_cases hcarried : compacted.replacementHistory = none <;>
      simp [scanItem, inTurn, updateSegment, carriedHistory, absorb, hopen,
        hcarried, Option.isSome_iff_ne_none]
  | eventMsg event =>
    cases event with
    | threadRolledBack numTurns => cases hitem
    | turnStarted turnId startedAt => cases hitem
    | turnComplete turnId completedAt durationMs => cases hitem
    | _ =>
      simp [scanItem, inTurn, updateSegment, carriedHistory, absorb, hidentify]
  | _ => simp [scanItem, inTurn, updateSegment, carriedHistory, absorb]

/-- Where the suffix starts when the items of a turn have been scanned: behind the newest
compaction with a history, if there is one. -/
def suffixBehind (items newer suffix : List RolloutItem) : List RolloutItem :=
  ((newest carriedHistory items).map (·.2 ++ newer)).getD suffix

theorem suffixBehind_concat (item : RolloutItem) (newer suffix : List RolloutItem) :
    suffixBehind (items ++ [item]) newer suffix =
      if carriedHistory item = none then suffixBehind items (item :: newer) suffix else newer := by
  unfold suffixBehind
  rw [newest_append]
  cases hitem : carriedHistory item with
  | none =>
    cases newest carriedHistory items <;> simp [newest, hitem]
  | some history => simp [newest, hitem]

variable {prims newer}

theorem scanBack_cons {item : RolloutItem} {older : List RolloutItem}
    (h : ¬ (scan.scanItem prims newer item).Complete) :
    scanBack prims (item :: older) newer scan =
      scanBack prims older (item :: newer) (scan.scanItem prims newer item) := by
  rw [scanBack, if_neg h]

theorem scanBack_inTurn {body older : List RolloutItem}
    (hbody : ∀ item ∈ body, isTurnItem item = true) (hid : segment.turnId = some id)
    (hopen : ¬ scan.Complete) (suffix : List RolloutItem) :
    scanBack prims (body.reverse ++ older) newer (scan.inTurn segment suffix) =
      scanBack prims older (body ++ newer) (scan.inTurn (body.foldr (absorb prims) segment)
          (if segment.baseReplacementHistory = none then suffixBehind body newer suffix
            else suffix)) := by
  -- The scan meets the last item of the body first.
  induction body using reverseRecOn generalizing newer segment suffix with
  | nil => simp [suffixBehind, newest]
  | append_singleton body item ih =>
    have hitem := scanItem_inTurn prims newer hid (hbody item (by simp)) scan suffix
    have hbody' : ∀ i ∈ body, isTurnItem i = true := fun i hi => hbody i (by simp [hi])
    rw [reverse_append, reverse_singleton, cons_append, List.nil_append,
      cons_append, scanBack_cons (by rw [hitem]; exact hopen), hitem,
      ih hbody' (absorb_turnId hid item), foldr_append, foldr_cons,
      foldr_nil, append_assoc, singleton_append, absorb_base,
      suffixBehind_concat]
    congr 2
    cases segment.baseReplacementHistory <;> cases carriedHistory item <;> simp

theorem scanItem_turnStarted (hid : segment.turnId = some id) (suffix : List RolloutItem)
    (startedAt : Option ℤ) :
    (scan.inTurn segment suffix).scanItem prims newer (.eventMsg (.turnStarted id startedAt)) =
      finalizeActiveSegment segment
        { scan with activeSegment := none, rolloutSuffix := suffix } := by
  have hstart : turnIdsAreCompatible segment.turnId (some id) = true := by
    simp [turnIdsAreCompatible, hid]
  exact if_pos hstart

/-- A whole turn is finalized as one segment. -/
theorem scanBack_turn (block : TurnBlock) (older : List RolloutItem)
    (hactive : scan.activeSegment = none) (hopen : ¬ scan.Complete) :
    scanBack prims (block.items.reverse ++ older) newer scan =
      let scan' := finalizeActiveSegment (block.segment prims)
        { scan with
          rolloutSuffix := suffixBehind block.body
            (.eventMsg block.endEvent :: newer) scan.rolloutSuffix }
      if scan'.Complete then scan' else scanBack prims older (block.items ++ newer) scan' := by
  have hid : (block.segment prims).turnId = some block.id := foldr_absorb_turnId rfl block.body
  have hended : scan.scanItem prims newer (.eventMsg block.endEvent) =
      scan.inTurn { turnId := some block.id } scan.rolloutSuffix := by
    cases hending : block.ending <;>
      simp [TurnBlock.endEvent, hending, scanItem, updateSegment, hactive, inTurn, identify]
  rw [TurnBlock.items, reverse_append, reverse_singleton, reverse_cons,
    append_assoc, append_assoc, singleton_append, singleton_append,
    scanBack_cons (by rw [hended]; exact hopen), hended,
    scanBack_inTurn block.turnItems rfl hopen, if_pos rfl, ← TurnBlock.segment, scanBack,
    scanItem_turnStarted hid, ← hactive]
  simp

theorem scanBack_rolledBack (numTurns : UInt32) (older : List RolloutItem)
    (hopen : ¬ scan.Complete) :
    scanBack prims (.eventMsg (.threadRolledBack numTurns) :: older) newer scan =
      scanBack prims older (.eventMsg (.threadRolledBack numTurns) :: newer)
        { scan with pendingRollbackTurns := scan.pendingRollbackTurns + numTurns.toNat } :=
  scanBack_cons hopen

end ReplayScan

end CodexRs.Core
