import CodexRs.Core.DropTurns
import CodexRs.Core.ResumeMetadata

/-!
# A turn that is rolled back

A compaction moves the start of the replay into the turn before the scan knows that the turn is
dropped.
-/
namespace CodexRs.Core
open Text Protocol Utils Checkpoint List ReplayScan TurnBlock

def isCompacted : RolloutItem → Bool
  | .compacted _ => true
  | _ => false

/-- The identifiers of the turns of a rollout. -/
def turnIds (parts : List (RolloutPart TurnBlock)) : List Str :=
  parts.filterMap fun
    | .turn block => some block.id
    | .rolledBack _ => none

/-- The end of a turn and its rollback. -/
def TurnBlock.rolledBackEnd (turn : TurnBlock) : List RolloutItem :=
  [.eventMsg turn.endEvent, .eventMsg (.threadRolledBack 1)]

/-- The items of a turn and of its rollback. -/
def TurnBlock.rolledBack (turn : TurnBlock) : List RolloutItem :=
  turn.items ++ [.eventMsg (.threadRolledBack 1)]

theorem carriedHistory_of_not_compacted {item : RolloutItem} (h : isCompacted item = false) :
    carriedHistory item = none := by
  cases item with
  | compacted compacted => cases h
  | _ => rfl

namespace ReplayScan

/-- The scan of a rollout with more items at its end. -/
def extend (scan : ReplayScan) (tail : List RolloutItem) : ReplayScan :=
  { scan with rolloutSuffix := scan.rolloutSuffix ++ tail }

variable (prims : Primitives) (scan : ReplayScan) (tail newer : List RolloutItem)

theorem finalize_extend (segment : ActiveReplaySegment) :
    finalizeActiveSegment segment (scan.extend tail) =
      (finalizeActiveSegment segment scan).extend tail := by
  unfold finalizeActiveSegment extend
  split_ifs <;> rfl

theorem scanItem_extend (item : RolloutItem) :
    (scan.extend tail).scanItem prims (newer ++ tail) item =
      (scan.scanItem prims newer item).extend tail := by
  cases item with
  | compacted compacted =>
    by_cases hnewest : (scan.activeSegment.getD {}).baseReplacementHistory = none ∧
        compacted.replacementHistory.isSome = true
    · rw [scanItem, scanItem, if_pos hnewest, if_pos (by exact hnewest)]
      rfl
    · rw [scanItem, scanItem, if_neg hnewest, if_neg (by exact hnewest)]
      rfl
  | eventMsg event =>
    cases event with
    | turnAborted turnId completedAt durationMs =>
      by_cases hignored : scan.activeSegment = none ∧ turnId = none
      · rw [scanItem, scanItem, if_pos hignored, if_pos (by exact hignored)]
      · rw [scanItem, scanItem, if_neg hignored, if_neg (by exact hignored)]
        rfl
    | turnStarted turnId startedAt =>
      obtain ⟨base, previous, reference, pending, suffix, active⟩ := scan
      cases active with
      | none => rfl
      | some segment =>
        simp only [scanItem, extend]
        split_ifs
        · exact finalize_extend ⟨base, previous, reference, pending, suffix, none⟩ tail segment
        · rfl
    | _ => rfl
  | _ => rfl

theorem scanBack_extend (older : List RolloutItem) :
    scanBack prims older (newer ++ tail) (scan.extend tail) =
      (scanBack prims older newer scan).extend tail := by
  induction older generalizing newer scan with
  | nil => rfl
  | cons item older ih =>
    rw [scanBack, scanBack, scanItem_extend]
    by_cases hcomplete : (scan.scanItem prims newer item).Complete
    · rw [if_pos hcomplete, if_pos (by exact hcomplete)]
    · rw [if_neg hcomplete, if_neg (by exact hcomplete), ← cons_append, ih]

theorem close_extend : (scan.extend tail).close = scan.close.extend tail := by
  obtain ⟨base, previous, reference, pending, suffix, active⟩ := scan
  cases active with
  | none => rfl
  | some segment =>
    exact finalize_extend ⟨base, previous, reference, pending, suffix, none⟩ tail segment

theorem replay_extend (policy : TruncationPolicy) : (scan.extend tail).replay prims policy =
      tail.foldl (replayItem prims policy) (scan.replay prims policy) :=
  foldl_append

end ReplayScan

section
variable {prims : Primitives} {turn : TurnBlock}

theorem isUserTurn_of_isOneTurn (h : isOneTurn prims turn.responseItems = true) :
    turn.isUserTurn prims = true := by
  obtain ⟨first, rest, hitems, hfirst, -⟩ := isOneTurn_iff.mp h
  have hmem : first ∈ turn.responseItems := by simp [hitems]
  obtain ⟨item, hitem, hresponse⟩ := mem_filterMap.mp hmem
  apply any_eq_true.mpr
  refine ⟨item, hitem, ?_⟩
  cases item with
  | responseItem item =>
    cases hresponse
    exact hfirst
  | _ => cases hresponse

theorem finalize_dropped (huser : turn.isUserTurn prims = true) (suffix : List RolloutItem) :
    finalizeActiveSegment (turn.segment prims)
        { pendingRollbackTurns := 1, rolloutSuffix := suffix } =
      { rolloutSuffix := suffix } := by
  simp [finalizeActiveSegment, segment_counts, huser]

variable (items : List RolloutItem)

/-- The scan comes to the items before a turn that is rolled back as if it had just begun,
but for the suffix. -/
theorem scanRollout_rolledBack (huser : turn.isUserTurn prims = true) :
    scanRollout prims (items ++ turn.rolledBack) = (scanBack prims items.reverse turn.rolledBack
        { rolloutSuffix := suffixBehind turn.body turn.rolledBackEnd
            (items ++ turn.rolledBack) }).close := by
  have hopen (scan : ReplayScan) (hbase : scan.baseReplacementHistory = none) :
      ¬ scan.Complete := fun hcomplete => hcomplete.1 hbase
  rw [scanRollout, reverse_append, rolledBack, reverse_append,
    reverse_singleton, append_assoc, singleton_append,
    scanBack_rolledBack 1 _ (hopen _ rfl), scanBack_turn turn _ rfl (hopen _ rfl)]
  rw [show (0 : ℕ) + (1 : UInt32).toNat = 1 from rfl, finalize_dropped huser]
  rfl

/-- Without a compaction in the turn, only the end of the suffix tells the two scans apart. -/
theorem scanRollout_rolledBack_of_not_compacted
    (huser : turn.isUserTurn prims = true) (hbody : ∀ item ∈ turn.body, isCompacted item = false) :
    scanRollout prims (items ++ turn.rolledBack) =
      (scanRollout prims items).extend turn.rolledBack := by
  have hnone : newest carriedHistory turn.body = none :=
    newest_eq_none.mpr fun item hitem => carriedHistory_of_not_compacted (hbody item hitem)
  have hextend := scanBack_extend prims { rolloutSuffix := items }
    turn.rolledBack [] items.reverse
  rw [scanRollout_rolledBack items huser, suffixBehind, hnone, scanRollout,
    ← close_extend, ← hextend]
  rfl

end

section
variable {prims : Primitives} {policy : TruncationPolicy} {turn : TurnBlock}

theorem foldl_replayItem_responses (replay : Replay) (body : List RolloutItem)
    (hturn : ∀ item ∈ body, isTurnItem item = true)
    (hbody : ∀ item ∈ body, isCompacted item = false) :
    body.foldl (replayItem prims policy) replay = { replay with
        history := replay.history.recordItems prims policy (body.filterMap responseOf) } := by
  induction body generalizing replay with
  | nil => simp [ContextManager.recordItems]
  | cons item body ih =>
    rw [foldl_cons, ih _ (fun i hi => hturn i (mem_cons_of_mem _ hi))
      fun i hi => hbody i (mem_cons_of_mem _ hi)]
    have hitem := hturn item mem_cons_self
    have hplain := hbody item mem_cons_self
    cases item with
    | responseItem item =>
      have hresponse : responseOf (.responseItem item) = some item := rfl
      rw [filterMap_cons_some hresponse, replayItem, recordItems_recordItems, singleton_append]
    | compacted compacted => cases hplain
    | eventMsg event => cases event <;> first | rfl | cases hitem
    | _ => rfl

/-- Replaying a turn and its rollback leaves the history as it was. -/
theorem foldl_replayItem_rolledBack (replay : Replay)
    (hturn : isOneTurn prims turn.responseItems = true)
    (hbody : ∀ item ∈ turn.body, isCompacted item = false)
    (hhistory : endsInContext prims replay.history.items = false) :
    turn.rolledBack.foldl (replayItem prims policy) replay = replay := by
  have hdrop : (replay.history.recordItems prims policy turn.responseItems).dropLastNUserTurns
      prims 1 = replay.history :=
    dropLastNUserTurns_one rfl (isOneTurn_record hturn) hhistory
  have hend (replay : Replay) : replayItem prims policy replay (.eventMsg turn.endEvent) = replay := by
    cases hending : turn.ending <;> simp [endEvent, hending, replayItem]
  calc turn.rolledBack.foldl (replayItem prims policy) replay
      = replayItem prims policy (turn.body.foldl (replayItem prims policy) replay)
          (.eventMsg (.threadRolledBack 1)) := by
        simp only [rolledBack, items, cons_append, foldl_append, foldl_cons, foldl_nil, hend]
        rfl
    _ = replay := by
        rw [foldl_replayItem_responses replay turn.body turn.turnItems hbody, replayItem,
          ← responseItems, hdrop]

end

/-- Whatever conversation of whole turns came before it, the rollback of the turn restores it. -/
def RollbackRestores (prims : Primitives) (policy : TruncationPolicy) (turn : TurnBlock) : Prop :=
  ∀ parts : List (RolloutPart TurnBlock), CarriesHistories (partItems parts) →
    (turnIds (parts ++ [.turn turn])).Nodup →
    endsInContext prims
      (reconstructHistoryFromRollout prims policy (partItems parts)).history = false →
    reconstructHistoryFromRollout prims policy (partItems parts ++ turn.rolledBack) =
      reconstructHistoryFromRollout prims policy (partItems parts)

section
variable {prims : Primitives} {policy : TruncationPolicy} {turn : TurnBlock}

theorem carriedHistory_ne_none {item : RolloutItem} (hcompacted : isCompacted item = true)
    (hcarries : isLegacyCompaction item = false) : carriedHistory item ≠ none := by
  cases item with
  | compacted compacted =>
    obtain ⟨message, _ | replacement⟩ := compacted
    · cases hcarries
    · exact Option.some_ne_none replacement
  | _ => cases hcompacted

def assistantText (text : Str) : ResponseItem :=
  .message none "assistant".toList [.outputText text] none

variable (id text : Str)

/-- A turn with one message of the assistant. -/
def plainTurn : TurnBlock where
  id := id
  body := [.responseItem (assistantText text)]
  turnItems := forall_mem_singleton.mpr rfl

/-- The scan of such a turn moves neither the base nor the suffix. -/
theorem scanBack_plainTurn (prims : Primitives) (id text : Str) (newer suffix : List RolloutItem) :
    ∃ previous reference,
      (scanBack prims (plainTurn id text).items.reverse newer { rolloutSuffix := suffix }).close =
        { previousTurnSettings := previous
          referenceContextItem := reference
          rolloutSuffix := suffix } := by
  have hopen : ¬ Complete { rolloutSuffix := suffix } := fun hcomplete =>
    hcomplete.1 rfl
  have hscan : scanBack prims (plainTurn id text).items.reverse newer
      { rolloutSuffix := suffix } =
        finalizeActiveSegment ((plainTurn id text).segment prims) { rolloutSuffix := suffix } := by
    rw [← append_nil (plainTurn id text).items.reverse,
      scanBack_turn (plainTurn id text) [] rfl hopen]
    exact ite_self _
  rw [hscan, close]
  exact ⟨_, _, rfl⟩

theorem reconstruct_plainTurn :
    (reconstructHistoryFromRollout prims policy (plainTurn id text).items).history =
      [assistantText text] := by
  obtain ⟨previous, reference, hscan⟩ :=
    scanBack_plainTurn prims id text [] (plainTurn id text).items
  rw [reconstructHistoryFromRollout, scanRollout, hscan]
  rfl

variable {carried : List ResponseItem} {rest : List RolloutItem}

/-- The replay starts in the turn that is dropped, and nothing older is replayed. -/
theorem reconstruct_compacted_rolledBack (huser : turn.isUserTurn prims = true)
    (hnewest : newest carriedHistory turn.body = some (carried, rest)) :
    (reconstructHistoryFromRollout prims policy
        ((plainTurn id text).items ++ turn.rolledBack)).history =
      ((rest ++ turn.rolledBackEnd).foldl
        (replayItem prims policy) ⟨.new, false⟩).history.items := by
  have hdropped := scanRollout_rolledBack (plainTurn id text).items huser
  rw [suffixBehind, hnewest] at hdropped
  obtain ⟨previous, reference, hscan⟩ := scanBack_plainTurn prims id text
    turn.rolledBack (rest ++ turn.rolledBackEnd)
  rw [reconstructHistoryFromRollout, hdropped]
  exact congrArg (fun scan => (replay prims policy scan).history.items) hscan

theorem carriesHistories_plainTurn : CarriesHistories (plainTurn id text).items := by
  intro item hitem
  simp only [items, plainTurn, cons_append, nil_append, mem_cons,
    not_mem_nil, or_false] at hitem
  rcases hitem with rfl | rfl | rfl <;> rfl

/-- The rollback of a compacted turn restores all conversations to the same, if any. -/
theorem restored_eq_suffix_replay (huser : turn.isUserTurn prims = true)
    (hnewest : newest carriedHistory turn.body = some (carried, rest))
    (hrestores : RollbackRestores prims policy turn) (text : Str) :
    ((rest ++ turn.rolledBackEnd).foldl (replayItem prims policy) ⟨.new, false⟩).history.items =
      [assistantText text] := by
  -- The turn before gets an identifier that the compacted turn does not have.
  have hrestored := hrestores [.turn (plainTurn ('x' :: turn.id) text)]
  have hitems : partItems [.turn (plainTurn ('x' :: turn.id) text)] =
      (plainTurn ('x' :: turn.id) text).items := append_nil _
  have hids : (turnIds ([.turn (plainTurn ('x' :: turn.id) text)] ++ [.turn turn])).Nodup := by
    simp [turnIds, plainTurn]
  have hcontext : endsInContext prims [assistantText text] = false := by
    simp [endsInContext, isContextualMessage, isContextualDevMessage, isContextualUserMessage,
      assistantText]
  rw [hitems, reconstruct_plainTurn] at hrestored
  have hhistory := congrArg RolloutReconstruction.history
    (hrestored (carriesHistories_plainTurn _ _) hids hcontext)
  rw [reconstruct_plainTurn, reconstruct_compacted_rolledBack _ _ huser hnewest] at hhistory
  exact hhistory

end

/-- Rolling back a turn restores what was reconstructed before it, whatever that was, if and
only if the turn was not compacted. -/
theorem rollback_restores_iff (prims : Primitives) (policy : TruncationPolicy) (turn : TurnBlock)
    (hcarries : CarriesHistories turn.items) (hturn : isOneTurn prims turn.responseItems = true) :
    RollbackRestores prims policy turn ↔ ∀ item ∈ turn.body, isCompacted item = false := by
  have huser := isUserTurn_of_isOneTurn hturn
  constructor
  · intro hrestores item hitem
    by_contra hcompacted
    rw [Bool.not_eq_false] at hcompacted
    obtain ⟨⟨carried, rest⟩, hnewest⟩ : ∃ p, newest carriedHistory turn.body = some p := by
      apply Option.ne_none_iff_exists'.mp
      intro hnone
      have hlegacy : isLegacyCompaction item = false := hcarries item (by simp [items, hitem])
      exact carriedHistory_ne_none hcompacted hlegacy (newest_eq_none.mp hnone item hitem)
    have hrestored := restored_eq_suffix_replay huser hnewest hrestores
    have hsame := (hrestored ['a']).symm.trans (hrestored ['b'])
    simp [assistantText] at hsame
  · intro hbody parts _ _ hhistory
    rw [reconstructHistoryFromRollout,
      scanRollout_rolledBack_of_not_compacted (partItems parts) huser hbody, replay_extend,
      foldl_replayItem_rolledBack _ hturn hbody hhistory]
    rfl

/-- A question of the user and its answer. -/
def answeredTurn : TurnBlock where
  id := ['p']
  body := [.responseItem (userText ['q']), .responseItem (assistantText ['a'])]
  turnItems := forall_mem_cons.mpr ⟨rfl, forall_mem_singleton.mpr rfl⟩

/-- A question of the user on which the conversation is compacted. -/
def compactingTurn : TurnBlock where
  id := ['t']
  body := [.responseItem (userText ['q']), .compacted ⟨['s'], some [userText ['s']]⟩]
  turnItems := forall_mem_cons.mpr ⟨rfl, forall_mem_singleton.mpr rfl⟩

theorem rollback_restores_iff_answeredTurn :
    CarriesHistories answeredTurn.items ∧
    isOneTurn .bare answeredTurn.responseItems = true ∧
    (∀ item ∈ answeredTurn.body, isCompacted item = false) ∧
    RollbackRestores .bare (.bytes 0) answeredTurn :=
  ⟨by decide, by decide +kernel, by decide,
    (rollback_restores_iff .bare (.bytes 0) answeredTurn (by decide) (by decide +kernel)).mpr
      (by decide)⟩

/-- The answered turn before the compacting one is lost with it. -/
theorem rollback_of_compactingTurn_loses_history :
    CarriesHistories compactingTurn.items ∧
    isOneTurn .bare compactingTurn.responseItems = true ∧
    CarriesHistories (partItems [.turn answeredTurn]) ∧
    (turnIds ([.turn answeredTurn] ++ [.turn compactingTurn])).Nodup ∧
    endsInContext .bare (reconstructHistoryFromRollout .bare (.bytes 0)
      (partItems [.turn answeredTurn])).history = false ∧
    (reconstructHistoryFromRollout .bare (.bytes 0) (partItems [.turn answeredTurn])).history =
      [userText ['q'], assistantText ['a']] ∧
    (reconstructHistoryFromRollout .bare (.bytes 0)
      (partItems [.turn answeredTurn] ++ compactingTurn.rolledBack)).history = [] := by
  decide +kernel

end CodexRs.Core
