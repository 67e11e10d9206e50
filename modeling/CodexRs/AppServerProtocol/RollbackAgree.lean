import CodexRs.AppServerProtocol.ThreadHistory
import CodexRs.Core.DropTurns
import CodexRs.Core.TurnBlocks

/-!
# Rollbacks in the displayed thread and in the model's history

Both are stacks with undo entries, which differ in what an undo counts.
-/
namespace CodexRs.AppServerProtocol
open Text Protocol CodexRs.Core Utils UndoStack List Option ThreadHistoryBuilder Turn

section

def userEventOf : RolloutItem → Option UserMessageEvent
  | .eventMsg (.userMessage payload) => some payload
  | _ => none

def isAbort : RolloutItem → Bool
  | .eventMsg (.turnAborted _ _ _) => true
  | _ => false

/-- A message of the user as an event and as an item of the conversation. -/
structure UserMessage where
  event : UserMessageEvent
  item : ResponseItem

/-- A turn with one message of the user or with none, which is not aborted before its end. -/
structure UserBlock (prims : Primitives) extends TurnBlock where
  user : Option UserMessage
  notAborted : ∀ item ∈ body, isAbort item = false
  event : body.filterMap userEventOf = (user.map (·.event)).toList
  item : (body.filterMap responseOf).filter (isUserTurnBoundary prims) =
    (user.map (·.item)).toList

variable {prims : Primitives}

def UserBlock.isUser (block : UserBlock prims) : Bool := block.user.isSome

def UserBlock.inputs (block : UserBlock prims) : List (List UserInput) :=
  (block.user.map fun message => buildUserInputs message.event).toList

def userOf : RolloutPart (UserBlock prims) → Option UserMessage
  | .turn block => block.user
  | .rolledBack _ => none

/-- The items of a rollout of such turns. -/
def rolloutItems (parts : List (RolloutPart (UserBlock prims))) : List RolloutItem :=
  partItems (parts.map (RolloutPart.map UserBlock.toTurnBlock))

/-- The messages of the user in the model's history. -/
def userItems (prims : Primitives) (manager : ContextManager) : List ResponseItem :=
  manager.items.filter (isUserTurnBoundary prims)

/-- What is recorded and rolled back in the model's history. -/
def replayItem (prims : Primitives) (policy : TruncationPolicy) (manager : ContextManager) :
    RolloutItem → ContextManager
  | .responseItem item => manager.recordItems prims policy [item]
  | .eventMsg (.threadRolledBack numTurns) => manager.dropLastNUserTurns prims numTurns
  | _ => manager

def modelHistory (prims : Primitives) (policy : TruncationPolicy) (items : List RolloutItem) :
    ContextManager :=
  items.foldl (replayItem prims policy) .new

def userContent : ThreadItem → Option (List UserInput)
  | .userMessage _ content => some content
  | _ => none

def Turn.userContents (turn : Turn) : List (List UserInput) := turn.items.filterMap userContent

/-- The messages of the user in the displayed turns are those left in the model's history. -/
def DisplayAgrees (uuid : ℕ → Str) (policy : TruncationPolicy)
    (parts : List (RolloutPart (UserBlock prims))) : Prop :=
  ∃ kept : List UserMessage, kept.Sublist (parts.filterMap userOf) ∧
    (buildTurnsFromRolloutItems prims uuid (rolloutItems parts)).flatMap userContents =
      kept.map (fun message => buildUserInputs message.event) ∧
    userItems prims (modelHistory prims policy (rolloutItems parts)) = kept.map (·.item)

end

open RolloutPart UserBlock

section
variable {prims : Primitives} {policy : TruncationPolicy} (manager : ContextManager)

theorem foldl_replayItem_body (body : List RolloutItem)
    (hbody : ∀ item ∈ body, isTurnItem item = true) :
    userItems prims (body.foldl (replayItem prims policy) manager) = userItems prims manager ++
      (body.filterMap responseOf).filter (isUserTurnBoundary prims) := by
  induction body generalizing manager with
  | nil => simp
  | cons item body ih =>
    obtain ⟨hitem, hbody⟩ := forall_mem_cons.mp hbody
    rw [foldl_cons, ih (replayItem prims policy manager item) hbody]
    cases item with
    | responseItem item =>
      rw [replayItem, userItems, filter_recordItems, append_assoc, ← filter_append]
      rfl
    | eventMsg event =>
      cases event with
      | threadRolledBack numTurns => cases hitem
      | _ => rfl
    | _ => rfl

theorem foldl_replayItem_block (block : UserBlock prims) :
    userItems prims (block.items.foldl (replayItem prims policy) manager) =
      userItems prims manager ++ (block.user.map (·.item)).toList := by
  have hend (manager : ContextManager) :
      replayItem prims policy manager (.eventMsg block.endEvent) = manager := by
    cases hending : block.ending <;> simp [TurnBlock.endEvent, hending, replayItem]
  rw [TurnBlock.items, cons_append, foldl_cons, foldl_append, foldl_cons,
    foldl_nil, hend, foldl_replayItem_body _ _ block.turnItems, block.item]
  rfl

/-- A pop takes elements that count off the top. -/
theorem filterMap_pop_isUser (n : ℕ) (stack : List (UserBlock prims)) :
    (pop isUser n stack).filterMap user =
      (stack.filterMap user).drop n := by
  induction stack generalizing n with
  | nil => simp
  | cons block stack ih =>
    cases n with
    | zero => simp
    | succ n =>
      rw [pop, isUser]
      cases huser : block.user <;> simp [ih, huser]

theorem modelHistory_parts (parts : List (RolloutPart (UserBlock prims))) :
    userItems prims (modelHistory prims policy (rolloutItems parts)) =
      ((lasting isUser (parts.map entry)).filterMap user).map (·.item) := by
  have hfold : ∀ (manager : ContextManager) (stack : List (UserBlock prims)),
      userItems prims manager = ((stack.filterMap user).map (·.item)).reverse →
      userItems prims ((rolloutItems parts).foldl (replayItem prims policy) manager) =
        ((((parts.map entry).foldl (step isUser) stack).filterMap user).map (·.item)).reverse := by
    induction parts with
    | nil => exact fun _ _ h => h
    | cons part parts ih =>
      intro manager stack h
      rw [rolloutItems, map_cons, partItems, flatMap_cons, foldl_append, map_cons]
      refine ih _ _ ?_
      cases part with
      | turn block =>
        rw [RolloutPart.map, RolloutPart.items, foldl_replayItem_block, h, entry, step]
        cases huser : block.user <;> simp [huser]
      | rolledBack numTurns =>
        simp only [RolloutPart.map, RolloutPart.items, foldl_cons, foldl_nil, replayItem,
          entry, step]
        rw [userItems, filter_dropLastNUserTurns, ← userItems, h, filterMap_pop_isUser, map_drop, length_reverse,
          reverse_drop]
  have hstart := hfold .new [] rfl
  rw [modelHistory, hstart, foldl_step, pop_nil, append_nil, ← map_reverse,
    ← filterMap_reverse, reverse_reverse]

end

section
open ThreadHistoryBuilder

variable {prims : Primitives} {uuid : ℕ → Str} {items : List ThreadItem} {id detail : Str}

/-- The item that a call with the id replaces is a message of the user. -/
def coversMessage (id : Str) (items : List ThreadItem) : Bool :=
  ((items.find? (·.id = id)).bind userContent).isSome

/-- The items of the turn that a call goes to. -/
def callItems (b : ThreadHistoryBuilder) : Option Str → List ThreadItem
  | none => (b.currentTurn.map (·.items)).getD []
  | some turnId =>
    let inTurns := ((b.turns.find? (·.id = turnId)).map (·.items)).getD []
    match b.currentTurn with
    | some current => if current.id = turnId then current.items else inTurns
    | none => inTurns

/-- The item is a call that has the id of a message in the turn that it goes to. -/
def collides (b : ThreadHistoryBuilder) : RolloutItem → Bool
  | .eventMsg (.call target id _) => coversMessage id (callItems b target)
  | _ => false

def collisionFree (prims : Primitives) (uuid : ℕ → Str) :
    ThreadHistoryBuilder → List RolloutItem → Bool
  | _, [] => true
  | b, item :: items =>
    !collides b item && collisionFree prims uuid (b.handleRolloutItem prims uuid item) items

theorem collisionFree_append {b : ThreadHistoryBuilder} {items others : List RolloutItem} :
    collisionFree prims uuid b (items ++ others) = (collisionFree prims uuid b items &&
      collisionFree prims uuid (items.foldl (handleRolloutItem prims uuid) b) others) := by
  induction items generalizing b with
  | nil => rfl
  | cons item items ih =>
    rw [cons_append, collisionFree, collisionFree, ih, foldl_cons, Bool.and_assoc]

theorem filterMap_upsertTurnItem (h : coversMessage id items = false) :
    (upsertTurnItem (.call id detail) items).filterMap userContent =
      items.filterMap userContent := by
  induction items with
  | nil => rfl
  | cons item items ih =>
    rw [coversMessage, find?_cons] at h
    rw [upsertTurnItem]
    split_ifs with hsame
    · rw [decide_eq_true (show item.id = id from hsame)] at h
      have hnone : userContent item = none := isNone_iff_eq_none.mp (isSome_eq_false_iff.mp h)
      rw [filterMap_cons_none hnone]
      rfl
    · rw [decide_eq_false (show ¬ item.id = id from hsame)] at h
      rw [filterMap_cons, filterMap_cons, ih h]

theorem map_updateTurn {turnId : Str} {turns : List Turn}
    (h : coversMessage id (((turns.find? (·.id = turnId)).map (·.items)).getD []) = false) :
    (updateTurn turnId (fun turn =>
      { turn with items := upsertTurnItem (.call id detail) turn.items }) turns).map userContents =
      turns.map userContents := by
  induction turns with
  | nil => rfl
  | cons turn turns ih =>
    rw [find?_cons] at h
    rw [updateTurn]
    split_ifs with hsame
    · rw [decide_eq_true hsame] at h
      replace h : coversMessage id turn.items = false := h
      rw [map_cons, map_cons, userContents, userContents, filterMap_upsertTurnItem h]
    · rw [decide_eq_false hsame] at h
      rw [map_cons, map_cons, ih h]

/-- Inside a turn: the finished turns, and the messages of the open one so far. -/
structure Inside (b : ThreadHistoryBuilder) (turnId : Str)
    (older : List (List (List UserInput))) (contents : List (List UserInput)) : Prop where
  turns : b.turns.map userContents = older
  current : ∃ turn, b.currentTurn = some turn ∧ turn.id = turnId ∧
    turn.openedExplicitly = true ∧ turn.items.filterMap userContent = contents

namespace Inside
variable {b : ThreadHistoryBuilder} {turnId : Str} {older : List (List (List UserInput))}
  {contents : List (List UserInput)}

variable {item : Str → ThreadItem}

variable (h : Inside b turnId older contents)
include h

theorem push {content : Option (List UserInput)}
    (hcontent : ∀ id, userContent (item id) = content) :
    Inside (b.pushItem uuid item) turnId older (contents ++ content.toList) := by
  obtain ⟨turn, hturn, hturnId, hopened, hitems⟩ := h.current
  refine ⟨h.turns, { turn with items := turn.items ++ [item (itemId b.nextItemIndex)] }, ?_,
    hturnId, hopened, ?_⟩
  · simp [pushItem, ensureTurn, hturn]
  · rw [filterMap_append, hitems]
    cases content <;> simp [hcontent]

theorem push_other (hcontent : ∀ id, userContent (item id) = none) :
    Inside (b.pushItem uuid item) turnId older contents := by
  have hpush : Inside (b.pushItem uuid item) turnId older (contents ++ none.toList) :=
    h.push hcontent
  simpa using hpush

theorem joinReasoning {text : Str} {extend : ThreadItem → Option ThreadItem}
    (hextend : ∀ last last', extend last = some last' →
      userContent last = none ∧ userContent last' = none)
    (hcontent : ∀ id, userContent (item id) = none) :
    Inside (b.joinReasoning uuid text extend item) turnId older contents := by
  rw [ThreadHistoryBuilder.joinReasoning]
  split_ifs
  · exact h
  simp only
  split
  · rename_i last hlast
    obtain ⟨turn, hturn, hturnId, hopened, hitems⟩ := h.current
    rw [show b.ensureTurn uuid = turn by simp [ensureTurn, hturn]] at hlast ⊢
    obtain ⟨former, hformer, hextended⟩ := bind_eq_some_iff.mp hlast
    obtain ⟨hformer_none, hlast_none⟩ := hextend former last hextended
    have hsplit := dropLast_append_getLast? former hformer
    refine ⟨h.turns, { turn with items := turn.items.dropLast ++ [last] }, rfl, hturnId,
      hopened, ?_⟩
    rw [← hitems, ← hsplit]
    simp [hformer_none, hlast_none]
  · exact h.push_other hcontent

theorem upsertCurrent {turn : PendingTurn} (hturn : b.currentTurn = some turn)
    (hid : coversMessage id turn.items = false) :
    let turn := { turn with items := upsertTurnItem (.call id detail) turn.items }
    Inside { b with currentTurn := some turn } turnId older contents := by
  obtain ⟨other, hother, hturnId, hopened, hitems⟩ := h.current
  obtain rfl : other = turn := some.inj (hother.symm.trans hturn)
  exact ⟨h.turns, _, rfl, hturnId, hopened, (filterMap_upsertTurnItem hid).trans hitems⟩

theorem call {target : Option Str} (hid : coversMessage id (callItems b target) = false) :
    Inside (b.handleCall uuid target (.call id detail)) turnId older contents := by
  obtain ⟨turn, hturn, -⟩ := h.current
  cases target with
  | none =>
    simp only [callItems, hturn, map_some, getD_some] at hid
    simp only [handleCall, upsertItemInCurrentTurn, ensureTurn, hturn]
    exact h.upsertCurrent hturn hid
  | some target =>
    simp only [callItems, hturn] at hid
    simp only [handleCall, upsertItemInTurnId, hturn]
    split_ifs at hid ⊢ with hsame
    · exact h.upsertCurrent hturn hid
    · exact ⟨(map_updateTurn hid).trans h.turns, hturn ▸ h.current⟩

theorem index (current next : ℕ) :
    Inside { b with currentRolloutIndex := current, nextRolloutIndex := next } turnId older
      contents :=
  ⟨h.turns, h.current⟩

theorem handleUserMessage (payload : UserMessageEvent) :
    Inside (b.handleUserMessage uuid payload) turnId older
      (contents ++ [buildUserInputs payload]) := by
  obtain ⟨turn, hturn, -, hopened, -⟩ := h.current
  simp only [ThreadHistoryBuilder.handleUserMessage, hturn, hopened]
  have hcontent (id : Str) : userContent (.userMessage id (buildUserInputs payload)) =
      some (buildUserInputs payload) := rfl
  exact h.push hcontent

theorem handleResponseItem (item : ResponseItem) :
    Inside (b.handleResponseItem prims uuid item) turnId older contents := by
  cases item with
  | message id role content phase =>
    simp only [ThreadHistoryBuilder.handleResponseItem]
    split_ifs
    · split
      · obtain ⟨turn, hturn, hturnId, hopened, hitems⟩ := h.current
        simp only [ensureTurn, hturn]
        refine ⟨h.turns, _, rfl, hturnId, hopened, ?_⟩
        simp [hitems, userContent]
      · exact h
    · exact h
  | _ => exact h

theorem handleError (payload : ErrorEvent) :
    Inside (b.handleError payload) turnId older contents := by
  rw [ThreadHistoryBuilder.handleError]
  split_ifs
  · obtain ⟨turn, hturn, hcurrent⟩ := h.current
    refine ⟨h.turns, { turn with status := .failed, error := some payload }, ?_, hcurrent⟩
    rw [hturn, map_some]
  · exact h

theorem handleCompacted : Inside (b.handleCompacted uuid) turnId older contents := by
  obtain ⟨turn, hturn, hcurrent⟩ := h.current
  refine ⟨h.turns, { turn with sawCompaction := true }, ?_, hcurrent⟩
  simp [ThreadHistoryBuilder.handleCompacted, ensureTurn, hturn]

theorem handleReasoning (text : Str) :
    Inside (b.handleAgentReasoning uuid text) turnId older contents := by
  refine h.joinReasoning (fun last last' hextend => ?_) fun _ => rfl
  cases last <;> cases hextend
  exact ⟨rfl, rfl⟩

theorem handleRawReasoning (text : Str) :
    Inside (b.handleAgentReasoningRawContent uuid text) turnId older contents := by
  refine h.joinReasoning (fun last last' hextend => ?_) fun _ => rfl
  cases last <;> cases hextend
  exact ⟨rfl, rfl⟩

/-- An item inside a turn adds the message that it is, and nothing else. -/
theorem step {item : RolloutItem} (hitem : isTurnItem item = true) (habort : isAbort item = false)
    (hfree : collides b item = false) :
    Inside (b.handleRolloutItem prims uuid item) turnId older
      (contents ++ ((userEventOf item).map buildUserInputs).toList) := by
  have h := h.index b.nextRolloutIndex (b.nextRolloutIndex + 1)
  have hkeep {b' : ThreadHistoryBuilder} (hnone : userEventOf item = none)
      (h' : Inside b' turnId older contents) :
      Inside b' turnId older (contents ++ ((userEventOf item).map buildUserInputs).toList) := by
    rw [hnone, map_none, toList_none, append_nil]
    exact h'
  cases item with
  | eventMsg event =>
    cases event with
    | userMessage payload => exact h.handleUserMessage payload
    | threadRolledBack numTurns | turnStarted turnId startedAt
    | turnComplete turnId completedAt durationMs => cases hitem
    | turnAborted turnId completedAt durationMs => cases habort
    | agentMessage message =>
      refine hkeep rfl ?_
      simp only [handleRolloutItem, handleEvent, handleAgentMessage]
      split_ifs
      · exact h
      · exact h.push_other fun _ => rfl
    | agentReasoning text => exact hkeep rfl (h.handleReasoning text)
    | agentReasoningRawContent text => exact hkeep rfl (h.handleRawReasoning text)
    | call target id detail => exact hkeep rfl (h.call hfree)
    | contextCompacted => exact hkeep rfl (h.push_other fun _ => rfl)
    | enteredReviewMode hint | exitedReviewMode explanation =>
      refine hkeep rfl ?_
      simp only [handleRolloutItem, handleEvent]
      exact h.push_other fun _ => rfl
    | error payload => exact hkeep rfl (h.handleError payload)
    | other => exact hkeep rfl h
  | compacted compacted => exact hkeep rfl h.handleCompacted
  | responseItem item => exact hkeep rfl (h.handleResponseItem item)
  | turnContext context => exact hkeep rfl h
  | sessionMeta => exact hkeep rfl h

theorem body {body : List RolloutItem} (hbody : ∀ item ∈ body, isTurnItem item = true)
    (habort : ∀ item ∈ body, isAbort item = false)
    (hfree : collisionFree prims uuid b body = true) :
    Inside (body.foldl (handleRolloutItem prims uuid) b) turnId older
      (contents ++ (body.filterMap userEventOf).map buildUserInputs) := by
  induction body generalizing b contents with
  | nil => simpa using h
  | cons item body ih =>
    obtain ⟨hitem, hbody⟩ := forall_mem_cons.mp hbody
    obtain ⟨hkept, habort⟩ := forall_mem_cons.mp habort
    rw [collisionFree, Bool.and_eq_true, Bool.not_eq_true'] at hfree
    obtain ⟨hcall, hfree⟩ := hfree
    have hstep : Inside (b.handleRolloutItem prims uuid item) turnId older _ :=
      h.step hitem hkept hcall
    have hrest := ih hstep hbody habort hfree
    cases hevent : userEventOf item <;> simpa [hevent] using hrest

end Inside

theorem currentTurn_finishCurrentTurn (b : ThreadHistoryBuilder) :
    b.finishCurrentTurn.currentTurn = none := by
  rw [finishCurrentTurn]
  split
  · assumption
  · split_ifs <;> rfl

theorem turns_finishCurrentTurn_index (b : ThreadHistoryBuilder) (current next : ℕ) :
    (finishCurrentTurn { b with currentRolloutIndex := current, nextRolloutIndex := next }).turns =
      b.finishCurrentTurn.turns := by
  simp only [finishCurrentTurn]
  cases b.currentTurn with
  | none => rfl
  | some turn =>
    simp only
    split_ifs <;> rfl

/-- Between turns: what is shown once the open turn is finished. -/
def Shown (b : ThreadHistoryBuilder) (contents : List (List (List UserInput))) : Prop :=
  b.finishCurrentTurn.turns.map userContents = contents

namespace Shown
variable {b : ThreadHistoryBuilder} {older : List (List (List UserInput))}

theorem start (h : Shown b older) (turnId : Str) (startedAt : Option ℤ) :
    Inside (b.handleRolloutItem prims uuid (.eventMsg (.turnStarted turnId startedAt))) turnId
      older [] := by
  refine ⟨?_, _, rfl, rfl, rfl, rfl⟩
  have hturns := turns_finishCurrentTurn_index b b.nextRolloutIndex (b.nextRolloutIndex + 1)
  simp only [handleRolloutItem, handleEvent, handleTurnStarted, hturns]
  exact h

/-- A turn with an explicit start is not dropped for being empty. -/
theorem not_dropped {turn : PendingTurn} (h : turn.openedExplicitly = true) :
    ¬ (turn.items = [] ∧ ¬ turn.openedExplicitly = true ∧ ¬ turn.sawCompaction = true) :=
  fun hdropped => hdropped.2.1 h

theorem finish {turn : PendingTurn} (hturns : b.turns.map userContents = older)
    (hcurrent : b.currentTurn = some turn) (hopened : turn.openedExplicitly = true) :
    Shown b (older ++ [turn.toTurn.userContents]) := by
  rw [Shown, finishCurrentTurn, hcurrent]
  simp only [if_neg (not_dropped hopened)]
  rw [map_append, hturns, map_singleton]

/-- The end of a turn leaves its messages behind the others. -/
theorem stop {turnId : Str} {contents : List (List UserInput)} (ending : TurnEnd)
    (completedAt durationMs : Option ℤ) (h : Inside b turnId older contents) :
    let event := match ending with
      | .complete => EventMsg.turnComplete turnId completedAt durationMs
      | .aborted => EventMsg.turnAborted (some turnId) completedAt durationMs
    Shown (b.handleRolloutItem prims uuid (.eventMsg event)) (older ++ [contents]) := by
  obtain ⟨turn, hcurrent, hid, hopened, hitems⟩ := h.current
  have hany : b.currentTurn.any (·.id = turnId) = true := by simp [hcurrent, hid]
  cases ending with
  | complete =>
    have hkept := not_dropped hopened
    simp only [handleRolloutItem, handleEvent, handleTurnComplete, if_pos hany]
    simp only [finishCurrentTurn, hcurrent, map_some, markCompleted, if_neg hkept]
    rw [← hitems, ← h.turns]
    exact map_append
  | aborted =>
    simp only [handleRolloutItem, handleEvent, handleTurnAborted, if_pos hany]
    rw [← hitems]
    let aborted : PendingTurn := { turn with toTurn := turn.toTurn.abort completedAt durationMs }
    show Shown _ (older ++ [aborted.toTurn.userContents])
    refine finish h.turns ?_ hopened
    simp only [hcurrent]
    rfl

theorem rollback (h : Shown b older) (numTurns : UInt32) :
    Shown (b.handleRolloutItem prims uuid (.eventMsg (.threadRolledBack numTurns)))
      (older.take (older.length - numTurns.toNat)) := by
  have hturns := turns_finishCurrentTurn_index b b.nextRolloutIndex (b.nextRolloutIndex + 1)
  have hcurrent := currentTurn_finishCurrentTurn
    { b with currentRolloutIndex := b.nextRolloutIndex, nextRolloutIndex := b.nextRolloutIndex + 1 }
  have hlength : b.finishCurrentTurn.turns.length = older.length := by
    rw [← h, length_map]
  simp only [handleRolloutItem, handleEvent, handleThreadRollback]
  simp only [hcurrent, hturns, hlength]
  split_ifs with hall
  · rw [Nat.sub_eq_zero_of_le hall]
    rfl
  · change (b.finishCurrentTurn.turns.take _).map userContents = _
    rw [map_take, show _ = older from h]

/-- A whole turn is shown behind the others. -/
theorem block (h : Shown b older) (block : UserBlock prims)
    (hfree : collisionFree prims uuid b block.items = true) :
    Shown (block.items.foldl (handleRolloutItem prims uuid) b) (older ++ [block.inputs]) := by
  rw [TurnBlock.items, cons_append, collisionFree, collisionFree_append, Bool.and_eq_true,
    Bool.and_eq_true] at hfree
  have hinside : Inside (block.body.foldl (handleRolloutItem prims uuid)
      (b.handleRolloutItem prims uuid (.eventMsg (.turnStarted block.id block.startedAt))))
      block.id older _ :=
    (h.start block.id block.startedAt).body block.turnItems block.notAborted
      hfree.2.1
  have hstop : Shown (handleRolloutItem prims uuid _ (.eventMsg block.endEvent)) _ :=
    stop block.ending block.completedAt block.durationMs hinside
  rw [block.event] at hstop
  rw [TurnBlock.items, cons_append, foldl_cons, foldl_append, foldl_cons]
  cases huser : block.user <;> simpa [inputs, huser] using hstop

end Shown

theorem shown_parts {parts : List (RolloutPart (UserBlock prims))}
    (hfree : collisionFree prims uuid .new (rolloutItems parts) = true) :
    (buildTurnsFromRolloutItems prims uuid (rolloutItems parts)).flatMap userContents =
      ((lasting (fun _ => true) (parts.map entry)).filterMap user).map
        fun message => buildUserInputs message.event := by
  have hfold : ∀ (b : ThreadHistoryBuilder) (stack : List (UserBlock prims)),
      collisionFree prims uuid b (rolloutItems parts) = true → Shown b (stack.map inputs).reverse →
      Shown ((rolloutItems parts).foldl (handleRolloutItem prims uuid) b)
        (((parts.map entry).foldl (step fun _ => true) stack).map inputs).reverse := by
    clear hfree
    induction parts with
    | nil => exact fun _ _ _ h => h
    | cons part parts ih =>
      intro b stack hfree h
      rw [rolloutItems, map_cons, partItems, flatMap_cons] at hfree ⊢
      rw [foldl_append, map_cons]
      rw [collisionFree_append, Bool.and_eq_true] at hfree
      obtain ⟨hpart, hparts⟩ := hfree
      refine ih _ _ hparts ?_
      cases part with
      | turn block =>
        rw [entry, step, map_cons, reverse_cons]
        exact h.block block hpart
      | rolledBack numTurns =>
        have hrollback : Shown (b.handleRolloutItem prims uuid
            (.eventMsg (.threadRolledBack numTurns))) _ := h.rollback numTurns
        rw [length_reverse, ← reverse_drop, ← map_drop] at hrollback
        rw [entry, step, pop_all]
        exact hrollback
  have hshown : _ = _ := hfold .new [] hfree rfl
  rw [foldl_step, pop_nil, append_nil, ← map_reverse] at hshown
  rw [buildTurnsFromRolloutItems, finish, flatMap_def, hshown]
  induction lasting (fun _ => true) (parts.map entry) with
  | nil => rfl
  | cons block blocks ih =>
    cases huser : block.user <;> simpa [inputs, huser] using ih

end

variable {prims : Primitives}

theorem lasting_user_sublist (counts : UserBlock prims → Bool)
    (parts : List (RolloutPart (UserBlock prims))) :
    ((lasting counts (parts.map entry)).filterMap user).Sublist
      (parts.filterMap userOf) := by
  induction parts with
  | nil => exact Sublist.refl _
  | cons part parts ih =>
    cases part with
    | rolledBack numTurns => exact ih
    | turn block =>
      rw [map_cons, entry, lasting]
      split_ifs
      · cases huser : block.user with
        | none => simpa [huser, userOf] using ih
        | some message => simpa [huser, userOf] using ih.cons_cons message
      · cases huser : block.user with
        | none => simpa [huser, userOf] using ih
        | some message => simpa [huser, userOf] using ih.cons message

/-- A turn of a rollout in the log that it makes. -/
theorem map_entry_split {parts : List (RolloutPart (UserBlock prims))} {p : UserBlock prims → List
    (Entry (UserBlock prims)) → Prop} :
    (∀ before block after, parts.map entry = before ++ .push block :: after → p block after) ↔
      ∀ before block after, parts = before ++ .turn block :: after → p block (after.map entry) := by
  constructor
  · rintro h before block after rfl
    exact h (before.map entry) block (after.map entry)
      (by simp [entry])
  · intro h before block after hsplit
    obtain ⟨first, rest, rfl, rfl, hrest⟩ := map_eq_append_iff.mp hsplit
    obtain ⟨part, parts, rfl, hpart, rfl⟩ := map_eq_cons_iff.mp hrest
    cases part with
    | turn block' =>
      obtain rfl : block' = block := by simpa [entry] using hpart
      exact h first block' parts rfl
    | rolledBack numTurns => cases hpart

/-- A user turn that the markers after it reach when user turns are counted is also reached when
all turns are. -/
def ReachedAlike (parts : List (RolloutPart (UserBlock prims))) : Prop :=
  ∀ before block after, parts = before ++ .turn block :: after → block.isUser = true →
    0 < reach isUser (after.map entry) →
    0 < reach (fun _ => true) (after.map entry)

/-- The displayed thread and the model's history keep the same messages of the user, if no call
takes the place of a message and no turn without a message stands between a marker and a turn that
it takes back. Where the first holds, the second is also needed. -/
theorem display_agrees (uuid : ℕ → Str) (policy : TruncationPolicy)
    (parts : List (RolloutPart (UserBlock prims))) :
    (collisionFree prims uuid .new (rolloutItems parts) = true ∧ ReachedAlike parts →
      DisplayAgrees uuid policy parts) ∧
    (collisionFree prims uuid .new (rolloutItems parts) = true ∧ DisplayAgrees uuid policy parts →
      ReachedAlike parts) := by
  suffices hagree : collisionFree prims uuid .new (rolloutItems parts) = true →
      (DisplayAgrees uuid policy parts ↔ ReachedAlike parts) from
    ⟨fun h => (hagree h.1).mpr h.2, fun h => (hagree h.1).mp h.2⟩
  intro hfree
  have hcounts : ∀ block : UserBlock prims, block.isUser = true → (fun _ => true) block = true :=
    fun _ _ => rfl
  have hiff := filterMap_lasting_length_iff user hcounts (parts.map entry)
  rw [map_entry_split (p := fun block after => (user block).isSome = true →
    0 < reach isUser after → 0 < reach (fun _ => true) after)] at hiff
  rw [DisplayAgrees, shown_parts hfree, modelHistory_parts]
  refine Iff.trans ?_ hiff
  constructor
  · rintro ⟨kept, -, hdisplay, hhistory⟩
    have hdisplay := congrArg length hdisplay
    have hhistory := congrArg length hhistory
    simp only [length_map] at hdisplay hhistory
    rw [hdisplay, hhistory]
  · intro hlength
    have hsame := ((lasting_sublist hcounts (parts.map entry)).filterMap
      user).eq_of_length hlength
    exact ⟨_, lasting_user_sublist _ parts, rfl, by rw [hsame]⟩

def helloEvent : UserMessageEvent := ⟨"hello".toList, none, [], []⟩

def helloItem : ResponseItem := .message none "user".toList [.inputText "hello".toList] none

/-- A turn with a message of the user and a call. -/
def helloTurn (callId : Str) : UserBlock .bare where
  id := "1".toList
  body := [.responseItem helloItem, .eventMsg (.userMessage helloEvent),
    .eventMsg (.call none callId "ls".toList)]
  turnItems := by simp [isTurnItem]
  user := some ⟨helloEvent, helloItem⟩
  notAborted := by simp [isAbort]
  event := rfl
  item := show filter (isUserTurnBoundary .bare) [helloItem] = [helloItem] by decide

/-- A turn that the user has started without a message, to make the history shorter. -/
def compactionTurn : UserBlock .bare where
  id := "2".toList
  body := [.compacted ⟨"summary".toList, some []⟩, .eventMsg .contextCompacted]
  turnItems := by decide
  user := none
  notAborted := by decide
  event := rfl
  item := rfl

def nothingBetween : List (RolloutPart (UserBlock .bare)) :=
  [.turn (helloTurn "call-1".toList), .rolledBack 1, .turn compactionTurn]

theorem display_agrees_nothingBetween :
    collisionFree .bare (fun _ => []) .new (rolloutItems nothingBetween) = true ∧
      ReachedAlike nothingBetween ∧ DisplayAgrees (fun _ => []) (.bytes 0) nothingBetween := by
  have hfree : collisionFree .bare (fun _ => []) .new (rolloutItems nothingBetween) = true := by
    decide +kernel
  have hreached : ReachedAlike nothingBetween := by
    intro before block after hsplit huser _
    rw [nothingBetween] at hsplit
    rcases before with _ | ⟨first, _ | ⟨second, _ | ⟨third, before⟩⟩⟩
    · obtain ⟨-, rfl⟩ := cons.inj hsplit
      decide
    · cases (cons.inj (cons.inj hsplit).2).1
    · cases hsplit
      cases huser
    · simp at hsplit
  exact ⟨hfree, hreached, (display_agrees _ _ _).1 ⟨hfree, hreached⟩⟩

theorem not_displayAgrees_of_length {uuid : ℕ → Str} {policy : TruncationPolicy}
    {parts : List (RolloutPart (UserBlock prims))}
    (h : ((buildTurnsFromRolloutItems prims uuid (rolloutItems parts)).flatMap
        userContents).length ≠
      (userItems prims (modelHistory prims policy (rolloutItems parts))).length) :
    ¬ DisplayAgrees uuid policy parts := by
  rintro ⟨kept, -, hdisplay, hhistory⟩
  rw [hdisplay, hhistory, length_map, length_map] at h
  exact h rfl

def compactionBetween : List (RolloutPart (UserBlock .bare)) :=
  [.turn (helloTurn "call-1".toList), .turn compactionTurn, .rolledBack 1]

def collidingCall : List (RolloutPart (UserBlock .bare)) := [.turn (helloTurn "item-1".toList)]

/-- A rollback takes the compaction off the displayed thread, and the message before it off the
history; and a call with the id of the message takes its place in the displayed thread. -/
theorem rollback_over_compaction_disagrees :
    ((buildTurnsFromRolloutItems .bare (fun _ => []) (rolloutItems compactionBetween)).flatMap
        Turn.userContents = [[.text "hello".toList []]] ∧
      (modelHistory .bare (.bytes 0) (rolloutItems compactionBetween)).items = [] ∧
      ¬ DisplayAgrees (fun _ => []) (.bytes 0) compactionBetween) ∧
    ((buildTurnsFromRolloutItems .bare (fun _ => []) (rolloutItems collidingCall)).flatMap
        Turn.userContents = [] ∧
      (modelHistory .bare (.bytes 0) (rolloutItems collidingCall)).items = [helloItem] ∧
      ¬ DisplayAgrees (fun _ => []) (.bytes 0) collidingCall) :=
  ⟨⟨by decide +kernel, by decide +kernel, not_displayAgrees_of_length (by decide +kernel)⟩,
    ⟨by decide +kernel, by decide +kernel, not_displayAgrees_of_length (by decide +kernel)⟩⟩

end CodexRs.AppServerProtocol
