import CodexRs.Library.Pairing
import CodexRs.Library.Splice
import CodexRs.Protocol.Models

/-!
# Normalizing a history

Every call gets an output, and every output without a call is dropped; a local shell call is
answered by the output of a function call. The two passes are those that pair requests with
replies, so that a normalized history is well paired.
-/
namespace CodexRs.Core
open Text Protocol List Option Pairing

def abortedOutput : FunctionCallOutputPayload := .fromText "aborted".toList

section
variable (callId : Str)

def isFunctionCallOutputFor : ResponseItem → Bool
  | .functionCallOutput existing _ => existing = callId
  | _ => false

def isToolSearchOutputFor : ResponseItem → Bool
  | .toolSearchOutput (some existing) _ _ _ => existing = callId
  | _ => false

def isCustomToolCallOutputFor : ResponseItem → Bool
  | .customToolCallOutput existing _ _ => existing = callId
  | _ => false

end

/-- The output that is made up for a call without one. -/
def missingOutput (items : List ResponseItem) : ResponseItem → Option ResponseItem
  | .functionCall _ _ _ _ callId =>
    if items.any (isFunctionCallOutputFor callId) then none
    else some (.functionCallOutput callId abortedOutput)
  | .toolSearchCall _ (some callId) _ _ _ =>
    if items.any (isToolSearchOutputFor callId) then none
    else some (.toolSearchOutput (some callId) "completed".toList "client".toList [])
  | .customToolCall _ _ callId _ _ =>
    if items.any (isCustomToolCallOutputFor callId) then none
    else some (.customToolCallOutput callId none abortedOutput)
  | .localShellCall _ (some callId) _ _ =>
    if items.any (isFunctionCallOutputFor callId) then none
    else some (.functionCallOutput callId abortedOutput)
  | _ => none

/-- The made-up outputs are inserted from the last to the first, so that the positions stay right.
-/
def ensureCallOutputsPresent (items : List ResponseItem) : List ResponseItem :=
  let missingOutputsToInsert := items.zipIdx.filterMap fun (item, idx) =>
    (missingOutput items item).map (idx, ·)
  missingOutputsToInsert.reverse.foldl
    (fun items (idx, outputItem) => items.insertIdx (idx + 1) outputItem) items

section
variable (items : List ResponseItem)

def functionCallIds : List Str :=
  items.filterMap fun
    | .functionCall _ _ _ _ callId => some callId
    | _ => none

def toolSearchCallIds : List Str :=
  items.filterMap fun
    | .toolSearchCall _ (some callId) _ _ _ => some callId
    | _ => none

def localShellCallIds : List Str :=
  items.filterMap fun
    | .localShellCall _ (some callId) _ _ => some callId
    | _ => none

def customToolCallIds : List Str :=
  items.filterMap fun
    | .customToolCall _ _ callId _ _ => some callId
    | _ => none

/-- An output stays if its call is there; so does every item that is no output. -/
def hasMatchingCall : ResponseItem → Bool
  | .functionCallOutput callId _ =>
    callId ∈ functionCallIds items ∨ callId ∈ localShellCallIds items
  | .customToolCallOutput callId _ _ => callId ∈ customToolCallIds items
  | .toolSearchOutput callId _ execution _ =>
    if execution = "server".toList then true else callId.all (· ∈ toolSearchCallIds items)
  | _ => true

def removeOrphanOutputs : List ResponseItem := items.filter (hasMatchingCall items)

end

/-- Under which identifier and to which kind of output a call and its output belong. -/
inductive OutputKey where
  | function (callId : Str)
  | custom (callId : Str)
  | toolSearch (callId : Str)
deriving DecidableEq

def callKey : ResponseItem → Option OutputKey
  | .functionCall _ _ _ _ callId => some (.function callId)
  | .localShellCall _ callId _ _ => callId.map .function
  | .customToolCall _ _ callId _ _ => some (.custom callId)
  | .toolSearchCall _ callId _ _ _ => callId.map .toolSearch
  | _ => none

def outputKey : ResponseItem → Option OutputKey
  | .functionCallOutput callId _ => some (.function callId)
  | .customToolCallOutput callId _ _ => some (.custom callId)
  | .toolSearchOutput callId _ _ _ => callId.map .toolSearch
  | _ => none

/-- The key under which an output needs a call; a search that the server ran needs none. -/
def clientOutputKey : ResponseItem → Option OutputKey
  | .toolSearchOutput callId _ execution _ =>
    if execution = "server".toList then none else callId.map .toolSearch
  | item => outputKey item

/-- What is made up as the output for a key. -/
def abortedItem : OutputKey → ResponseItem
  | .function callId => .functionCallOutput callId abortedOutput
  | .custom callId => .customToolCallOutput callId none abortedOutput
  | .toolSearch callId => .toolSearchOutput (some callId) "completed".toList "client".toList []

def callPairing : Pairing ResponseItem OutputKey where
  asks := callKey
  replies := outputKey
  bound := clientOutputKey
  reply _ key := abortedItem key
  replies_of_bound item key h := by
    cases item <;> first | exact h | (simp only [clientOutputKey] at h; split_ifs at h; exact h)
  asks_of_replies item key h := by
    cases item <;> first | rfl | cases h
  replies_reply item key h := by
    cases key <;> rfl

section
variable (callId : Str)

theorem isFunctionCallOutputFor_eq :
    isFunctionCallOutputFor callId = fun item => decide (outputKey item = some (.function callId)) := by
  funext item
  cases item <;> simp [isFunctionCallOutputFor, outputKey]

theorem isCustomToolCallOutputFor_eq :
    isCustomToolCallOutputFor callId = fun item => decide (outputKey item = some (.custom callId)) := by
  funext item
  cases item <;> simp [isCustomToolCallOutputFor, outputKey]

theorem isToolSearchOutputFor_eq : isToolSearchOutputFor callId =
      fun item => decide (outputKey item = some (.toolSearch callId)) := by
  funext item
  cases item with
  | toolSearchOutput existing => cases existing <;> simp [isToolSearchOutputFor, outputKey]
  | _ => simp [isToolSearchOutputFor, outputKey]

theorem missingOutput_eq (items : List ResponseItem) :
    missingOutput items = callPairing.missing items := by
  funext item
  cases item with
  | localShellCall _ callId =>
    cases callId with
    | none => rfl
    | some callId =>
      simp only [missingOutput, isFunctionCallOutputFor_eq]
      rfl
  | toolSearchCall _ callId =>
    cases callId with
    | none => rfl
    | some callId =>
      simp only [missingOutput, isToolSearchOutputFor_eq]
      rfl
  | functionCall _ _ _ _ callId =>
    simp only [missingOutput, isFunctionCallOutputFor_eq]
    rfl
  | customToolCall _ _ callId =>
    simp only [missingOutput, isCustomToolCallOutputFor_eq]
    rfl
  | _ => rfl

end

section
variable {items : List ResponseItem} {callId : Str}

theorem mem_functionCallIds : callId ∈ functionCallIds items ∨ callId ∈ localShellCallIds items ↔
    ∃ item ∈ items, callKey item = some (.function callId) := by
  simp only [functionCallIds, localShellCallIds, mem_filterMap, ← exists_or, ← and_or_left]
  apply exists_congr
  intro item
  apply and_congr_right
  intro _
  cases item with
  | localShellCall _ existing => cases existing <;> simp [callKey]
  | toolSearchCall _ existing => cases existing <;> simp [callKey]
  | _ => simp [callKey]

theorem mem_customToolCallIds : callId ∈ customToolCallIds items ↔
    ∃ item ∈ items, callKey item = some (.custom callId) := by
  simp only [customToolCallIds, mem_filterMap]
  apply exists_congr
  intro item
  apply and_congr_right
  intro _
  cases item <;> simp [callKey]

theorem mem_toolSearchCallIds : callId ∈ toolSearchCallIds items ↔
    ∃ item ∈ items, callKey item = some (.toolSearch callId) := by
  simp only [toolSearchCallIds, mem_filterMap]
  apply exists_congr
  intro item
  apply and_congr_right
  intro _
  cases item with
  | toolSearchCall _ existing => cases existing <;> simp [callKey]
  | _ => simp [callKey]

variable {item : ResponseItem}

theorem not_orphan_iff {key : OutputKey} (h : clientOutputKey item = some key) :
    (!callPairing.orphan items item) = true ↔ ∃ item ∈ items, callKey item = some key := by
  rw [Bool.not_eq_true', Bool.eq_false_iff, ne_eq, orphan_eq_true]
  have hbound : callPairing.bound item = some key := h
  simp only [hbound, Option.some.injEq, exists_eq_left', not_forall, not_not, exists_prop]
  rfl

theorem not_orphan_of_none (h : clientOutputKey item = none) :
    callPairing.orphan items item = false := by
  have hbound : callPairing.bound item = none := h
  rw [orphan, hbound]

theorem hasMatchingCall_eq (items : List ResponseItem) (item : ResponseItem) :
    hasMatchingCall items item = !callPairing.orphan items item := by
  rw [Bool.eq_iff_iff]
  cases item with
  | functionCallOutput callId output =>
    rw [not_orphan_iff rfl, ← mem_functionCallIds, hasMatchingCall, decide_eq_true_iff]
  | customToolCallOutput callId name output =>
    rw [not_orphan_iff rfl, ← mem_customToolCallIds, hasMatchingCall, decide_eq_true_iff]
  | toolSearchOutput callId status execution tools =>
    rw [hasMatchingCall]
    by_cases hserver : execution = "server".toList
    · have hnone : clientOutputKey (.toolSearchOutput callId status execution tools) = none := by
        rw [clientOutputKey, if_pos hserver]
      rw [not_orphan_of_none hnone, if_pos hserver, Bool.not_false]
    · rw [if_neg hserver]
      cases callId with
      | none =>
        have hnone : clientOutputKey (.toolSearchOutput none status execution tools) = none := by
          rw [clientOutputKey, if_neg hserver, map_none]
        rw [not_orphan_of_none hnone, Bool.not_false, all_none]
      | some callId =>
        have hkey : clientOutputKey (.toolSearchOutput (some callId) status execution tools) =
            some (.toolSearch callId) := by
          rw [clientOutputKey, if_neg hserver, map_some]
        rw [not_orphan_iff hkey, ← mem_toolSearchCallIds, all_some, decide_eq_true_iff]
  | _ =>
    rfl

theorem removeOrphanOutputs_eq (items : List ResponseItem) :
    removeOrphanOutputs items = callPairing.prune items := by
  apply filter_congr
  intro item _
  exact hasMatchingCall_eq items item

end

theorem ensureCallOutputsPresent_eq (items : List ResponseItem) :
    ensureCallOutputsPresent items = callPairing.fill items := by
  rw [fill, ← missingOutput_eq]
  exact Splice.foldl_insertIdx_eq_flatMap (missingOutput items) items

/-- Outputs without a call are dropped, a made-up output is put behind each call without one, and a
well paired history does not change. -/
theorem normalized_paired (items : List ResponseItem) :
    let normalized := removeOrphanOutputs (ensureCallOutputsPresent items)
    callPairing.Paired normalized ∧
      normalized = (items.flatMap fun item =>
        if callPairing.orphan items item then []
        else item :: (callPairing.missing items item).toList) ∧
      (callPairing.Paired items → normalized = items) ∧
      removeOrphanOutputs (ensureCallOutputsPresent normalized) = normalized := by
  simp only [ensureCallOutputsPresent_eq, removeOrphanOutputs_eq]
  have hpaired := callPairing.paired_prune_fill items
  have hself : ∀ items, callPairing.Paired items →
      callPairing.prune (callPairing.fill items) = items := by
    intro items h
    rw [fill_eq_self h, prune_eq_self h]
  exact ⟨hpaired, prune_fill_eq items, hself items, hself _ hpaired⟩

end CodexRs.Core
