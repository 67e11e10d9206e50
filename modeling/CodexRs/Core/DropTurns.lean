import CodexRs.Core.ContextManager

/-!
# Dropping the newest turn

Dropping one turn cuts it off exactly, unless the history before it ends with injected context.
-/
namespace CodexRs.Core
open Protocol Utils ContextManager List

variable (prims : Primitives) (item : ResponseItem)

/-- A message with injected context. -/
def isContextualMessage : Bool :=
  isContextualDevMessage item || isContextualUserMessage prims item

/-- The newest item is context that was injected. -/
def endsInContext (history : List ResponseItem) : Bool :=
  history.getLast?.any (isContextualMessage prims)

/-- The first of the items is a turn of the user, and the only one. -/
def isOneTurn : List ResponseItem → Bool
  | [] => false
  | first :: rest => isUserTurnBoundary prims first && rest.all (!isUserTurnBoundary prims ·)

variable {prims} {policy : TruncationPolicy} {items : List ResponseItem}

theorem isOneTurn_iff : isOneTurn prims items = true ↔
      ∃ first rest, items = first :: rest ∧ isUserTurnBoundary prims first = true ∧
        ∀ item ∈ rest, isUserTurnBoundary prims item = false := by
  cases items <;> simp [isOneTurn]

theorem recordItems_recordItems (manager : ContextManager) (items more : List ResponseItem) :
    (manager.recordItems prims policy items).recordItems prims policy more =
      manager.recordItems prims policy (items ++ more) := by
  simp [ContextManager.recordItems]

variable {item : ResponseItem}

theorem isApiMessage_of_boundary (h : isUserTurnBoundary prims item = true) :
    isApiMessage item = true := by
  cases item with
  | message id role content phase =>
    simp only [isApiMessage, decide_eq_true_eq]
    rintro rfl
    simp [isUserTurnBoundary] at h
  | _ => cases h

theorem processItem_of_boundary (h : isUserTurnBoundary prims item = true) :
    processItem prims policy item = item := by
  cases item with
  | message id role content phase => rfl
  | _ => cases h

theorem isUserTurnBoundary_processItem : isUserTurnBoundary prims (processItem prims policy item) =
      isUserTurnBoundary prims item := by
  cases item <;> rfl

/-- Recording leaves out items and shortens outputs, but keeps turns apart. -/
theorem isOneTurn_record (h : isOneTurn prims items = true) : isOneTurn prims
      ((items.filter isApiMessage).map (processItem prims policy)) = true := by
  obtain ⟨first, rest, rfl, hfirst, hrest⟩ := isOneTurn_iff.mp h
  apply isOneTurn_iff.mpr
  refine ⟨first, (rest.filter isApiMessage).map (processItem prims policy), ?_, hfirst, ?_⟩
  · rw [filter_cons_of_pos (isApiMessage_of_boundary hfirst), map_cons,
      processItem_of_boundary hfirst]
  · intro item hitem
    obtain ⟨recorded, hrecorded, rfl⟩ := mem_map.mp hitem
    rw [isUserTurnBoundary_processItem]
    exact hrest recorded (mem_of_mem_filter hrecorded)

section

theorem userMessagePositions_append_turn (history : List ResponseItem) {turn : List ResponseItem}
    (h : isOneTurn prims turn = true) :
    userMessagePositions prims (history ++ turn) =
      userMessagePositions prims history ++ [history.length] := by
  obtain ⟨first, rest, rfl, hfirst, hrest⟩ := isOneTurn_iff.mp h
  have hnone : (rest.zipIdx (history.length + 1)).filterMap
      (fun p => if isUserTurnBoundary prims p.1 then some p.2 else none) = [] := by
    apply filterMap_eq_nil_iff.mpr
    intro p hp
    have hitem : p.1 ∈ rest := fst_mem_of_mem_zipIdx hp
    simp [hrest p.1 hitem]
  unfold userMessagePositions
  rw [zipIdx_append, filterMap_append, zipIdx_cons, Nat.zero_add, filterMap_cons, hnone]
  simp [hfirst]

variable {history turn : List ResponseItem}

/-- The cut stays where it is behind an item that is no context. -/
theorem trimPreTurnContextUpdates_history
    (h : endsInContext prims history = false) (first : ℕ) (reference : Option TurnContextItem) :
    trimPreTurnContextUpdates prims (history ++ turn) first history.length reference =
      (history.length, reference) := by
  rcases eq_nil_or_concat history with rfl | ⟨before, last, rfl⟩
  · rfl
  · have hlast : isContextualDevMessage last = false ∧
        isContextualUserMessage prims last = false := by
      simpa [endsInContext, isContextualMessage] using h
    rw [concat_eq_append, length_append, length_singleton, trimPreTurnContextUpdates]
    simp [hlast]

theorem dropLastNUserTurns_one {manager : ContextManager}
    (hitems : manager.items = history ++ turn) (hturn : isOneTurn prims turn = true)
    (hhistory : endsInContext prims history = false) :
    manager.dropLastNUserTurns prims 1 = { manager with items := history } := by
  have htrim (first : ℕ) (reference : Option TurnContextItem) :
      trimPreTurnContextUpdates prims (history ++ turn) first history.length reference =
        (history.length, reference) :=
    trimPreTurnContextUpdates_history hhistory first reference
  have hpositions := userMessagePositions_append_turn history hturn
  rw [dropLastNUserTurns, if_neg (by decide), hitems, hpositions]
  cases userMessagePositions prims history <;> simp [htrim]

end

theorem not_boundary_of_contextual (h : isContextualMessage prims item = true) :
    isUserTurnBoundary prims item = false := by
  cases item with
  | message id role content phase =>
    simp only [isContextualMessage, isContextualDevMessage, isContextualUserMessage,
      Bool.or_eq_true, Bool.and_eq_true, decide_eq_true_eq] at h
    rcases h with ⟨rfl, -⟩ | ⟨rfl, hcontent⟩
    · rfl
    · simp only [isUserTurnBoundary, hcontent]
      rfl
  | _ => rfl

/-- The context that the cut takes with it has no turns of the user. -/
theorem filter_trimPreTurnContextUpdates (snapshot : List ResponseItem) (first cutIdx : ℕ)
    (reference : Option TurnContextItem) :
    (snapshot.take (trimPreTurnContextUpdates prims snapshot first cutIdx reference).1).filter
        (isUserTurnBoundary prims) =
      (snapshot.take cutIdx).filter (isUserTurnBoundary prims) := by
  induction cutIdx generalizing reference with
  | zero => rfl
  | succ cutIdx ih =>
    rw [trimPreTurnContextUpdates]
    split_ifs
    · cases hitem : snapshot[cutIdx]? with
      | none => rfl
      | some item =>
        have htake : snapshot.take (cutIdx + 1) = snapshot.take cutIdx ++ [item] := by
          rw [take_add_one, hitem, Option.toList_some]
        have hskip (h : isContextualMessage prims item = true) :
            (snapshot.take (cutIdx + 1)).filter (isUserTurnBoundary prims) =
              (snapshot.take cutIdx).filter (isUserTurnBoundary prims) := by
          rw [htake]
          simp [not_boundary_of_contextual h]
        simp only
        split_ifs with hdev hmixed huser
        · rw [ih, hskip (by simp [isContextualMessage, hdev])]
        · rw [ih, hskip (by simp [isContextualMessage, hdev])]
        · rw [ih, hskip (by simp [isContextualMessage, huser])]
        · rfl
    · rfl

theorem length_userMessagePositions (items : List ResponseItem) :
    (userMessagePositions prims items).length =
      (items.filter (isUserTurnBoundary prims)).length := by
  unfold userMessagePositions
  generalize 0 = start
  induction items generalizing start with
  | nil => rfl
  | cons item items ih =>
    rw [zipIdx_cons, filterMap_cons, filter_cons]
    cases isUserTurnBoundary prims item <;> simpa using ih (start + 1)

/-- Before the position of a turn stand the turns before it. -/
theorem filter_take_position {k position : ℕ}
    (h : (userMessagePositions prims items)[k]? = some position) :
    (items.take position).filter (isUserTurnBoundary prims) =
      (items.filter (isUserTurnBoundary prims)).take k := by
  have hfrom : ∀ (start position k : ℕ),
      ((items.zipIdx start).filterMap
        fun p => if isUserTurnBoundary prims p.1 then some p.2 else none)[k]? = some position →
      start ≤ position ∧ (items.take (position - start)).filter (isUserTurnBoundary prims) =
        (items.filter (isUserTurnBoundary prims)).take k := by
    clear h
    induction items with
    | nil =>
      intro start position k h
      simp at h
    | cons item items ih =>
      intro start position k h
      rw [zipIdx_cons, filterMap_cons] at h
      cases hitem : isUserTurnBoundary prims item with
      | false =>
        simp only [hitem] at h
        obtain ⟨hle, htake⟩ := ih (start + 1) position k h
        obtain ⟨rest, hrest⟩ : ∃ rest, position - start = rest + 1 :=
          ⟨position - (start + 1), by omega⟩
        refine ⟨by omega, ?_⟩
        rw [hrest, take_succ_cons, filter_cons_of_neg (by simp [hitem]),
          filter_cons_of_neg (by simp [hitem]), ← htake]
        congr 2
        omega
      | true =>
        simp only [hitem] at h
        cases k with
        | zero =>
          obtain rfl : start = position := by simpa using h
          simp
        | succ k =>
          obtain ⟨hle, htake⟩ := ih (start + 1) position k (by simpa using h)
          obtain ⟨rest, hrest⟩ : ∃ rest, position - start = rest + 1 :=
            ⟨position - (start + 1), by omega⟩
          refine ⟨by omega, ?_⟩
          rw [hrest, take_succ_cons, filter_cons_of_pos hitem,
            filter_cons_of_pos hitem, take_succ_cons, ← htake]
          congr 3
          omega
  simpa using (hfrom 0 position k h).2

variable (manager : ContextManager)

theorem filter_dropLastNUserTurns (numTurns : UInt32) :
    (manager.dropLastNUserTurns prims numTurns).items.filter (isUserTurnBoundary prims) =
      (manager.items.filter (isUserTurnBoundary prims)).take
        ((manager.items.filter (isUserTurnBoundary prims)).length - numTurns.toNat) := by
  have hlength : (userMessagePositions prims manager.items).length = _ :=
    length_userMessagePositions manager.items
  rw [dropLastNUserTurns]
  split_ifs with hzero
  · subst hzero
    exact (take_length).symm
  cases hpositions : userMessagePositions prims manager.items with
  | nil =>
    rw [hpositions] at hlength
    have hnil := eq_nil_of_length_eq_zero hlength.symm
    simp only [hnil, take_nil]
  | cons first later =>
    rw [hpositions] at hlength
    have hpos : 0 < numTurns.toNat := Nat.pos_of_ne_zero fun h => hzero (UInt32.toNat_inj.mp h)
    simp only [filter_trimPreTurnContextUpdates]
    split_ifs with hall
    · rw [filter_take_position (k := 0) (by rw [hpositions]; rfl), ← hlength,
        Nat.sub_eq_zero_of_le hall]
    · have hget : (userMessagePositions prims manager.items)[
          (first :: later).length - numTurns.toNat]? =
          some ((first :: later).getD ((first :: later).length - numTurns.toNat) first) := by
        rw [hpositions, getD_eq_getElem?_getD, getElem?_eq_getElem (by omega)]
        rfl
      rw [filter_take_position hget, hlength]

theorem filter_recordItems (items : List ResponseItem) :
    (manager.recordItems prims policy items).items.filter (isUserTurnBoundary prims) =
      manager.items.filter (isUserTurnBoundary prims) ++
        items.filter (isUserTurnBoundary prims) := by
  rw [ContextManager.recordItems, filter_append, append_cancel_left_eq]
  induction items with
  | nil => rfl
  | cons item items ih =>
    cases hitem : isUserTurnBoundary prims item with
    | true =>
      rw [filter_cons_of_pos (isApiMessage_of_boundary hitem), map_cons,
        processItem_of_boundary hitem, filter_cons_of_pos hitem,
        filter_cons_of_pos hitem, ih]
    | false =>
      have hskip : (item :: items).filter (isUserTurnBoundary prims) =
          items.filter (isUserTurnBoundary prims) := filter_cons_of_neg (by simp [hitem])
      rw [hskip, ← ih, filter_cons]
      split_ifs
      · rw [map_cons, filter_cons_of_neg (by simp [isUserTurnBoundary_processItem, hitem])]
      · rfl

end CodexRs.Core
