import CodexRs.CodexApi.ChatLinks
import Mathlib.Data.List.Chain

/-!
# Calls that share a message

A call joins the message of the call before it unless a message or an output has been rendered
in between. Items that are not rendered do not part them.
-/
namespace CodexRs.CodexApi
open Text Protocol List

/-- The `tool_calls` of a message. -/
def messageCalls (msg : Json) : List Json := ((msg.get "tool_calls").bind Json.asArray).getD []

/-- What a call is rendered as. -/
def itemCall : ResponseItem → Option Json
  | .functionCall _ name _ arguments callId => some (functionToolCall name arguments callId)
  | .localShellCall id _ status action => some (localShellToolCall id status action)
  | .customToolCall id _ _ name input => some (customToolCall id name input)
  | _ => none

/-- An assistant message with `tool_calls`. -/
def IsCallMessage (msg : Json) : Prop :=
  messageRole msg = some "assistant".toList ∧ (msg.get "tool_calls").isSome = true

/-- The messages have these calls, a further call would join the last message if that has any,
and no two neighbours have calls. -/
structure Grouped (messages calls : List Json) : Prop where
  calls : messages.flatMap messageCalls = calls
  joins : ∀ msg ∈ messages, msg.get "tool_calls" = none ∨ (groupedCalls msg).isSome = true
  apart : messages.IsChain fun m m' => ¬ (IsCallMessage m ∧ IsCallMessage m')

variable {messages calls : List Json} {msg : Json}

theorem Grouped.concat_plain (h : Grouped messages calls) (hmsg : msg.get "tool_calls" = none) :
    Grouped (messages ++ [msg]) calls where
  calls := by simp [h.calls, messageCalls, hmsg]
  joins := forall_mem_append.mpr ⟨h.joins, forall_mem_singleton.mpr (.inl hmsg)⟩
  apart := by
    apply isChain_append.mpr
    refine ⟨h.apart, .singleton _, ?_⟩
    intro m _ m' hm' hboth
    obtain rfl : msg = m' := by simpa using hm'
    simp [IsCallMessage, hmsg] at hboth

theorem groupedCalls_of_get {calls : List Json} (hrole : messageRole msg = some "assistant".toList)
    (hcontent : msg.get "content" = some .null) (hcalls : msg.get "tool_calls" = some (.array calls)) :
    groupedCalls msg = some calls := by
  unfold groupedCalls
  rw [if_pos ⟨hrole, by rw [hcontent]; rfl⟩, hcalls]
  simp

/-- The message of calls `groupedCalls` reads keeps its place when a call joins it. -/
theorem groupedCalls_join {last : Json} (h : groupedCalls last = some calls) (toolCall : Json)
    (reasoning : Option Str) :
    groupedCalls (appendGroupReasoning (last.insert "tool_calls" (.array (calls ++ [toolCall])))
      reasoning) = some (calls ++ [toolCall]) := by
  obtain ⟨hrole, hcontent, -⟩ := groupedCalls_eq_some h
  apply groupedCalls_of_get
  · rw [messageRole, get_appendGroupReasoning (by decide), Json.get_insert_of_ne (by decide)]
    exact hrole
  · rw [get_appendGroupReasoning (by decide), Json.get_insert_of_ne (by decide), hcontent]
  · rw [get_appendGroupReasoning (by decide), get_insert_calls h]

theorem groupedCalls_newCallMessage (toolCall : Json) (reasoning : Option Str) :
    groupedCalls (newCallMessage toolCall reasoning) = some [toolCall] := by
  apply groupedCalls_of_get
  · rw [messageRole, newCallMessage, get_insertReasoning (by decide)]
    simp
  · rw [newCallMessage, get_insertReasoning (by decide)]
    simp
  · rw [newCallMessage, get_insertReasoning (by decide)]
    simp

theorem messageCalls_of_groupedCalls (h : groupedCalls msg = some calls) :
    messageCalls msg = calls := by
  rw [messageCalls, (groupedCalls_eq_some h).2.2]
  rfl

theorem isCallMessage_of_groupedCalls (h : groupedCalls msg = some calls) : IsCallMessage msg := by
  obtain ⟨hrole, -, hcalls⟩ := groupedCalls_eq_some h
  refine ⟨hrole, ?_⟩
  cases hget : msg.get "tool_calls" with
  | none => simp [hget] at hcalls
  | some value => rfl

/-- The last message has calls exactly when the call joins it, so a new message stands behind one
that has none. -/
theorem Grouped.push (h : Grouped messages calls) (toolCall : Json) (reasoning : Option Str) :
    Grouped (pushToolCallMessage messages toolCall reasoning) (calls ++ [toolCall]) := by
  induction messages using reverseRecOn with
  | nil =>
    obtain rfl : [] = calls := h.calls
    have hnew := groupedCalls_newCallMessage toolCall reasoning
    exact ⟨by simp [pushToolCallMessage, messageCalls_of_groupedCalls hnew],
      by simp [pushToolCallMessage, hnew], .singleton _⟩
  | append_singleton init last _ =>
    obtain ⟨hchain, -, hlast⟩ := isChain_append.mp h.apart
    have hinit : ∀ m ∈ init, m.get "tool_calls" = none ∨ (groupedCalls m).isSome = true :=
      fun m hm => h.joins m (mem_append_left _ hm)
    have hcalls := h.calls
    rw [flatMap_append, flatMap_singleton] at hcalls
    cases hgroup : groupedCalls last with
    | some group =>
      have hjoin := groupedCalls_join hgroup toolCall reasoning
      have hpush : pushToolCallMessage (init ++ [last]) toolCall reasoning = init ++
          [appendGroupReasoning (last.insert "tool_calls" (.array (group ++ [toolCall])))
            reasoning] := by simp [pushToolCallMessage, hgroup]
      rw [messageCalls_of_groupedCalls hgroup] at hcalls
      rw [hpush]
      refine ⟨?_, forall_mem_append.mpr ⟨hinit, forall_mem_singleton.mpr ?_⟩,
        isChain_append.mpr ⟨hchain, .singleton _, ?_⟩⟩
      · simp [messageCalls_of_groupedCalls hjoin, ← hcalls]
      · rw [hjoin]
        exact .inr rfl
      · intro m hm _ _ hboth
        exact hlast m hm last rfl ⟨hboth.1, isCallMessage_of_groupedCalls hgroup⟩
    | none =>
      have hnew := groupedCalls_newCallMessage toolCall reasoning
      have hplain : last.get "tool_calls" = none := by
        simpa [hgroup] using h.joins last (by simp)
      have hpush : pushToolCallMessage (init ++ [last]) toolCall reasoning =
          init ++ [last] ++ [newCallMessage toolCall reasoning] := by
        simp [pushToolCallMessage, hgroup]
      rw [hpush]
      refine ⟨?_, forall_mem_append.mpr ⟨h.joins, forall_mem_singleton.mpr ?_⟩,
        isChain_append.mpr ⟨h.apart, .singleton _, ?_⟩⟩
      · rw [flatMap_append, h.calls]
        simp [messageCalls_of_groupedCalls hnew]
      · rw [hnew]
        exact .inr rfl
      · intro m hm _ _ hboth
        obtain rfl : last = m := by simpa using hm
        simp [IsCallMessage, hplain] at hboth

theorem Grouped.renderItem {s : RenderState} (h : Grouped s.messages calls) (anchors : Anchors)
    (p : ResponseItem × ℕ) :
    Grouped (renderItem anchors s p).messages (calls ++ (itemCall p.1).toList) := by
  obtain ⟨item, idx⟩ := p
  cases item with
  | message id role content phase =>
    have hplain : ∀ reasoning, (renderedMessage role content reasoning).get "tool_calls" = none := by
      intro reasoning
      rw [renderedMessage, get_insertReasoning (by decide)]
      simp
    simp only [CodexApi.renderItem, renderMessage, itemCall, Option.toList_none, append_nil]
    split_ifs
    · exact h
    · exact h.concat_plain (hplain _)
    · exact h.concat_plain (hplain _)
  | functionCall | localShellCall | customToolCall => exact h.push _ _
  | functionCallOutput | customToolCallOutput =>
    simp only [itemCall, Option.toList_none, append_nil]
    exact h.concat_plain (by simp [toolMessage])
  | _ => simpa [CodexApi.renderItem, itemCall] using h

/-- The calls of the messages are those of the items in their order, and no two neighbouring
messages have calls. -/
theorem buildMessages_groups_calls (instructions : Str) (input : List ResponseItem) :
    (buildMessages instructions input).flatMap messageCalls = input.filterMap itemCall ∧
      (buildMessages instructions input).IsChain fun m m' =>
        ¬ (IsCallMessage m ∧ IsCallMessage m') := by
  have hfold : ∀ (items : List (ResponseItem × ℕ)) (s : RenderState) (calls : List Json),
      Grouped s.messages calls →
        Grouped (items.foldl (renderItem (reasoningByAnchorIndex input)) s).messages
          (calls ++ (items.map Prod.fst).filterMap itemCall) := by
    intro items
    induction items with
    | nil => simp
    | cons p items ih =>
      intro s calls h
      have hrest := ih _ _ (h.renderItem (reasoningByAnchorIndex input) p)
      cases hcall : itemCall p.1 <;> simpa [hcall] using hrest
  have hsystem : Grouped [systemMessage instructions] [] :=
    ⟨by simp [messageCalls, systemMessage], by simp [systemMessage], .singleton _⟩
  have hgrouped := hfold input.zipIdx ⟨[systemMessage instructions], none⟩ [] hsystem
  rw [zipIdx_map_fst] at hgrouped
  exact ⟨hgrouped.calls, hgrouped.apart⟩

end CodexRs.CodexApi
