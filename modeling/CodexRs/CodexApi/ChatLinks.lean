import CodexRs.CodexApi.ChatRequest
import CodexRs.Library.Links

/-!
# Tool results and their calls in a chat request

Shell and custom calls are rendered with the item's own `id`, while outputs always carry the
`call_id`.
-/
namespace CodexRs.CodexApi
open Text Protocol Links List

def messageRole (msg : Json) : Option Str := (msg.get "role").bind Json.asStr

def messageCallIds (msg : Json) : List Json :=
  (((msg.get "tool_calls").bind Json.asArray).getD []).filterMap (Json.get "id")

variable (messages : List Json)

/-- Every tool message names a call of an assistant message before it. -/
def LinkedMessages : Prop :=
  ∀ pre msg post, messages = pre ++ msg :: post → messageRole msg = some "tool".toList →
    ∀ link, msg.get "tool_call_id" = some link →
      ∃ m ∈ pre, messageRole m = some "assistant".toList ∧ link ∈ messageCallIds m

def outputCallId : ResponseItem → Option Str
  | .functionCallOutput callId _ => some callId
  | .customToolCallOutput callId _ _ => some callId
  | _ => none

def callCallId : ResponseItem → Option Str
  | .functionCall _ _ _ _ callId => some callId
  | .localShellCall _ callId _ _ => callId
  | .customToolCall _ _ callId _ _ => some callId
  | _ => none

variable (input : List ResponseItem)

/-- Every output has the `call_id` of exactly one call before it. -/
def OutputsHaveCalls : Prop :=
  ∀ pre item post, input = pre ++ item :: post → ∀ id, outputCallId item = some id →
    (pre.filter fun call => callCallId call = some id).length = 1

/-- A function call with this `call_id`, or a shell or custom call with this `id`, which counts as
empty if missing. -/
def GoesBy (id : Str) : ResponseItem → Prop
  | .functionCall _ _ _ _ callId => callId = id
  | .localShellCall itemId _ _ _ => itemId.getD [] = id
  | .customToolCall itemId _ _ _ _ => itemId = some id
  | _ => False

/-- Every output has a `call_id` that a call before it goes by. -/
def OutputsNameItems : Prop :=
  ∀ pre item post, input = pre ++ item :: post → ∀ id, outputCallId item = some id →
    ∃ call ∈ pre, GoesBy id call

def messageLinks (msg : Json) : List (Link Json) :=
  if messageRole msg = some "assistant".toList then (messageCallIds msg).map .call
  else if messageRole msg = some "tool".toList then (msg.get "tool_call_id").toList.map .output
  else []

theorem call_mem_messageLinks {msg id : Json} : .call id ∈ messageLinks msg ↔
      messageRole msg = some "assistant".toList ∧ id ∈ messageCallIds msg := by
  by_cases h : messageRole msg = some "assistant".toList
  · rw [messageLinks, if_pos h, and_iff_right h, mem_map]
    simp only [Link.call.injEq, exists_eq_right]
  · rw [messageLinks]
    refine iff_of_false ?_ fun hmem => h hmem.1
    split_ifs <;> simp

theorem output_mem_messageLinks {msg id : Json} : .output id ∈ messageLinks msg ↔
      messageRole msg = some "tool".toList ∧ msg.get "tool_call_id" = some id := by
  by_cases h : messageRole msg = some "tool".toList
  · have hne : messageRole msg ≠ some "assistant".toList := by
      rw [h]
      decide
    rw [messageLinks, if_neg hne, if_pos h, and_iff_right h, mem_map]
    simp only [Option.mem_toList, Link.output.injEq, exists_eq_right]
  · rw [messageLinks]
    refine iff_of_false ?_ fun hmem => h hmem.1
    split_ifs <;> simp

theorem separate_messageLinks : Separate messageLinks := by
  intro msg id id' ho hc
  have hrole := (output_mem_messageLinks.mp ho).1
  rw [(call_mem_messageLinks.mp hc).1] at hrole
  exact absurd hrole (by decide)

theorem linkedMessages_iff_answered :
    LinkedMessages messages ↔ Answered (messages.flatMap messageLinks) := by
  rw [answered_flatMap_iff separate_messageLinks]
  simp only [output_mem_messageLinks, call_mem_messageLinks, and_imp]
  constructor
  · intro h pre msg post hsplit id hrole hid
    exact h pre msg post hsplit hrole id hid
  · intro h pre msg post hsplit hrole id hid
    exact h pre msg post hsplit id hrole hid

def itemLinks : ResponseItem → List (Link Json)
  | .functionCall _ _ _ _ callId => [.call (.string callId)]
  | .localShellCall id _ _ _ => [.call (.string (id.getD []))]
  | .customToolCall id _ _ _ _ => [.call (.ofOption .string id)]
  | .functionCallOutput callId _ => [.output (.string callId)]
  | .customToolCallOutput callId _ _ => [.output (.string callId)]
  | _ => []

variable {item : ResponseItem}

theorem output_mem_itemLinks {link : Json} :
    .output link ∈ itemLinks item ↔ ∃ id, outputCallId item = some id ∧ link = .string id := by
  cases item <;> simp [itemLinks, outputCallId]

theorem call_mem_itemLinks {id : Str} : .call (.string id) ∈ itemLinks item ↔ GoesBy id item := by
  cases item with
  | customToolCall itemId _ _ _ _ =>
    cases itemId <;> simp [itemLinks, GoesBy, Json.ofOption, eq_comm]
  | _ => simp [itemLinks, GoesBy, eq_comm]

theorem separate_itemLinks : Separate itemLinks := by
  intro item id id' ho hc
  cases item <;> simp [itemLinks] at ho hc

theorem outputsNameItems_iff_answered :
    OutputsNameItems input ↔ Answered (input.flatMap itemLinks) := by
  rw [answered_flatMap_iff separate_itemLinks]
  constructor
  · intro h pre item post hsplit link hlink
    obtain ⟨id, hid, rfl⟩ := output_mem_itemLinks.mp hlink
    obtain ⟨call, hcall, hgoes⟩ := h pre item post hsplit id hid
    exact ⟨call, hcall, call_mem_itemLinks.mpr hgoes⟩
  · intro h pre item post hsplit id hid
    obtain ⟨call, hcall, hmem⟩ :=
      h pre item post hsplit (.string id) (output_mem_itemLinks.mpr ⟨id, hid, rfl⟩)
    exact ⟨call, hcall, call_mem_itemLinks.mp hmem⟩

section

theorem get_insertReasoning {k : String} (h : k ≠ "reasoning") (reasoning : Option Str)
    (msg : Json) : (insertReasoning reasoning msg).get k = msg.get k := by
  cases reasoning with
  | none => rfl
  | some text => exact Json.get_insert_of_ne h _ _

theorem get_appendGroupReasoning {k : String} (h : k ≠ "reasoning") (reasoning : Option Str)
    (msg : Json) : (appendGroupReasoning msg reasoning).get k = msg.get k := by
  cases reasoning with
  | none => rfl
  | some text =>
    simp only [appendGroupReasoning]
    split <;> exact Json.get_insert_of_ne h _ _

/-- Only three fields of a message matter for its links. -/
theorem messageLinks_congr {m m' : Json} (hrole : m.get "role" = m'.get "role")
    (hcalls : m.get "tool_calls" = m'.get "tool_calls")
    (hlink : m.get "tool_call_id" = m'.get "tool_call_id") :
    messageLinks m = messageLinks m' := by
  have hr : messageRole m = messageRole m' := by rw [messageRole, hrole, messageRole]
  have hc : messageCallIds m = messageCallIds m' := by rw [messageCallIds, hcalls, messageCallIds]
  rw [messageLinks, messageLinks, hr, hc, hlink]

variable (reasoning : Option Str)

theorem messageLinks_insertReasoning (msg : Json) :
    messageLinks (insertReasoning reasoning msg) = messageLinks msg :=
  messageLinks_congr (get_insertReasoning (by decide) _ _) (get_insertReasoning (by decide) _ _)
    (get_insertReasoning (by decide) _ _)

theorem messageLinks_appendGroupReasoning (msg : Json) :
    messageLinks (appendGroupReasoning msg reasoning) = messageLinks msg :=
  messageLinks_congr (get_appendGroupReasoning (by decide) _ _)
    (get_appendGroupReasoning (by decide) _ _) (get_appendGroupReasoning (by decide) _ _)

variable {msg : Json}

theorem messageLinks_of_plain (hcalls : msg.get "tool_calls" = none)
    (hlink : msg.get "tool_call_id" = none) : messageLinks msg = [] := by
  rw [messageLinks, messageCallIds, hcalls, hlink]
  split_ifs <;> rfl

variable {calls : List Json}

theorem messageLinks_of_calls (hrole : messageRole msg = some "assistant".toList)
    (hcalls : (msg.get "tool_calls").bind Json.asArray = some calls) :
    messageLinks msg = (calls.filterMap (Json.get "id")).map .call := by
  rw [messageLinks, if_pos hrole, messageCallIds, hcalls, Option.getD_some]

theorem messageLinks_of_tool {msg link : Json} (hrole : messageRole msg = some "tool".toList)
    (hlink : msg.get "tool_call_id" = some link) : messageLinks msg = [.output link] := by
  have hne : messageRole msg ≠ some "assistant".toList := by
    rw [hrole]
    decide
  rw [messageLinks, if_neg hne, if_pos hrole, hlink]
  rfl

theorem messageLinks_renderedMessage (role : Str) (content : List ContentItem)
    (reasoning : Option Str) : messageLinks (renderedMessage role content reasoning) = [] := by
  rw [renderedMessage, messageLinks_insertReasoning]
  apply messageLinks_of_plain <;> simp

theorem messageLinks_toolMessage (callId : Str) (content : Json) :
    messageLinks (toolMessage callId content) = [.output (.string callId)] := by
  apply messageLinks_of_tool
  · simp [messageRole, toolMessage]
  · simp [toolMessage]

theorem messageLinks_newCallMessage {toolCall id : Json} (h : toolCall.get "id" = some id)
    (reasoning : Option Str) : messageLinks (newCallMessage toolCall reasoning) = [.call id] := by
  have hlinks : messageLinks (.object [("role", .ofString "assistant"), ("content", .null),
      ("tool_calls", .array [toolCall])]) = ([toolCall].filterMap (Json.get "id")).map .call :=
    messageLinks_of_calls (by simp [messageRole]) (by simp)
  rw [newCallMessage, messageLinks_insertReasoning, hlinks]
  simp [h]

theorem groupedCalls_eq_some (h : groupedCalls msg = some calls) :
    messageRole msg = some "assistant".toList ∧ msg.get "content" = some .null ∧
      (msg.get "tool_calls").bind Json.asArray = some calls := by
  unfold groupedCalls at h
  split_ifs at h with hif
  obtain ⟨hrole, hnull⟩ := hif
  refine ⟨hrole, ?_, h⟩
  rcases hc : msg.get "content" with _ | (_ | _ | _ | _ | _ | _) <;> simp_all [Json.isNull]

theorem get_insert_calls (h : groupedCalls msg = some calls) (value : Json) :
    (msg.insert "tool_calls" value).get "tool_calls" = some value := by
  obtain ⟨-, -, hcalls⟩ := groupedCalls_eq_some h
  apply Json.get_insert_self (k := "tool_calls")
  cases hget : msg.get "tool_calls" with
  | none => simp [hget] at hcalls
  | some value => rfl

/-- A call is added to the last message or to a new one. -/
theorem pushToolCallMessage_cases (toolCall : Json) (reasoning : Option Str) :
    (∃ init last calls, messages = init ++ [last] ∧ groupedCalls last = some calls ∧
      pushToolCallMessage messages toolCall reasoning = init ++ [appendGroupReasoning
        (last.insert "tool_calls" (.array (calls ++ [toolCall]))) reasoning]) ∨
    pushToolCallMessage messages toolCall reasoning =
      messages ++ [newCallMessage toolCall reasoning] := by
  induction messages using reverseRecOn with
  | nil => exact .inr rfl
  | append_singleton init last _ =>
    cases hcalls : groupedCalls last with
    | none => exact .inr (by simp [pushToolCallMessage, hcalls])
    | some calls =>
      exact .inl ⟨init, last, calls, rfl, hcalls, by simp [pushToolCallMessage, hcalls]⟩

theorem messageLinks_group {last toolCall id : Json}
    (h : groupedCalls last = some calls) (hid : toolCall.get "id" = some id)
    (reasoning : Option Str) :
    messageLinks (appendGroupReasoning
      (last.insert "tool_calls" (.array (calls ++ [toolCall]))) reasoning) =
        messageLinks last ++ [.call id] := by
  obtain ⟨hrole, -, hcalls⟩ := groupedCalls_eq_some h
  have hrole' : messageRole (last.insert "tool_calls" (.array (calls ++ [toolCall]))) =
      some "assistant".toList := by
    rw [messageRole, Json.get_insert_of_ne (by decide)]
    exact hrole
  have hcalls' : ((last.insert "tool_calls" (.array (calls ++ [toolCall]))).get "tool_calls").bind
      Json.asArray = some (calls ++ [toolCall]) := by
    rw [get_insert_calls h, Option.bind_some, Json.asArray_array]
  rw [messageLinks_appendGroupReasoning, messageLinks_of_calls hrole hcalls,
    messageLinks_of_calls hrole' hcalls']
  simp [hid]

theorem links_pushToolCallMessage {toolCall id : Json} (hid : toolCall.get "id" = some id)
    (messages : List Json) (reasoning : Option Str) :
    (pushToolCallMessage messages toolCall reasoning).flatMap messageLinks =
      messages.flatMap messageLinks ++ [.call id] := by
  rcases pushToolCallMessage_cases messages toolCall reasoning with
    ⟨init, last, calls, hmessages, hcalls, hpush⟩ | hpush
  · rw [hpush, hmessages, flatMap_append, flatMap_append, flatMap_singleton,
      flatMap_singleton, messageLinks_group hcalls hid, append_assoc]
  · rw [hpush, flatMap_append, flatMap_singleton, messageLinks_newCallMessage hid]

theorem links_renderMessage (s : RenderState) (role : Str) (content : List ContentItem)
    (reasoning : Option Str) :
    (renderMessage s role content reasoning).messages.flatMap messageLinks =
      s.messages.flatMap messageLinks := by
  simp only [renderMessage]
  split_ifs <;> simp [messageLinks_renderedMessage]

theorem links_renderItem (anchors : Anchors) (s : RenderState) (p : ResponseItem × ℕ) :
    (renderItem anchors s p).messages.flatMap messageLinks =
      s.messages.flatMap messageLinks ++ itemLinks p.1 := by
  obtain ⟨item, idx⟩ := p
  cases item with
  | message id role content phase => exact (links_renderMessage s _ _ _).trans (append_nil _).symm
  | functionCall => exact links_pushToolCallMessage (by simp [functionToolCall]) _ _
  | localShellCall => exact links_pushToolCallMessage (by simp [localShellToolCall]) _ _
  | customToolCall => exact links_pushToolCallMessage (by simp [customToolCall]) _ _
  | functionCallOutput | customToolCallOutput =>
    simp [renderItem, itemLinks, messageLinks_toolMessage]
  | _ => exact (append_nil _).symm

theorem links_foldl_renderItem (anchors : Anchors) (items : List (ResponseItem × ℕ))
    (s : RenderState) :
    (items.foldl (renderItem anchors) s).messages.flatMap messageLinks =
      s.messages.flatMap messageLinks ++ (items.map Prod.fst).flatMap itemLinks := by
  induction items generalizing s with
  | nil => simp
  | cons p items ih =>
    rw [foldl_cons, ih, links_renderItem, map_cons, flatMap_cons, append_assoc]

/-- The calls and outputs of the messages are those of the items, in their order. -/
theorem links_buildMessages (instructions : Str) (input : List ResponseItem) :
    (buildMessages instructions input).flatMap messageLinks = input.flatMap itemLinks := by
  have hsystem : messageLinks (systemMessage instructions) = [] :=
    messageLinks_of_plain (by simp [systemMessage]) (by simp [systemMessage])
  rw [buildMessages, links_foldl_renderItem, flatMap_singleton, hsystem, nil_append,
    zipIdx_map_fst]

end

/-- Tool messages name the calls before them exactly if the outputs carry the ids that shell and
custom calls are rendered with. -/
theorem linkedMessages_buildMessages_iff (instructions : Str) (input : List ResponseItem) :
    LinkedMessages (buildMessages instructions input) ↔ OutputsNameItems input := by
  rw [linkedMessages_iff_answered, links_buildMessages, outputsNameItems_iff_answered]

/-- A custom call and its output, as the model and the tool leave them. -/
def customCallHistory : List ResponseItem :=
  [.customToolCall none none "c".toList "apply_patch".toList "p".toList,
    .customToolCallOutput "c".toList none ⟨.text "ok".toList, none⟩]

theorem not_linkedMessages_customCall :
    OutputsHaveCalls customCallHistory ∧
      ¬ LinkedMessages (buildMessages [] customCallHistory) := by
  constructor
  · rintro (_ | ⟨first, _ | ⟨second, pre⟩⟩) item post hsplit id hid
    · simp only [customCallHistory, nil_append, cons.injEq] at hsplit
      rw [← hsplit.1] at hid
      cases hid
    · simp only [customCallHistory, cons_append, nil_append, cons.injEq] at hsplit
      rw [← hsplit.2.1] at hid
      cases hid
      rw [← hsplit.1]
      rfl
    · simp [customCallHistory] at hsplit
  · rw [linkedMessages_iff_answered, links_buildMessages]
    intro h
    have hmem := h [.call .null] (.string "c".toList) [] rfl
    simp at hmem

end CodexRs.CodexApi
