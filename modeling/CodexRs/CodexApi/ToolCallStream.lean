import CodexRs.CodexApi.ChatCompletion
import CodexRs.CodexApi.ToolRouting

/-!
# The tool calls of a chat stream

One function call is sent for each call with a name, in the order of their first fragments. Only
the choices that a stream gives matter for the function calls sent; with them the calls of
uniformly labelled fragments are sent once each.
-/
namespace CodexRs.CodexApi
open Text Protocol List

/-- The function calls among the finished items. -/
def functionCalls (events : List Event) : List ResponseItem :=
  events.filterMap fun e =>
    match e with
    | .ok (.outputItemDone (.functionCall id name ns arguments callId)) =>
      some (.functionCall id name ns arguments callId)
    | _ => none

def choiceFragments (choice : Json) : List Fragment :=
  ((((choice.get "delta").bind (Json.get "tool_calls")).bind Json.asArray).getD []).map .ofJson

def finishReason (choice : Json) : Option Str := (choice.get "finish_reason").bind Json.asStr

theorem functionCalls_append (xs ys : List Event) :
    functionCalls (xs ++ ys) = functionCalls xs ++ functionCalls ys :=
  filterMap_append

theorem functionCalls_of_textEvents {events : List Event} (h : ∀ e ∈ events, isFunctionCall e = false) :
    functionCalls events = [] := by
  apply filterMap_eq_nil_iff.mpr
  intro e he
  have hnot := h e he
  rcases e with _ | ⟨item | _ | _ | _ | _⟩ <;> try rfl
  cases item <;> first | rfl | cases hnot

/-- From `s` to `t` the fragments are routed, and no function call is sent. -/
structure Carries (fragments : List Fragment) (s t : ChatState) : Prop where
  shaped : Shaped t
  tools : t.tools = fragments.foldl ToolCalls.route s.tools
  functionCalls : functionCalls t.sent = functionCalls s.sent

section
variable {s t u : ChatState}

theorem Carries.trans {xs ys : List Fragment} (h : Carries xs s t) (h' : Carries ys t u) :
    Carries (xs ++ ys) s u where
  shaped := h'.shaped
  tools := by rw [h'.tools, h.tools, foldl_append]
  functionCalls := h'.functionCalls.trans h.functionCalls

theorem Grows.carries {xs : List Fragment} (h : Grows TextEvent s t)
    (htools : t.tools = xs.foldl ToolCalls.route s.tools) : Carries xs s t where
  shaped := h.shaped
  tools := htools
  functionCalls := by
    obtain ⟨events, hsent, htext, -⟩ := h.sent
    rw [hsent, functionCalls_append, functionCalls_of_textEvents fun e he => (htext e he).2,
      append_nil]

theorem tools_appendAssistantText (s : ChatState) (text : Str) :
    (appendAssistantText s text).tools = s.tools := by
  have hopen : (openAssistant s).tools = s.tools := by
    unfold openAssistant
    split <;> rfl
  simp only [appendAssistantText]
  split <;> exact hopen

theorem tools_appendReasoning (s : ChatState) (holder : Json) :
    (appendReasoning s holder).tools = s.tools := by
  have hopen : (openReasoning s).tools = s.tools := by
    unfold openReasoning
    split <;> rfl
  unfold appendReasoning
  split
  · simp only [appendReasoningText]
    split <;> exact hopen
  · rfl

theorem tools_appendContent (s : ChatState) (delta : Json) :
    (appendContent s delta).tools = s.tools := by
  unfold appendContent
  split
  · rename_i content _
    generalize contentTexts content = texts
    induction texts generalizing s with
    | nil => rfl
    | cons text texts ih => rw [foldl_cons, ih, tools_appendAssistantText]
  · rfl

theorem tools_applyDelta (s : ChatState) (choice : Json) :
    (applyDelta s choice).tools = (choiceFragments choice).foldl ToolCalls.route s.tools := by
  unfold applyDelta
  cases hd : choice.get "delta" with
  | none => simp [choiceFragments, hd]
  | some delta =>
    cases ht : (delta.get "tool_calls").bind Json.asArray with
    | none =>
      simp [choiceFragments, hd, routeToolCalls, ht, tools_appendContent, tools_appendReasoning]
    | some toolCalls =>
      simp [choiceFragments, hd, routeToolCalls, ht, tools_appendContent, tools_appendReasoning,
        foldl_map]

theorem tools_flushReasoning (s : ChatState) : (flushReasoning s).tools = s.tools := by
  unfold flushReasoning
  split <;> rfl

theorem tools_flushAssistant (s : ChatState) : (flushAssistant s).tools = s.tools := by
  unfold flushAssistant
  split <;> rfl

theorem carries_apply (hs : Shaped s) (choice : Json) :
    Carries (choiceFragments choice) s (applyMessage (applyDelta s choice) choice) := by
  have hdelta := grows_applyDelta hs choice
  apply (hdelta.trans (grows_applyMessage hdelta.shaped choice)).carries
  rw [← tools_applyDelta]
  unfold applyMessage
  split
  · exact tools_appendReasoning _ _
  · rfl

theorem carries_flushReasoning (hs : Shaped s) : Carries [] s (flushReasoning s) :=
  (grows_flushReasoning hs).1.carries (tools_flushReasoning s)

theorem carries_flush (hs : Shaped s) : Carries [] s (flushAssistant (flushReasoning s)) :=
  (grows_flush hs).1.carries (by rw [tools_flushAssistant, tools_flushReasoning, foldl_nil])

theorem carries_finishStop (hs : Shaped s) : Carries [] s (finishStop s) := by
  have hflush := carries_flush hs
  simp only [finishStop]
  split
  · exact hflush
  · refine ⟨⟨hflush.shaped.assistant, hflush.shaped.reasoning⟩, hflush.tools, ?_⟩
    rw [← hflush.functionCalls]
    exact (functionCalls_append _ _).trans (append_nil _)

theorem processChoice_carries (hs : Shaped s) {choice : Json}
    (hlength : finishReason choice ≠ some "length".toList)
    (hcalls : finishReason choice ≠ some "tool_calls".toList) :
    ∃ t, processChoice s choice = (t, false) ∧ Carries (choiceFragments choice) s t := by
  have happly := carries_apply hs choice
  rw [finishReason] at hlength hcalls
  by_cases hstop : (choice.get "finish_reason").bind Json.asStr = some "stop".toList
  · refine ⟨_, if_pos hstop, ?_⟩
    have h := happly.trans (carries_finishStop happly.shaped)
    rwa [append_nil] at h
  · exact ⟨_, by rw [processChoice, if_neg hstop, if_neg hlength, if_neg hcalls], happly⟩

theorem processChoices_cons_of_false {choice : Json} (h : processChoice s choice = (t, false))
    (rest : List Json) : processChoices s (choice :: rest) = processChoices t rest := by
  rw [processChoices, h]

theorem processChoices_carries {choices : List Json} (hs : Shaped s) (hopen : ∀ c ∈ choices,
      finishReason c ≠ some "length".toList ∧ finishReason c ≠ some "tool_calls".toList) :
    ∃ t, Carries (choices.flatMap choiceFragments) s t ∧
      ∀ rest, processChoices s (choices ++ rest) = processChoices t rest := by
  induction choices generalizing s with
  | nil => exact ⟨s, ⟨hs, rfl, rfl⟩, fun _ => rfl⟩
  | cons choice choices ih =>
    have hone := hopen choice (mem_cons_self ..)
    obtain ⟨t, ht, hcarries⟩ := processChoice_carries hs hone.1 hone.2
    obtain ⟨u, hrest, hu⟩ := ih hcarries.shaped fun c hc => hopen c (mem_cons_of_mem _ hc)
    refine ⟨u, hcarries.trans hrest, fun rest => ?_⟩
    rw [cons_append, processChoices_cons_of_false ht, hu]

end

section
variable {κ : Type*} [DecidableEq κ] {frags : Labelled κ} {φ : κ → ℕ} {s : ChatState}

/-- What is sent for a call: its first name, all its arguments and its first id, if any. -/
def IsCallOf (frags : Labelled κ) (c : κ) (item : ResponseItem) : Prop :=
  ∃ name callId', item = .functionCall none name none (callArguments c frags) callId' ∧
    callName c frags = some name ∧ ∀ id, callId c frags = some id → callId' = id

theorem isCallOf_functionCallItem {c : κ} {name : Str} (hname : callName c frags = some name)
    (index : ℕ) : IsCallOf frags c (functionCallItem index (callState c frags) name) := by
  refine ⟨name, _, rfl, hname, fun id hid => ?_⟩
  rw [callState, hid, Option.getD_some]

theorem sendToolCall_callState {c : κ} {i : ℕ}
    (h : s.tools.calls.lookup i = some (callState c frags)) :
    ∃ items, functionCalls (sendToolCall s i).sent = functionCalls s.sent ++ items ∧
      Forall₂ (IsCallOf frags) ([c].filter fun c => (callName c frags).isSome) items := by
  cases hname : callName c frags with
  | none =>
    refine ⟨[], ?_, by simp [hname]⟩
    simp [sendToolCall, h, callState, hname]
  | some name =>
    refine ⟨[functionCallItem i (callState c frags) name], ?_, ?_⟩
    · have hstate : (callState c frags).name = some name := hname
      simp only [sendToolCall, h, hstate]
      exact functionCalls_append _ _
    · rw [filter_cons_of_pos (by simp [hname])]
      exact .cons (isCallOf_functionCallItem hname i) .nil

theorem lookup_sendToolCall_ne {i j : ℕ} (h : j ≠ i) :
    (sendToolCall s i).tools.calls.lookup j = s.tools.calls.lookup j := by
  have herase : (s.tools.calls.erase i).lookup j = s.tools.calls.lookup j := AList.lookup_erase_ne h
  simp only [sendToolCall]
  split
  · rfl
  · split <;> exact herase

theorem order_sendToolCall (s : ChatState) (i : ℕ) :
    (sendToolCall s i).tools.order = s.tools.order := by
  simp only [sendToolCall]
  split
  · rfl
  · split <;> rfl

theorem order_foldl_sendToolCall (indices : List ℕ) (s : ChatState) :
    (indices.foldl sendToolCall s).tools.order = s.tools.order := by
  induction indices generalizing s with
  | nil => rfl
  | cons i indices ih => rw [foldl_cons, ih, order_sendToolCall]

theorem foldl_sendToolCall {calls : List κ} (hnodup : (calls.map φ).Nodup)
    (h : ∀ c ∈ calls, s.tools.calls.lookup (φ c) = some (callState c frags)) :
    ∃ items, functionCalls ((calls.map φ).foldl sendToolCall s).sent =
        functionCalls s.sent ++ items ∧
      Forall₂ (IsCallOf frags) (calls.filter fun c => (callName c frags).isSome) items := by
  induction calls generalizing s with
  | nil => exact ⟨[], by simp, by simp⟩
  | cons c calls ih =>
    rw [map_cons, nodup_cons] at hnodup
    obtain ⟨one, hone, hcall⟩ := sendToolCall_callState (h c (mem_cons_self ..))
    have hrest : ∀ d ∈ calls,
        (sendToolCall s (φ c)).tools.calls.lookup (φ d) = some (callState d frags) := by
      intro d hd
      have hne : φ d ≠ φ c := fun heq => hnodup.1 (heq ▸ mem_map_of_mem hd)
      rw [lookup_sendToolCall_ne hne, h d (mem_cons_of_mem _ hd)]
    obtain ⟨items, hitems, hcalls⟩ := ih hnodup.2 hrest
    refine ⟨one ++ items, ?_, ?_⟩
    · rw [map_cons, foldl_cons, hitems, hone, append_assoc]
    · rw [← singleton_append, filter_append]
      exact rel_append hcall hcalls

theorem nodup_callsOf (frags : Labelled κ) : (callsOf frags).Nodup := by
  induction frags using reverseRecOn with
  | nil => exact .nil
  | append_singleton frags last ih =>
    rw [callsOf_concat]
    split_ifs with h
    · exact ih
    · refine nodup_append.mpr ⟨ih, by simp, ?_⟩
      rintro c hc d hd rfl
      rw [mem_singleton.mp hd, mem_callsOf, ← mem_map] at hc
      exact h hc

theorem finishToolCalls_of_routed (hs : Shaped s) (h : Routed frags φ s.tools) :
    Shaped (finishToolCalls s) ∧ (finishToolCalls s).tools.order = [] ∧
    ∃ items, functionCalls (finishToolCalls s).sent = functionCalls s.sent ++ items ∧
      Forall₂ (IsCallOf frags) ((callsOf frags).filter fun c => (callName c frags).isSome)
        items := by
  have hflush := carries_flushReasoning hs
  have htools := hflush.tools
  rw [foldl_nil] at htools
  refine ⟨(grows_finishToolCalls hs).shaped, order_foldl_sendToolCall _ _, ?_⟩
  rw [← hflush.functionCalls]
  simp only [finishToolCalls, htools, h.order]
  apply foldl_sendToolCall ((nodup_callsOf frags).map_on fun c hc d hd => h.injective c hc d hd)
  exact h.calls

end

section
variable {s : ChatState}

theorem processChoice_of_length {choice : Json}
    (h : finishReason choice = some "length".toList) (s : ChatState) :
    processChoice s choice =
      ((applyMessage (applyDelta s choice) choice).fail .contextWindowExceeded, true) := by
  have hstop : finishReason choice ≠ some "stop".toList := by
    rw [h]
    decide
  rw [finishReason] at h hstop
  rw [processChoice, if_neg hstop, if_pos h]

theorem processChoice_of_toolCalls {choice : Json}
    (h : finishReason choice = some "tool_calls".toList) (s : ChatState) :
    processChoice s choice =
      (finishToolCalls (applyMessage (applyDelta s choice) choice), false) := by
  have hother : finishReason choice ≠ some "stop".toList ∧
      finishReason choice ≠ some "length".toList := by
    rw [h]
    decide
  rw [finishReason] at h hother
  rw [processChoice, if_neg hother.1, if_neg hother.2, if_pos h]

theorem functionCalls_fail (s : ChatState) (error : ApiError) :
    functionCalls (s.fail error).sent = functionCalls s.sent :=
  (functionCalls_append _ _).trans (append_nil _)

theorem functionCalls_finishStream (hs : Shaped s) :
    functionCalls (finishStream s).sent = functionCalls s.sent := by
  have hflush := carries_flush hs
  unfold finishStream
  split
  · rfl
  · rw [← hflush.functionCalls]
    exact (functionCalls_append _ _).trans (append_nil _)

theorem finishToolCalls_of_order_nil (hs : Shaped s) (h : s.tools.order = []) :
    (finishToolCalls s).tools.order = [] ∧
      functionCalls (finishToolCalls s).sent = functionCalls s.sent := by
  have hflush := carries_flushReasoning hs
  refine ⟨order_foldl_sendToolCall _ _, ?_⟩
  rw [← hflush.functionCalls]
  simp only [finishToolCalls, tools_flushReasoning, h, foldl_nil]

/-- Without pending calls and new fragments no function call is sent. -/
theorem functionCalls_processChoices_quiet {choices : List Json} (hs : Shaped s)
    (horder : s.tools.order = []) (hquiet : ∀ c ∈ choices, choiceFragments c = []) :
    functionCalls (processChoices s choices).1.sent = functionCalls s.sent := by
  induction choices generalizing s with
  | nil => rfl
  | cons choice choices ih =>
    have hnone := hquiet choice (mem_cons_self ..)
    have hrest : ∀ c ∈ choices, choiceFragments c = [] :=
      fun c hc => hquiet c (mem_cons_of_mem _ hc)
    have happly := carries_apply hs choice
    rw [hnone] at happly
    have horder' : (applyMessage (applyDelta s choice) choice).tools.order = [] := by
      rw [happly.tools]
      exact horder
    by_cases hlength : finishReason choice = some "length".toList
    · rw [processChoices, processChoice_of_length hlength, functionCalls_fail, happly.functionCalls]
    by_cases hcalls : finishReason choice = some "tool_calls".toList
    · obtain ⟨hnil, hkeep⟩ := finishToolCalls_of_order_nil happly.shaped horder'
      rw [processChoices_cons_of_false (processChoice_of_toolCalls hcalls s),
        ih (grows_finishToolCalls happly.shaped).shaped hnil hrest, hkeep, happly.functionCalls]
    · obtain ⟨t, ht, hcarries⟩ := processChoice_carries hs hlength hcalls
      rw [hnone] at hcarries
      have hnil : t.tools.order = [] := by
        rw [hcarries.tools]
        exact horder
      rw [processChoices_cons_of_false ht, ih hcarries.shaped hnil hrest, hcarries.functionCalls]

theorem shaped_processChoice (hs : Shaped s) (choice : Json) :
    Shaped (processChoice s choice).1 := by
  have happly := carries_apply hs choice
  by_cases hlength : finishReason choice = some "length".toList
  · rw [processChoice_of_length hlength]
    exact ⟨happly.shaped.assistant, happly.shaped.reasoning⟩
  by_cases hcalls : finishReason choice = some "tool_calls".toList
  · rw [processChoice_of_toolCalls hcalls]
    exact (grows_finishToolCalls happly.shaped).shaped
  · obtain ⟨t, ht, hcarries⟩ := processChoice_carries hs hlength hcalls
    rw [ht]
    exact hcarries.shaped

theorem shaped_processChoices (choices : List Json) (hs : Shaped s) :
    Shaped (processChoices s choices).1 := by
  induction choices generalizing s with
  | nil => exact hs
  | cons choice choices ih =>
    have hone := shaped_processChoice hs choice
    rw [processChoices]
    rcases hp : processChoice s choice with ⟨t, _ | _⟩
    · rw [hp] at hone
      exact ih hone
    · rw [hp] at hone
      exact hone

theorem processChoices_append (s : ChatState) (xs ys : List Json) :
    processChoices s (xs ++ ys) = if (processChoices s xs).2 then processChoices s xs
      else processChoices (processChoices s xs).1 ys := by
  induction xs generalizing s with
  | nil => simp [processChoices]
  | cons choice xs ih =>
    rw [cons_append, processChoices, processChoices]
    rcases processChoice s choice with ⟨t, _ | _⟩
    · exact ih t
    · rfl

/-- The choices that a stream gives before it ends. -/
def readChoices (fromStr : Str → Option Json) : List Poll → List Json
  | [] => []
  | .event data :: polls =>
    if trim data = [] then readChoices fromStr polls
    else if trim data = "[DONE]".toList ∨ trim data = "DONE".toList then []
    else eventChoices fromStr (trim data) ++ readChoices fromStr polls
  | .error _ :: _ => []
  | .timeout :: _ => []

theorem functionCalls_processPolls (fromStr : Str → Option Json) (polls : List Poll)
    (hs : Shaped s) :
    functionCalls (processPolls fromStr s polls).sent =
      functionCalls (processChoices s (readChoices fromStr polls)).1.sent := by
  induction polls generalizing s with
  | nil => exact functionCalls_finishStream hs
  | cons poll polls ih =>
    rw [processPolls]
    cases poll with
    | error message => exact functionCalls_fail s _
    | timeout => exact functionCalls_fail s _
    | event data =>
      simp only [processPoll, processEvent, readChoices]
      by_cases hempty : trim data = []
      · simp only [if_pos hempty]
        exact ih hs
      by_cases hdone : trim data = "[DONE]".toList ∨ trim data = "DONE".toList
      · simp only [if_neg hempty, if_pos hdone]
        exact functionCalls_finishStream hs
      · have hshaped := shaped_processChoices (eventChoices fromStr (trim data)) hs
        simp only [if_neg hempty, if_neg hdone, processChoices_append]
        rcases hp : processChoices s (eventChoices fromStr (trim data)) with ⟨t, _ | _⟩
        · rw [hp] at hshaped
          exact ih hshaped
        · rfl

end

section
variable {κ : Type*} [DecidableEq κ]

theorem shaped_init : Shaped {} := ⟨by simp, by simp⟩

/-- However the fragments are interleaved and spread over choices, there is one function call for
each call with a name. -/
theorem functionCalls_processChatSse (fromStr : Str → Option Json) (polls : List Poll)
    (before after : List Json) (last : Json) (frags : Labelled κ)
    (hchoices : readChoices fromStr polls = before ++ last :: after)
    (hopen : ∀ c ∈ before,
      finishReason c ≠ some "length".toList ∧ finishReason c ≠ some "tool_calls".toList)
    (hlast : finishReason last = some "tool_calls".toList)
    (hafter : ∀ c ∈ after, choiceFragments c = [])
    (hfrags : (before ++ [last]).flatMap choiceFragments = frags.map Prod.snd)
    (hlabels : LabelledByIndex frags ∨ LabelledById frags) :
    List.Forall₂ (IsCallOf frags) ((callsOf frags).filter fun c => (callName c frags).isSome)
      (functionCalls (processChatSse fromStr polls)) := by
  obtain ⟨s, hbefore, hrun⟩ := processChoices_carries shaped_init hopen
  have happly := hbefore.trans (carries_apply hbefore.shaped last)
  obtain ⟨φ, hrouted⟩ := routed_of_labelled hlabels
  have htools : (applyMessage (applyDelta s last) last).tools = routeAll frags := by
    rw [happly.tools, routeAll, ← hfrags, flatMap_append, flatMap_singleton]
  rw [← htools] at hrouted
  obtain ⟨hshaped, horder, items, hitems, hcalls⟩ := finishToolCalls_of_routed happly.shaped hrouted
  have hall : functionCalls (processChatSse fromStr polls) = items := by
    rw [processChatSse, functionCalls_processPolls fromStr polls shaped_init, hchoices, hrun,
      processChoices_cons_of_false (processChoice_of_toolCalls hlast s),
      functionCalls_processChoices_quiet hshaped horder hafter, hitems, happly.functionCalls]
    rfl
  rw [hall]
  exact hcalls

end

/-- Two calls whose fragments are interleaved. -/
def sampleFragments : Labelled Bool :=
  [(true, ⟨some 4, some "a".toList, some "f".toList, some "x".toList⟩),
    (false, ⟨some 2, none, some "g".toList, some "y".toList⟩),
    (true, ⟨some 4, none, some [], some "z".toList⟩)]

def sampleChoices : List Json :=
  [.object [("delta", .object [("tool_calls", .array
      [.object [("index", .number (.posInt 4)), ("id", .string "a".toList),
          ("function", .object [("name", .string "f".toList), ("arguments", .string "x".toList)])],
        .object [("index", .number (.posInt 2)),
          ("function", .object [("name", .string "g".toList),
            ("arguments", .string "y".toList)])]])])],
    .object [("delta", .object [("tool_calls", .array
      [.object [("index", .number (.posInt 4)),
        ("function", .object [("name", .string []), ("arguments", .string "z".toList)])]])]),
      ("finish_reason", .string "tool_calls".toList)]]

def sampleCallsText : Str :=
  "\x7b\"choices\":[\x7b\"delta\":\x7b\"tool_calls\":[\x7b\"index\":4,\"id\":\"a\",".toList ++
    "\"function\":\x7b\"name\":\"f\",\"arguments\":\"x\"\x7d\x7d,\x7b\"index\":2,".toList ++
    "\"function\":\x7b\"name\":\"g\",\"arguments\":\"y\"\x7d\x7d]\x7d\x7d,".toList ++
    "\x7b\"delta\":\x7b\"tool_calls\":[\x7b\"index\":4,\"function\":\x7b\"name\":\"\",".toList ++
    "\"arguments\":\"z\"\x7d\x7d]\x7d,\"finish_reason\":\"tool_calls\"\x7d]\x7d".toList

def sampleCallsFromStr (data : Str) : Option Json :=
  if data = sampleCallsText then some (.object [("choices", .array sampleChoices)]) else none

theorem functionCalls_processChatSse_sample :
    List.Forall₂ (IsCallOf sampleFragments) [true, false]
      (functionCalls (processChatSse sampleCallsFromStr [.event sampleCallsText])) := by
  have hlabels : LabelledByIndex sampleFragments := by
    unfold LabelledByIndex OwnIds
    decide +kernel
  exact functionCalls_processChatSse sampleCallsFromStr [.event sampleCallsText]
    (sampleChoices.take 1) [] (sampleChoices.getLast (by decide)) sampleFragments (by decide +kernel)
    (by decide +kernel) (by decide +kernel) (by simp) (by decide +kernel) (.inl hlabels)

end CodexRs.CodexApi
