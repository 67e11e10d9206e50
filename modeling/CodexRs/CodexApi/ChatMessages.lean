import CodexRs.CodexApi.ChatLinks

/-!
# Messages of the conversation in a chat request

An assistant message is left out if it repeats the text of the assistant message before it. A
repetition is never emitted, so a request that still has all messages cannot have lost one that
had to be kept.
-/
namespace CodexRs.CodexApi
open Text Protocol List Option

section

def partShown (part : Json) : Str := ((part.get "text").bind Json.asStr).getD []

variable (msg : Json)

/-- The text of a message, put together from its parts if there are several. -/
def messageText : Option Str :=
  match msg.get "content" with
  | some (.string text) => some text
  | some (.array parts) => some (parts.flatMap partShown)
  | _ => none

/-- Role and text of a message that has both. -/
def messageShown : Option (Str × Str) :=
  (messageRole msg).bind fun role => (messageText msg).map (role, ·)

/-- Role and text that a message of the conversation is to be shown with. -/
def itemShown : ResponseItem → Option (Str × Str)
  | .message _ role content _ => some (outboundRole role, content.flatMap partText)
  | _ => none

/-- Messages, calls and outputs are rendered. -/
def isRendered : ResponseItem → Bool
  | .message .. | .functionCall .. | .localShellCall .. | .customToolCall .. => true
  | .functionCallOutput .. | .customToolCallOutput .. => true
  | _ => false

def lastRendered (before : List ResponseItem) : Option ResponseItem :=
  (before.filter isRendered).getLast?

/-- The item is an assistant message like the one that is rendered right before it. -/
def Omissible (before : List ResponseItem) (item : ResponseItem) : Prop :=
  isAssistantMessage item = true ∧
    ∃ prev, lastRendered before = some prev ∧ isAssistantMessage prev = true ∧
      itemShown prev = itemShown item

/-- The messages among the items behind `before` are shown in order, up to some that may be
omitted. -/
inductive Kept : List ResponseItem → List ResponseItem → List (Str × Str) → Prop
  | nil (before : List ResponseItem) : Kept before [] []
  | shown {before rest : List ResponseItem} {item : ResponseItem} {v : Str × Str}
      {vs : List (Str × Str)} : itemShown item = some v → Kept (before ++ [item]) rest vs →
      Kept before (item :: rest) (v :: vs)
  | omitted {before rest : List ResponseItem} {item : ResponseItem} {vs : List (Str × Str)} :
      Omissible before item → Kept (before ++ [item]) rest vs → Kept before (item :: rest) vs
  | other {before rest : List ResponseItem} {item : ResponseItem} {vs : List (Str × Str)} :
      itemShown item = none → Kept (before ++ [item]) rest vs → Kept before (item :: rest) vs

variable (input : List ResponseItem) (messages : List Json)

/-- The request has the messages of the conversation in order. -/
def MessagesKept : Prop :=
  ∃ shown, Kept [] input shown ∧ shown.Sublist (messages.filterMap messageShown)

def lastAssistant (before : List ResponseItem) : Option (Str × Str) :=
  (before.filter isAssistantMessage).getLast?.bind itemShown

/-- An assistant message with the text of the assistant message before it. -/
def Repeats (before : List ResponseItem) (item : ResponseItem) : Prop :=
  isAssistantMessage item = true ∧ lastAssistant before = itemShown item

instance (before : List ResponseItem) (item : ResponseItem) : Decidable (Repeats before item) :=
  inferInstanceAs (Decidable (_ ∧ _))

/-- Between an assistant message and a repetition of it nothing else is rendered. -/
def RepeatsAdjoin : Prop :=
  ∀ pre item post, input = pre ++ item :: post → Repeats pre item →
    ∃ last, lastRendered pre = some last ∧ isAssistantMessage last = true

theorem partShown_contentPart (item : ContentItem) : partShown (contentPart item) = partText item := by
  cases item <;> simp [partShown, contentPart, textPart, imagePart, partText]

theorem messageText_of_null {msg : Json} (h : msg.get "content" = some .null) :
    messageText msg = none := by
  rw [messageText, h]

theorem messageShown_of_null {msg : Json} (h : msg.get "content" = some .null) :
    messageShown msg = none := by
  rw [messageShown, messageText_of_null h]
  cases messageRole msg <;> rfl

theorem messageShown_renderedMessage (role : Str) (content : List ContentItem)
    (reasoning : Option Str) :
    messageShown (renderedMessage role content reasoning) =
      some (outboundRole role, content.flatMap partText) := by
  have hrole : messageRole (renderedMessage role content reasoning) = some (outboundRole role) := by
    rw [messageRole, renderedMessage, get_insertReasoning (by decide), Json.get_object_cons]
    rfl
  have hcontent : (renderedMessage role content reasoning).get "content" =
      some (messageContent role content) := by
    rw [renderedMessage, get_insertReasoning (by decide), Json.get_object_cons,
      if_neg (by decide), Json.get_object_cons, if_pos rfl]
  have htext : messageText (renderedMessage role content reasoning) =
      some (content.flatMap partText) := by
    rw [messageText, hcontent, messageContent]
    split_ifs
    · simp only [flatMap_map, partShown_contentPart]
    · rfl
  rw [messageShown, hrole, htext]
  rfl

theorem shown_concat : (messages ++ [msg]).filterMap messageShown =
      messages.filterMap messageShown ++ (messageShown msg).toList := by
  cases h : messageShown msg <;> simp [h]

theorem shown_pushToolCallMessage (toolCall : Json) (reasoning : Option Str) :
    (pushToolCallMessage messages toolCall reasoning).filterMap messageShown =
      messages.filterMap messageShown := by
  rcases pushToolCallMessage_cases messages toolCall reasoning with
    ⟨init, last, calls, hmessages, hcalls, hpush⟩ | hpush
  · have hnull := (groupedCalls_eq_some hcalls).2.1
    have hnew : messageShown (appendGroupReasoning
        (last.insert "tool_calls" (.array (calls ++ [toolCall]))) reasoning) = none := by
      apply messageShown_of_null
      rw [get_appendGroupReasoning (by decide), Json.get_insert_of_ne (by decide), hnull]
    rw [hpush, hmessages]
    simp [hnew, messageShown_of_null hnull]
  · have hnew : messageShown (newCallMessage toolCall reasoning) = none := by
      apply messageShown_of_null
      rw [newCallMessage, get_insertReasoning (by decide)]
      simp
    simp [hpush, hnew]

section

theorem lastAssistant_concat (before : List ResponseItem) (item : ResponseItem) :
    lastAssistant (before ++ [item]) =
      if isAssistantMessage item = true then itemShown item else lastAssistant before := by
  rw [lastAssistant, lastAssistant]
  split_ifs with h <;> simp [h]

theorem lastRendered_concat (before : List ResponseItem) (item : ResponseItem) :
    lastRendered (before ++ [item]) =
      if isRendered item = true then some item else lastRendered before := by
  rw [lastRendered, lastRendered]
  split_ifs with h <;> simp [h]

variable {item : ResponseItem}

theorem itemShown_of_assistant (h : isAssistantMessage item = true) :
    ∃ text, itemShown item = some ("assistant".toList, text) := by
  cases item <;> try cases h
  rename_i role content _
  have hrole : role = "assistant".toList := of_decide_eq_true h
  exact ⟨content.flatMap partText, by rw [hrole]; rfl⟩

theorem isRendered_of_assistant (h : isAssistantMessage item = true) : isRendered item = true := by
  cases item <;> first | rfl | cases h

variable {before : List ResponseItem}

theorem lastAssistant_role {v : Str × Str}
    (h : lastAssistant before = some v) : v.1 = "assistant".toList := by
  induction before using reverseRecOn with
  | nil => cases h
  | append_singleton before item ih =>
    rw [lastAssistant_concat] at h
    split_ifs at h with hitem
    · obtain ⟨text, htext⟩ := itemShown_of_assistant hitem
      rw [htext, some.injEq] at h
      rw [← h]
    · exact ih h

/-- An assistant message that is rendered last is the last assistant message. -/
theorem lastAssistant_of_lastRendered
    (hlast : lastRendered before = some item) (hitem : isAssistantMessage item = true) :
    lastAssistant before = itemShown item := by
  induction before using reverseRecOn with
  | nil => cases hlast
  | append_singleton before next ih =>
    rw [lastRendered_concat] at hlast
    rw [lastAssistant_concat]
    split_ifs at hlast with hrendered
    · rw [some.injEq] at hlast
      rw [hlast, if_pos hitem]
    · rw [if_neg (mt isRendered_of_assistant hrendered), ih hlast]

theorem Omissible.repeats (h : Omissible before item) : Repeats before item := by
  obtain ⟨hitem, prev, hlast, hprev, hshown⟩ := h
  exact ⟨hitem, (lastAssistant_of_lastRendered hlast hprev).trans hshown⟩

theorem repeatsAdjoin_iff :
    RepeatsAdjoin input ↔ ∀ pre item post, input = pre ++ item :: post → Repeats pre item →
      Omissible pre item := by
  constructor
  · intro h pre item post hsplit hrepeats
    obtain ⟨last, hlast, hassistant⟩ := h pre item post hsplit hrepeats
    refine ⟨hrepeats.1, last, hlast, hassistant, ?_⟩
    rw [← lastAssistant_of_lastRendered hlast hassistant, hrepeats.2]
  · intro h pre item post hsplit hrepeats
    obtain ⟨-, last, hlast, hassistant, -⟩ := h pre item post hsplit hrepeats
    exact ⟨last, hlast, hassistant⟩

end

/-- What a message for an item shows. -/
def renderedShown : ResponseItem → Option (Str × Str)
  | .message _ role content _ => some (outboundRole role, content.flatMap partText)
  | .functionCallOutput callId output => messageShown (toolMessage callId (outputContent output))
  | .customToolCallOutput callId _ output =>
    messageShown (toolMessage callId (serializePayload output))
  | _ => none

/-- What the messages show of an item behind the others. -/
def emitted (before : List ResponseItem) (item : ResponseItem) : List (Str × Str) :=
  if Repeats before item then [] else (renderedShown item).toList

def emittedFrom (before : List ResponseItem) : List ResponseItem → List (Str × Str)
  | [] => []
  | item :: rest => emitted before item ++ emittedFrom (before ++ [item]) rest

/-- The text that suppresses a repetition is that of the last assistant message. -/
def Tracks (before : List ResponseItem) (s : RenderState) : Prop :=
  s.lastAssistantText = (lastAssistant before).map Prod.snd

variable {before : List ResponseItem} {item : ResponseItem}

theorem not_repeats (h : isAssistantMessage item = false) : ¬ Repeats before item := by
  intro hrepeats
  rw [hrepeats.1] at h
  cases h

theorem emitted_of_not_assistant (h : isAssistantMessage item = false)
    (before : List ResponseItem) : emitted before item = (renderedShown item).toList :=
  if_neg (not_repeats h)

variable {s : RenderState}

theorem Tracks.concat
    (h : Tracks before s) (hitem : isAssistantMessage item = false) (messages : List Json) :
    Tracks (before ++ [item]) { s with messages := messages } := by
  rw [Tracks, lastAssistant_concat, if_neg (by simp [hitem])]
  exact h

theorem repeats_iff_of_tracks
    {text : Str} (h : Tracks before s) (hitem : isAssistantMessage item = true)
    (htext : itemShown item = some ("assistant".toList, text)) :
    Repeats before item ↔ s.lastAssistantText = some text := by
  rw [Repeats, and_iff_right hitem, htext, h]
  cases hlast : lastAssistant before with
  | none => simp
  | some v =>
    have hrole := lastAssistant_role hlast
    simp only [some.injEq, map_some]
    constructor
    · intro hv
      rw [hv]
    · intro hv
      exact Prod.ext hrole hv

theorem renderMessage_spec (h : Tracks before s)
    (id : Option Str) (role : Str) (content : List ContentItem) (phase : Option MessagePhase)
    (reasoning : Option Str) :
    Tracks (before ++ [.message id role content phase]) (renderMessage s role content reasoning) ∧
      (renderMessage s role content reasoning).messages.filterMap messageShown =
        s.messages.filterMap messageShown ++ emitted before (.message id role content phase) := by
  have hpush : (s.messages ++ [renderedMessage role content reasoning]).filterMap messageShown =
      s.messages.filterMap messageShown ++ [(outboundRole role, content.flatMap partText)] := by
    rw [shown_concat, messageShown_renderedMessage]
    rfl
  by_cases hrole : role = "assistant".toList
  · subst hrole
    have hitem : isAssistantMessage (.message id "assistant".toList content phase) = true := rfl
    have hiff := repeats_iff_of_tracks h hitem rfl
    by_cases hsame : s.lastAssistantText = some (content.flatMap partText)
    · have hkeep : renderMessage s "assistant".toList content reasoning = s := by
        rw [renderMessage, if_pos rfl, if_pos hsame]
      rw [hkeep, emitted, if_pos (hiff.mpr hsame), append_nil, Tracks, lastAssistant_concat]
      exact ⟨hsame, rfl⟩
    · have hnew : renderMessage s "assistant".toList content reasoning =
          ⟨s.messages ++ [renderedMessage "assistant".toList content reasoning],
            some (content.flatMap partText)⟩ := by
        rw [renderMessage, if_pos rfl, if_neg hsame]
      rw [hnew, emitted, if_neg (mt hiff.mp hsame), Tracks, lastAssistant_concat]
      exact ⟨rfl, hpush⟩
  · have hitem : isAssistantMessage (.message id role content phase) = false :=
      decide_eq_false hrole
    rw [renderMessage, if_neg hrole, emitted_of_not_assistant hitem]
    exact ⟨h.concat hitem _, hpush⟩

theorem renderItem_spec (h : Tracks before s) (anchors : Anchors) (item : ResponseItem) (idx : ℕ) :
    Tracks (before ++ [item]) (renderItem anchors s (item, idx)) ∧
      (renderItem anchors s (item, idx)).messages.filterMap messageShown =
        s.messages.filterMap messageShown ++ emitted before item := by
  cases item with
  | message id role content phase => exact renderMessage_spec h id role content phase _
  | functionCall | localShellCall | customToolCall =>
    refine ⟨h.concat rfl _, ?_⟩
    exact (shown_pushToolCallMessage _ _ _).trans (append_nil _).symm
  | functionCallOutput | customToolCallOutput =>
    refine ⟨h.concat rfl _, ?_⟩
    exact shown_concat _ _
  | _ =>
    refine ⟨h.concat rfl _, ?_⟩
    exact (append_nil _).symm

theorem foldl_renderItem_spec (anchors : Anchors) (rest : List ResponseItem) (n : ℕ)
    (h : Tracks before s) :
    ((rest.zipIdx n).foldl (renderItem anchors) s).messages.filterMap messageShown =
      s.messages.filterMap messageShown ++ emittedFrom before rest := by
  induction rest generalizing before s n with
  | nil => simp [emittedFrom]
  | cons item rest ih =>
    obtain ⟨htracks, hshown⟩ := renderItem_spec h anchors item n
    rw [zipIdx_cons, foldl_cons, ih (n + 1) htracks, hshown, emittedFrom, append_assoc]

end

section

/-- The number of assistant messages shown. -/
def assistantCount (shown : List (Str × Str)) : ℕ :=
  shown.countP fun v => v.1 = "assistant".toList

theorem assistantCount_append (xs ys : List (Str × Str)) :
    assistantCount (xs ++ ys) = assistantCount xs + assistantCount ys :=
  countP_append

theorem assistantCount_cons (v : Str × Str) (vs : List (Str × Str)) :
    assistantCount (v :: vs) = assistantCount [v] + assistantCount vs :=
  assistantCount_append [v] vs

variable {item : ResponseItem} {before : List ResponseItem}

theorem emitted_of_repeats (h : Repeats before item) : emitted before item = [] := if_pos h

theorem emitted_of_shown {v : Str × Str}
    (h : ¬ Repeats before item) (hv : itemShown item = some v) : emitted before item = [v] := by
  rw [emitted, if_neg h]
  cases item <;> try cases hv
  rfl

theorem assistantCount_toolMessage (callId : Str) (content : Json) :
    assistantCount (messageShown (toolMessage callId content)).toList = 0 := by
  rw [messageShown]
  cases messageText (toolMessage callId content) <;> rfl

theorem assistantCount_emitted_other (h : itemShown item = none)
    (before : List ResponseItem) : assistantCount (emitted before item) = 0 := by
  rw [emitted]
  split_ifs
  · rfl
  · cases item with
    | message => cases h
    | functionCallOutput | customToolCallOutput => exact assistantCount_toolMessage _ _
    | _ => rfl

theorem assistantCount_of_repeats {v : Str × Str}
    (h : Repeats before item) (hv : itemShown item = some v) : assistantCount [v] = 1 := by
  obtain ⟨text, htext⟩ := itemShown_of_assistant h.1
  rw [htext, Option.some.injEq] at hv
  rw [← hv]
  rfl

/-- Every repetition behind `before` may be omitted. -/
def AllOmissible (before rest : List ResponseItem) : Prop :=
  ∀ pre item post, rest = pre ++ item :: post → Repeats (before ++ pre) item →
    Omissible (before ++ pre) item

variable {before rest : List ResponseItem}

theorem allOmissible_cons : AllOmissible before (item :: rest) ↔
      (Repeats before item → Omissible before item) ∧ AllOmissible (before ++ [item]) rest := by
  constructor
  · intro h
    constructor
    · intro hrepeats
      have homissible := h [] item rest rfl
      rw [append_nil] at homissible
      exact homissible hrepeats
    · intro pre next post hsplit
      have hnext := h (item :: pre) next post (by rw [hsplit, cons_append])
      rwa [append_cons] at hnext
  · rintro ⟨hitem, hrest⟩ (_ | ⟨first, pre⟩) next post hsplit
    · rw [List.nil_append, cons.injEq] at hsplit
      rw [append_nil, ← hsplit.1]
      exact hitem
    · rw [cons_append, cons.injEq] at hsplit
      rw [← hsplit.1, append_cons]
      exact hrest pre next post hsplit.2

/-- At least as many assistant messages are kept as are emitted, and more if a message is left
out that may not be omitted. -/
theorem Kept.count {shown : List (Str × Str)} (h : Kept before rest shown) :
    assistantCount (emittedFrom before rest) ≤ assistantCount shown ∧
      (assistantCount shown ≤ assistantCount (emittedFrom before rest) →
        AllOmissible before rest) := by
  induction h with
  | nil before => exact ⟨le_rfl, fun _ pre item post hsplit => by simp at hsplit⟩
  | @shown before rest item v vs hv _ ih =>
    rw [emittedFrom, assistantCount_append, assistantCount_cons, allOmissible_cons]
    by_cases hrepeats : Repeats before item
    · rw [emitted_of_repeats hrepeats, assistantCount_of_repeats hrepeats hv]
      have hle := ih.1
      simp only [assistantCount, countP_nil] at hle ⊢
      exact ⟨by omega, fun hge => by omega⟩
    · rw [emitted_of_shown hrepeats hv]
      exact ⟨Nat.add_le_add_left ih.1 _, fun hge =>
        ⟨fun h => absurd h hrepeats, ih.2 (Nat.le_of_add_le_add_left hge)⟩⟩
  | @omitted before rest item vs homissible _ ih =>
    rw [emittedFrom, emitted_of_repeats homissible.repeats, allOmissible_cons]
    exact ⟨ih.1, fun hge => ⟨fun _ => homissible, ih.2 hge⟩⟩
  | @other before rest item vs hnone _ ih =>
    have hnot : ¬ Repeats before item := by
      intro hrepeats
      obtain ⟨text, htext⟩ := itemShown_of_assistant hrepeats.1
      rw [hnone] at htext
      cases htext
    rw [emittedFrom, assistantCount_append, assistantCount_emitted_other hnone, Nat.zero_add,
      allOmissible_cons]
    exact ⟨ih.1, fun hge => ⟨fun h => absurd h hnot, ih.2 hge⟩⟩

theorem kept_of_allOmissible (h : AllOmissible before rest) :
    ∃ shown, Kept before rest shown ∧ shown.Sublist (emittedFrom before rest) := by
  induction rest generalizing before with
  | nil => exact ⟨[], .nil before, List.nil_sublist _⟩
  | cons item rest ih =>
    obtain ⟨homissible, hrest⟩ := allOmissible_cons.mp h
    obtain ⟨shown, hkept, hsub⟩ := ih hrest
    rw [emittedFrom]
    by_cases hrepeats : Repeats before item
    · exact ⟨shown, .omitted (homissible hrepeats) hkept, hsub.trans (sublist_append_right _ _)⟩
    · cases hv : itemShown item with
      | none => exact ⟨shown, .other hv hkept, hsub.trans (sublist_append_right _ _)⟩
      | some v =>
        rw [emitted_of_shown hrepeats hv]
        exact ⟨v :: shown, .shown hv hkept, hsub.cons_cons v⟩

end

theorem shown_buildMessages (instructions : Str) (input : List ResponseItem) :
    (buildMessages instructions input).filterMap messageShown =
      ("system".toList, instructions) :: emittedFrom [] input := by
  have hsystem : messageShown (systemMessage instructions) =
      some ("system".toList, instructions) := by
    simp [messageShown, messageRole, messageText, systemMessage]
  have htracks : Tracks [] ⟨[systemMessage instructions], none⟩ := rfl
  rw [buildMessages, foldl_renderItem_spec _ input 0 htracks]
  simp only [filterMap_cons, hsystem, filterMap_nil, singleton_append]

/-- The request has all messages exactly if nothing is rendered between an assistant message and
one that repeats it. -/
theorem messagesKept_buildMessages_iff (instructions : Str) (input : List ResponseItem) :
    MessagesKept input (buildMessages instructions input) ↔ RepeatsAdjoin input := by
  rw [MessagesKept, shown_buildMessages, repeatsAdjoin_iff]
  change _ ↔ AllOmissible [] input
  constructor
  · rintro ⟨shown, hkept, hsub⟩
    have hle : assistantCount shown ≤ assistantCount (emittedFrom [] input) := hsub.countP_le
    exact hkept.count.2 hle
  · intro h
    obtain ⟨shown, hkept, hsub⟩ := kept_of_allOmissible h
    exact ⟨shown, hkept, hsub.cons _⟩

/-- The assistant gives the same answer to two messages of the user. -/
def repeatedAnswer : List ResponseItem :=
  [.message none "assistant".toList [.outputText "ok".toList] none,
    .message none "user".toList [.inputText "go on".toList] none,
    .message none "assistant".toList [.outputText "ok".toList] none]

theorem not_messagesKept_repeatedAnswer :
    ¬ MessagesKept repeatedAnswer (buildMessages [] repeatedAnswer) := by
  rintro ⟨shown, hkept, hsub⟩
  have hle : assistantCount shown ≤ assistantCount (emittedFrom [] repeatedAnswer) := hsub.countP_le
  have hall := allOmissible_cons.mp (allOmissible_cons.mp (hkept.count.2 hle)).2
  obtain ⟨-, prev, hlast, hprev, -⟩ := (allOmissible_cons.mp hall.2).1 (by decide)
  cases hlast
  cases hprev

end CodexRs.CodexApi
