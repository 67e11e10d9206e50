import CodexRs.CodexApi.ChatStream
import CodexRs.Library.Ledger

/-!
# Accounting for text and reasoning in a chat stream

An added item opens an account, a delta adds to it, and the finished item gives back all deltas.
Where the stream does not fail, it ends with one completion, and all accounts are settled.
-/
namespace CodexRs.CodexApi
open Text Protocol Ledger Machine ChatState List

section

abbrev Event := Except ApiError ResponseEvent

inductive ItemKind where
  | assistant
  | reasoning
deriving DecidableEq

def ItemKind.covers : ItemKind → ResponseItem → Bool
  | .assistant, .message _ role _ _ => role = "assistant".toList
  | .reasoning, .reasoning _ _ _ _ => true
  | _, _ => false

def contentText : ContentItem → Str
  | .outputText text => text
  | _ => []

/-- The output text of a message, or the text of a reasoning item. -/
def itemText : ResponseItem → Str
  | .message _ _ content _ => content.flatMap contentText
  | .reasoning _ _ (some content) _ => content.flatMap reasoningContentText
  | _ => []

namespace ItemKind
variable (k : ItemKind)

def isAdded : Event → Bool
  | .ok (.outputItemAdded item) => k.covers item
  | _ => false

def isDone : Event → Bool
  | .ok (.outputItemDone item) => k.covers item
  | _ => false

def delta (k : ItemKind) : Event → Str
  | .ok (.outputTextDelta delta) => if k = .assistant then delta else []
  | .ok (.reasoningContentDelta delta _) => if k = .reasoning then delta else []
  | _ => []

def doneText : Event → Str
  | .ok (.outputItemDone item) => if k.covers item then itemText item else []
  | _ => []

end ItemKind

def isCompleted : Event → Bool
  | .ok (.completed _ _) => true
  | _ => false

def isFunctionCall : Event → Bool
  | .ok (.outputItemDone (.functionCall _ _ _ _ _)) => true
  | _ => false

/-- The deltas of a kind make up its finished items, and each added item of the kind is
finished exactly once before the next one is added. -/
structure Accounted (k : ItemKind) (events : List Event) : Prop where
  text : events.flatMap k.delta = events.flatMap k.doneText
  answered : ∀ pre event post, events = pre ++ event :: post → k.isAdded event = true →
    ((post.takeWhile fun e => !k.isAdded e).filter k.isDone).length = 1

variable (events : List Event)

/-- There is one completion, and what precedes it is accounted for. -/
def Settled : Prop :=
  ∃ before completion after, events = before ++ completion :: after ∧
    isCompleted completion = true ∧ (∀ e ∈ before ++ after, isCompleted e = false) ∧
    ∀ k, Accounted k before

variable (k : ItemKind)

/-- What an event does to the account of a kind. -/
def ItemKind.mark : Event → List (Mark Char)
  | .ok (.outputItemAdded item) => if k.covers item then [.opened] else []
  | .ok (.outputItemDone item) => if k.covers item then [.closed (itemText item)] else []
  | .ok (.outputTextDelta delta) => if k = .assistant then [.added delta] else []
  | .ok (.reasoningContentDelta delta _) => if k = .reasoning then [.added delta] else []
  | _ => []

attribute [local simp] ItemKind.mark ItemKind.isAdded ItemKind.isDone ItemKind.delta
  ItemKind.doneText in
/-- What an event is to a kind, said at once for all readings of it. -/
theorem mark_cases (k : ItemKind) (e : Event) :
    (k.mark e = [.opened] ∧ k.isAdded e = true ∧ k.delta e = [] ∧ k.doneText e = []) ∨
    (k.mark e = [.closed (k.doneText e)] ∧ k.isAdded e = false ∧ k.isDone e = true ∧
      k.delta e = []) ∨
    (k.mark e = [.added (k.delta e)] ∧ k.isAdded e = false ∧ k.isDone e = false ∧
      k.doneText e = []) ∨
    (k.mark e = [] ∧ k.isAdded e = false ∧ k.isDone e = false ∧ k.delta e = [] ∧
      k.doneText e = []) := by
  rcases e with _ | ⟨item | item | _ | delta | ⟨delta, index⟩⟩
  · simp
  · cases hc : k.covers item <;> simp [hc]
  · cases hc : k.covers item <;> simp [hc]
  · simp
  · cases k <;> simp
  · cases k <;> simp

variable (e : Event)

theorem addedText_mark : (k.mark e).flatMap Mark.addedText = k.delta e := by
  rcases mark_cases k e with ⟨hm, -, hd, -⟩ | ⟨hm, -, -, hd⟩ | ⟨hm, -⟩ | ⟨hm, -, -, hd, -⟩ <;>
    simp_all [Mark.addedText]

theorem closedText_mark : (k.mark e).flatMap Mark.closedText = k.doneText e := by
  rcases mark_cases k e with ⟨hm, -, -, hd⟩ | ⟨hm, -⟩ | ⟨hm, -, -, hd⟩ | ⟨hm, -, -, -, hd⟩ <;>
    simp_all [Mark.closedText]

theorem closings_marks : closings (events.flatMap k.mark) =
      ((events.takeWhile fun e => !k.isAdded e).filter k.isDone).length := by
  induction events with
  | nil => rfl
  | cons e events ih =>
    rcases mark_cases k e with ⟨hm, ha, -⟩ | ⟨hm, ha, hd, -⟩ | ⟨hm, ha, hd, -⟩ | ⟨hm, ha, hd, -⟩
    · simp [hm, ha]
    · simp [hm, ha, hd, ih]
    · simp [hm, ha, hd, ih]
    · simp [hm, ha, hd, ih]

theorem accounted_of_run {k : ItemKind} {events : List Event}
    (h : Run Step none (events.flatMap k.mark) none) : Accounted k events where
  text := by
    have htotal := added_eq_closed h
    simpa [flatMap_assoc, addedText_mark, closedText_mark] using htotal
  answered pre event post hevents hadded := by
    have hmark : k.mark event = [.opened] := by
      rcases mark_cases k event with h | h | h | h <;> simp_all
    rw [hevents, flatMap_append, flatMap_cons, hmark] at h
    rw [← closings_marks]
    exact closings_behind_opened h

/-- The pending items are an assistant message and a reasoning item with contents. -/
structure Shaped (s : ChatState) : Prop where
  assistant : ∀ item ∈ s.assistantItem, ∃ id content phase,
    item = .message id "assistant".toList content phase
  reasoning : ∀ item ∈ s.reasoningItem, ∃ id summary content encrypted,
    item = .reasoning id summary (some content) encrypted

def ItemKind.pending : ItemKind → ChatState → Option Str
  | .assistant, s => s.assistantItem.map itemText
  | .reasoning, s => s.reasoningItem.map itemText

/-- An event about text or reasoning. -/
def TextEvent : Prop := isCompleted e = false ∧ isFunctionCall e = false

/-- From `s` to `t` only events with the property `p` are sent, and each kind is accounted for by
them. -/
structure Grows (p : Event → Prop) (s t : ChatState) : Prop where
  shaped : Shaped t
  completedSent : t.completedSent = s.completedSent
  sent : ∃ events : List Event, t.sent = s.sent ++ events ∧
    (∀ e ∈ events, p e) ∧ ∀ k : ItemKind, Run Step (k.pending s) (events.flatMap k.mark) (k.pending t)

namespace Grows
variable {p : Event → Prop}

theorem refl {s : ChatState} (h : Shaped s) : Grows p s s :=
  ⟨h, rfl, [], by simp, by simp, fun k => .nil _⟩

theorem mono {q : Event → Prop} {s t : ChatState} (h : Grows p s t) (hpq : ∀ e, p e → q e) :
    Grows q s t := by
  obtain ⟨events, hsent, hp, hrun⟩ := h.sent
  exact ⟨h.shaped, h.completedSent, events, hsent, fun e he => hpq e (hp e he), hrun⟩

theorem trans {s t u : ChatState} (h : Grows p s t) (h' : Grows p t u) : Grows p s u := by
  obtain ⟨events, hsent, hnot, hrun⟩ := h.sent
  obtain ⟨events', hsent', hnot', hrun'⟩ := h'.sent
  refine ⟨h'.shaped, h'.completedSent.trans h.completedSent, events ++ events', ?_, ?_, ?_⟩
  · rw [hsent', hsent, append_assoc]
  · intro e he
    exact (mem_append.mp he).elim (hnot e) (hnot' e)
  · intro k
    rw [flatMap_append]
    exact (hrun k).append (hrun' k)

/-- One event that is sent together with a change of the pending items. -/
theorem send {s t : ChatState} {event : ResponseEvent} (hshaped : Shaped t)
    (hcompleted : t.completedSent = s.completedSent) (hsent : t.sent = s.sent ++ [.ok event])
    (hp : p (.ok event))
    (hrun : ∀ k : ItemKind, Run Step (k.pending s) (k.mark (.ok event)) (k.pending t)) :
    Grows p s t := by
  refine ⟨hshaped, hcompleted, [.ok event], hsent, by simpa using hp, fun k => ?_⟩
  simpa using hrun k

theorem foldl {α : Type*} {f : ChatState → α → ChatState}
    (hf : ∀ s a, Shaped s → Grows p s (f s a)) (l : List α) {s : ChatState} (hs : Shaped s) :
    Grows p s (l.foldl f s) := by
  induction l generalizing s with
  | nil => exact refl hs
  | cons a l ih => exact (hf s a hs).trans (ih (hf s a hs).shaped)

end Grows

theorem itemText_message_concat (id : Option Str) (role text : Str) (content : List ContentItem)
    (phase : Option MessagePhase) :
    itemText (.message id role (content ++ [.outputText text]) phase) =
      itemText (.message id role content phase) ++ text := by
  simp [itemText, contentText]

theorem itemText_reasoning_concat (id text : Str) (summary : List ReasoningItemReasoningSummary)
    (content : List ReasoningItemContent) (encrypted : Option Str) :
    itemText (.reasoning id summary (some (content ++ [.reasoningText text])) encrypted) =
      itemText (.reasoning id summary (some content) encrypted) ++ text := by
  simp [itemText, reasoningContentText]

variable {s : ChatState}

variable (hs : Shaped s)
include hs

theorem grows_openAssistant : Grows TextEvent s (openAssistant s) ∧ ∃ id content phase,
      (openAssistant s).assistantItem = some (.message id "assistant".toList content phase) := by
  unfold openAssistant
  cases hi : s.assistantItem with
  | none =>
    refine ⟨.send ⟨?_, hs.reasoning⟩ rfl rfl ⟨rfl, rfl⟩ ?_, none, [], none, rfl⟩
    · rintro item ⟨⟩
      exact ⟨none, [], none, rfl⟩
    · rintro (_ | _)
      · have hpending : ItemKind.pending .assistant s = none := by simp [ItemKind.pending, hi]
        rw [hpending]
        exact .single .opened
      · exact .nil _
  | some item =>
    obtain ⟨id, content, phase, rfl⟩ := hs.assistant item hi
    exact ⟨.refl hs, id, content, phase, hi⟩

theorem grows_openReasoning : Grows TextEvent s (openReasoning s) ∧ ∃ id summary content encrypted,
      (openReasoning s).reasoningItem = some (.reasoning id summary (some content) encrypted) := by
  unfold openReasoning
  cases hi : s.reasoningItem with
  | none =>
    refine ⟨.send ⟨hs.assistant, ?_⟩ rfl rfl ⟨rfl, rfl⟩ ?_, [], [], [], none, rfl⟩
    · rintro item ⟨⟩
      exact ⟨[], [], [], none, rfl⟩
    · rintro (_ | _)
      · exact .nil _
      · have hpending : ItemKind.pending .reasoning s = none := by simp [ItemKind.pending, hi]
        rw [hpending]
        exact .single .opened
  | some item =>
    obtain ⟨id, summary, content, encrypted, rfl⟩ := hs.reasoning item hi
    exact ⟨.refl hs, id, summary, content, encrypted, hi⟩

theorem grows_appendAssistantText (text : Str) :
    Grows TextEvent s (appendAssistantText s text) := by
  obtain ⟨hopen, id, content, phase, hitem⟩ := grows_openAssistant hs
  apply hopen.trans
  simp only [appendAssistantText, hitem]
  refine .send ⟨?_, hopen.shaped.reasoning⟩ rfl rfl ⟨rfl, rfl⟩ ?_
  · rintro item ⟨⟩
    exact ⟨id, _, phase, rfl⟩
  · rintro (_ | _)
    · have hpending : ItemKind.pending .assistant (openAssistant s) =
          some (itemText (.message id "assistant".toList content phase)) := by
        rw [ItemKind.pending, hitem, Option.map_some]
      rw [hpending]
      change Run Step _ _ (some (itemText (.message id "assistant".toList
        (content ++ [ContentItem.outputText text]) phase)))
      rw [itemText_message_concat]
      exact .single .added
    · exact .nil _

theorem grows_appendReasoningText (text : Str) :
    Grows TextEvent s (appendReasoningText s text) := by
  obtain ⟨hopen, id, summary, content, encrypted, hitem⟩ := grows_openReasoning hs
  apply hopen.trans
  simp only [appendReasoningText, hitem]
  refine .send ⟨hopen.shaped.assistant, ?_⟩ rfl rfl ⟨rfl, rfl⟩ ?_
  · rintro item ⟨⟩
    exact ⟨id, summary, _, encrypted, rfl⟩
  · rintro (_ | _)
    · exact .nil _
    · have hpending : ItemKind.pending .reasoning (openReasoning s) =
          some (itemText (.reasoning id summary (some content) encrypted)) := by
        rw [ItemKind.pending, hitem, Option.map_some]
      rw [hpending]
      change Run Step _ _ (some (itemText (.reasoning id summary
        (some (content ++ [ReasoningItemContent.reasoningText text])) encrypted)))
      rw [itemText_reasoning_concat]
      exact .single .added

theorem grows_appendReasoning (holder : Json) : Grows TextEvent s (appendReasoning s holder) := by
  unfold appendReasoning
  cases (holder.get "reasoning").bind reasoningText with
  | none => exact .refl hs
  | some text => exact grows_appendReasoningText hs text

theorem grows_appendContent (delta : Json) : Grows TextEvent s (appendContent s delta) := by
  unfold appendContent
  cases delta.get "content" with
  | none => exact .refl hs
  | some content => exact .foldl (fun _ text hs => grows_appendAssistantText hs text) _ hs

/-- The tables of tool calls play no part in the accounts. -/
theorem grows_withTools {p : Event → Prop} (tools : ToolCalls) :
    Grows p s { s with tools := tools } :=
  ⟨⟨hs.assistant, hs.reasoning⟩, rfl, [], by simp, by simp, fun k => by cases k <;> exact .nil _⟩

theorem grows_routeToolCalls (delta : Json) : Grows TextEvent s (routeToolCalls s delta) := by
  unfold routeToolCalls
  cases (delta.get "tool_calls").bind Json.asArray with
  | none => exact .refl hs
  | some toolCalls => exact grows_withTools hs _

theorem grows_applyDelta (choice : Json) : Grows TextEvent s (applyDelta s choice) := by
  unfold applyDelta
  cases choice.get "delta" with
  | none => exact .refl hs
  | some delta =>
    have hreasoning := grows_appendReasoning hs delta
    have hcontent := hreasoning.trans (grows_appendContent hreasoning.shaped delta)
    exact hcontent.trans (grows_routeToolCalls hcontent.shaped delta)

theorem grows_applyMessage (choice : Json) : Grows TextEvent s (applyMessage s choice) := by
  unfold applyMessage
  cases choice.get "message" with
  | none => exact .refl hs
  | some message => exact grows_appendReasoning hs message

theorem grows_flushReasoning :
    Grows TextEvent s (flushReasoning s) ∧ (flushReasoning s).reasoningItem = none := by
  unfold flushReasoning
  cases hi : s.reasoningItem with
  | none => exact ⟨.refl hs, hi⟩
  | some item =>
    obtain ⟨id, summary, content, encrypted, rfl⟩ := hs.reasoning item hi
    refine ⟨.send ⟨hs.assistant, by rintro item ⟨⟩⟩ rfl rfl ⟨rfl, rfl⟩ ?_, rfl⟩
    rintro (_ | _)
    · exact .nil _
    · rw [ItemKind.pending, hi]
      exact .single .closed

theorem grows_flushAssistant :
    Grows TextEvent s (flushAssistant s) ∧ (flushAssistant s).assistantItem = none ∧
      (flushAssistant s).reasoningItem = s.reasoningItem := by
  unfold flushAssistant
  cases hi : s.assistantItem with
  | none => exact ⟨.refl hs, hi, rfl⟩
  | some item =>
    obtain ⟨id, content, phase, rfl⟩ := hs.assistant item hi
    refine ⟨.send ⟨by rintro item ⟨⟩, hs.reasoning⟩ rfl rfl ⟨rfl, rfl⟩ ?_, rfl, rfl⟩
    rintro (_ | _)
    · rw [ItemKind.pending, hi]
      exact .single .closed
    · exact .nil _

theorem grows_flush : Grows TextEvent s (flushAssistant (flushReasoning s)) ∧
      ∀ k, ItemKind.pending k (flushAssistant (flushReasoning s)) = none := by
  obtain ⟨hr, hrnone⟩ := grows_flushReasoning hs
  obtain ⟨ha, hanone, hkeep⟩ := grows_flushAssistant hr.shaped
  refine ⟨hr.trans ha, ?_⟩
  rintro (_ | _)
  · simp [ItemKind.pending, hanone]
  · simp [ItemKind.pending, hkeep, hrnone]

theorem grows_sendToolCall (index : ℕ) :
    Grows (fun e => isCompleted e = false) s (sendToolCall s index) := by
  unfold sendToolCall
  cases s.tools.calls.lookup index with
  | none => exact .refl hs
  | some state =>
    cases hn : state.name with
    | none =>
      simp only [hn]
      exact grows_withTools hs _
    | some name =>
      simp only [hn]
      refine .send ⟨hs.assistant, hs.reasoning⟩ rfl rfl rfl ?_
      rintro (_ | _) <;> exact .nil _

theorem grows_finishToolCalls : Grows (fun e => isCompleted e = false) s (finishToolCalls s) := by
  have hr := (grows_flushReasoning hs).1.mono fun e h => h.1
  have htools := hr.trans (grows_withTools hr.shaped { (flushReasoning s).tools with order := [] })
  exact htools.trans (.foldl (fun _ index hs => grows_sendToolCall hs index) _ htools.shaped)

end

/-- The response has not been completed. -/
structure Live (s : ChatState) : Prop where
  shaped : Shaped s
  completedSent : s.completedSent = false
  notCompleted : ∀ e ∈ s.sent, isCompleted e = false
  account : ∀ k : ItemKind, Run Step none (s.sent.flatMap k.mark) (k.pending s)

/-- The response has been completed, but the stream is still read. -/
structure Over (s : ChatState) : Prop where
  shaped : Shaped s
  completedSent : s.completedSent = true
  settled : Settled s.sent

def Sound (s : ChatState) : Prop := Live s ∨ Over s

section
variable {s t : ChatState}

theorem Sound.shaped (hs : Sound s) : Shaped s := hs.elim Live.shaped Over.shaped

theorem Live.grows (hs : Live s) (h : Grows (fun e => isCompleted e = false) s t) : Live t := by
  obtain ⟨events, hsent, hnot, hrun⟩ := h.sent
  refine ⟨h.shaped, h.completedSent.trans hs.completedSent, ?_, ?_⟩
  · intro e he
    rw [hsent] at he
    exact (mem_append.mp he).elim (hs.notCompleted e) (hnot e)
  · intro k
    rw [hsent, flatMap_append]
    exact (hs.account k).append (hrun k)

theorem Over.grows (hs : Over s) (h : Grows (fun e => isCompleted e = false) s t) : Over t := by
  obtain ⟨events, hsent, hnot, -⟩ := h.sent
  obtain ⟨before, completion, after, heq, hc, hothers, haccount⟩ := hs.settled
  refine ⟨h.shaped, h.completedSent.trans hs.completedSent, before, completion, after ++ events,
    ?_, hc, ?_, haccount⟩
  · rw [hsent, heq, append_assoc, cons_append]
  · intro e he
    rw [← append_assoc] at he
    exact (mem_append.mp he).elim (hothers e) (hnot e)

theorem Sound.grows (hs : Sound s) (h : Grows (fun e => isCompleted e = false) s t) : Sound t :=
  hs.imp (fun hs => hs.grows h) (fun hs => hs.grows h)

/-- The completion is sent when nothing is pending. -/
theorem Live.settled (hs : Live s) (hpending : ∀ k : ItemKind, k.pending s = none) :
    Settled (s.send completedEvent).sent := by
  refine ⟨s.sent, .ok completedEvent, [], rfl, rfl, by simpa using hs.notCompleted, fun k => ?_⟩
  apply accounted_of_run
  have haccount := hs.account k
  rwa [hpending k] at haccount

theorem Sound.finishStop (hs : Sound s) : Sound (finishStop s) := by
  obtain ⟨hflush, hpending⟩ := grows_flush hs.shaped
  have hgrows := hflush.mono fun e h => h.1
  unfold CodexApi.finishStop
  rcases hs with hs | hs
  · have hlive := hs.grows hgrows
    rw [if_neg (by simp [hlive.completedSent])]
    exact .inr ⟨⟨hlive.shaped.assistant, hlive.shaped.reasoning⟩, rfl, hlive.settled hpending⟩
  · have hover := hs.grows hgrows
    rw [if_pos hover.completedSent]
    exact .inr hover

theorem Sound.finishStream (hs : Sound s) : Settled (finishStream s).sent := by
  unfold CodexApi.finishStream
  rcases hs with hs | hs
  · obtain ⟨hflush, hpending⟩ := grows_flush hs.shaped
    rw [if_neg (by simp [hs.completedSent])]
    exact (hs.grows (hflush.mono fun e h => h.1)).settled hpending
  · rw [if_pos hs.completedSent]
    exact hs.settled

/-- Reading goes on in a sound state, or an error has been sent, or all is settled. -/
def Outcome (r : ChatState × Bool) : Prop :=
  (r.2 = false ∧ Sound r.1) ∨ r.2 = true ∧ ((∃ e, .error e ∈ r.1.sent) ∨ Settled r.1.sent)

theorem outcome_processChoice (hs : Sound s) (choice : Json) :
    Outcome (processChoice s choice) := by
  have hdelta := grows_applyDelta hs.shaped choice
  have hmessage := hdelta.trans (grows_applyMessage hdelta.shaped choice)
  have hsound := hs.grows (hmessage.mono fun e h => h.1)
  simp only [processChoice]
  split_ifs
  · exact .inl ⟨rfl, hsound.finishStop⟩
  · exact .inr ⟨rfl, .inl ⟨.contextWindowExceeded, by simp [fail]⟩⟩
  · exact .inl ⟨rfl, hsound.grows (grows_finishToolCalls hmessage.shaped)⟩
  · exact .inl ⟨rfl, hsound⟩

theorem outcome_processChoices (choices : List Json) (hs : Sound s) :
    Outcome (processChoices s choices) := by
  induction choices generalizing s with
  | nil => exact .inl ⟨rfl, hs⟩
  | cons choice choices ih =>
    have hone := outcome_processChoice hs choice
    rw [processChoices]
    rcases hp : processChoice s choice with ⟨t, _ | _⟩
    · rw [hp] at hone
      obtain ⟨-, hsound⟩ := hone.resolve_right (by simp)
      exact ih hsound
    · rw [hp] at hone
      exact hone

variable (fromStr : Str → Option Json)

theorem outcome_processPoll (hs : Sound s) (poll : Poll) :
    Outcome (processPoll fromStr s poll) := by
  cases poll with
  | event data =>
    simp only [processPoll, processEvent]
    split_ifs
    · exact .inl ⟨rfl, hs⟩
    · exact .inr ⟨rfl, .inr hs.finishStream⟩
    · exact outcome_processChoices _ hs
  | error message => exact .inr ⟨rfl, .inl ⟨.stream message, by simp [processPoll, fail]⟩⟩
  | timeout =>
    exact .inr ⟨rfl, .inl ⟨.stream "idle timeout waiting for SSE".toList,
      by simp [processPoll, fail]⟩⟩

theorem outcome_processPolls (polls : List Poll) (hs : Sound s) :
    (∃ e, .error e ∈ (processPolls fromStr s polls).sent) ∨
      Settled (processPolls fromStr s polls).sent := by
  induction polls generalizing s with
  | nil => exact .inr hs.finishStream
  | cons poll polls ih =>
    have hone := outcome_processPoll fromStr hs poll
    rw [processPolls]
    rcases hp : processPoll fromStr s poll with ⟨t, _ | _⟩
    · rw [hp] at hone
      obtain ⟨-, hsound⟩ := hone.resolve_right (by simp)
      exact ih hsound
    · rw [hp] at hone
      exact (hone.resolve_left (by simp)).2

end

theorem sound_init : Sound {} :=
  .inl ⟨⟨by simp, by simp⟩, rfl, by simp, fun k => by cases k <;> exact .nil _⟩

/-- There is one completion, and before it all deltas are in items that are added and finished in
turn. -/
theorem processChatSse_settled (fromStr : Str → Option Json) (polls : List Poll)
    (hok : ∀ e, .error e ∉ processChatSse fromStr polls) :
    Settled (processChatSse fromStr polls) := by
  apply (outcome_processPolls fromStr polls sound_init).resolve_left
  rintro ⟨e, he⟩
  exact hok e he

/-- A chunk that has some reasoning and two texts. -/
def sampleText : Str :=
  "\x7b\"choices\":[\x7b\"delta\":\x7b\"reasoning\":\"r\",\"content\":".toList ++
    "[\x7b\"text\":\"a\"\x7d,\x7b\"text\":\"b\"\x7d]\x7d\x7d]\x7d".toList

def sampleFromStr (data : Str) : Option Json :=
  if data = sampleText then
    some (.object [("choices", .array [.object [("delta", .object
      [("reasoning", .string "r".toList), ("content", .array
        [.object [("text", .string "a".toList)], .object [("text", .string "b".toList)]])])]])])
  else none

theorem processChatSse_settled_sample :
    (∀ e, .error e ∉ processChatSse sampleFromStr [.event sampleText, .event "[DONE]".toList]) ∧
      Settled (processChatSse sampleFromStr [.event sampleText, .event "[DONE]".toList]) := by
  have hok : ∀ e, .error e ∉
      processChatSse sampleFromStr [.event sampleText, .event "[DONE]".toList] := by
    intro e he
    have hall : (processChatSse sampleFromStr [.event sampleText,
        .event "[DONE]".toList]).all Except.isOk = true := by decide +kernel
    cases all_eq_true.mp hall _ he
  exact ⟨hok, processChatSse_settled _ _ hok⟩

end CodexRs.CodexApi
