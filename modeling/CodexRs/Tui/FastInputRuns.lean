import CodexRs.Tui.FastInput

/-!
# Runs of fast input

From an Enter that overtakes a held character on, the draft never becomes what was typed again.
-/
namespace CodexRs.Tui
open CodexRs.Text List Machine PasteBurst Option

/-- Plain keys and the ticks between them, with their times. -/
inductive InputEvent
  | key (key : PlainKey) (now : ℕ)
  | tick (now : ℕ)

namespace InputEvent

def time : InputEvent → ℕ
  | key _ now => now
  | tick now => now

def text : InputEvent → Str
  | key k _ => k.text
  | tick _ => []

def apply (cfg : ComposerConfig) (composer : ChatComposer) : InputEvent → Option ChatComposer
  | key k now => composer.handleInputBasicWithTime cfg k now
  | tick now => composer.handlePasteBurstFlush cfg now

/-- A key for a character is one for a printable character. -/
def Plain : InputEvent → Prop
  | key (.char ch) _ => ChatComposer.IsPlain ch
  | _ => True

instance (event : InputEvent) : Decidable event.Plain := by
  unfold Plain
  split <;> infer_instance

end InputEvent

/-- The characters typed, with a newline for each Enter. -/
def typedText (events : List InputEvent) : Str := events.flatMap (·.text)

def runInput (cfg : ComposerConfig) (composer : ChatComposer) (events : List InputEvent) :
    Option ChatComposer :=
  events.foldlM (InputEvent.apply cfg) composer

namespace ChatComposer

/-- A paste that is due at the event goes into the text as it is. -/
def FlushesOrdinary (cfg : ComposerConfig) (composer : ChatComposer) (event : InputEvent) : Prop :=
  match (composer.pasteBurst.flushIfDue cfg.windows event.time).2 with
  | .paste pasted => OrdinaryPaste cfg pasted
  | _ => True

instance (cfg : ComposerConfig) (composer : ChatComposer) (event : InputEvent) :
    Decidable (FlushesOrdinary cfg composer event) := by
  unfold FlushesOrdinary OrdinaryPaste
  split <;> infer_instance

/-- Enter comes while a first character is held that is not yet due. -/
def EnterOvertakes (cfg : ComposerConfig) (composer : ChatComposer) : InputEvent → Prop
  | .key .enter now => composer.pasteBurst.pendingFirstChar.isSome ∧
      composer.pasteBurst.timedOut cfg.windows now = false
  | _ => False

instance (cfg : ComposerConfig) (composer : ChatComposer) (event : InputEvent) :
    Decidable (EnterOvertakes cfg composer event) := by
  unfold EnterOvertakes
  split <;> infer_instance

/-- Nothing is lost, doubled or out of order. -/
def Tracks (composer : ChatComposer) (typed : Str) : Prop :=
  composer.pasteBurst.Settled ∧ composer.content ++ composer.held = typed

/-- A newline stands where another character was typed. -/
def Strayed (composer : ChatComposer) (typed : Str) : Prop :=
  ∃ front ch, ch ≠ '\n' ∧ front ++ [ch] <+: typed ∧ front ++ ['\n'] <+: composer.content

variable {cfg : ComposerConfig} {composer next : ChatComposer} {latest now : ℕ} {typed more : Str}

theorem Keeps.tracks (h : Keeps latest composer next more) (htracks : composer.Tracks typed) :
    next.Tracks (typed ++ more) := by
  obtain ⟨hsettled, hexact⟩ := h.exact htracks.1
  exact ⟨hsettled, by rw [hexact, htracks.2]⟩

theorem Strayed.grow (h : composer.Strayed typed) (hgrows : composer.content <+: next.content) :
    next.Strayed (typed ++ more) := by
  obtain ⟨front, ch, hch, htyped, hcontent⟩ := h
  exact ⟨front, ch, hch, htyped.trans (prefix_append _ _), hcontent.trans hgrows⟩

/-! ## Drafts that are no commands -/

theorem takeWhile_append_newline (front rest : Str) :
    (front ++ '\n' :: rest).takeWhile (· ≠ '\n') = front.takeWhile (· ≠ '\n') := by
  induction front with
  | nil => rfl
  | cons ch front ih =>
    rw [cons_append, takeWhile_cons, takeWhile_cons, ih]

theorem Harmless.append_newline {front : Str} (h : Harmless cfg front) (rest : Str) :
    Harmless cfg (front ++ '\n' :: rest) := by
  refine ⟨by rw [takeWhile_append_newline]; exact h.1, ?_⟩
  cases front with
  | nil => simp
  | cons ch front => exact h.2

/-- The first parts of what a draft can become are first parts of what was typed, or have
one of them as their first line. -/
theorem harmless_of_follows (h : composer.Tracks typed ∨ composer.Strayed typed)
    (hok : ∀ t, t <+: typed ++ more → Harmless cfg t) (t : Str)
    (ht : t <+: composer.content ++ composer.held ++ more) : Harmless cfg t := by
  rcases h with htracks | ⟨front, ch, -, htyped, hcontent⟩
  · rw [htracks.2] at ht
    exact hok t ht
  · have hfront : ∀ s, s <+: front → Harmless cfg s := fun s hs =>
      hok s (hs.trans ((prefix_append _ _).trans (htyped.trans (prefix_append _ _))))
    have hstray : front ++ ['\n'] <+: composer.content ++ composer.held ++ more :=
      hcontent.trans ((prefix_append _ _).trans (prefix_append _ _))
    rcases prefix_or_prefix_of_prefix ht hstray with hle | ⟨rest, hrest⟩
    · rcases prefix_concat_iff.mp hle with rfl | hle
      · exact (hfront front prefix_rfl).append_newline []
      · exact hfront t hle
    · rw [← hrest, append_assoc]
      exact (hfront front prefix_rfl).append_newline rest

/-! ## Steps -/

theorem flush_spec (h : Plain latest composer)
    (hfollows : composer.Tracks typed ∨ composer.Strayed typed)
    (hok : ∀ t, t <+: typed → Harmless cfg t) {event : InputEvent}
    (hpaste : composer.FlushesOrdinary cfg event) :
    ∃ next, composer.handlePasteBurstFlush cfg event.time = some next ∧
      Keeps latest composer next [] ∧ next.pasteBurst.Fresh event.time ∧
      (composer.pasteBurst.timedOut cfg.windows event.time = true →
        next.pasteBurst.buffer = [] ∧ next.held = []) ∧
      (composer.pasteBurst.timedOut cfg.windows event.time = false → next = composer) := by
  rw [← append_nil typed] at hok
  have hdraft := harmless_of_follows hfollows hok
  rw [append_nil] at hdraft
  refine handlePasteBurstFlush_spec h (fun pasted hpasted => ?_) hdraft
  unfold FlushesOrdinary at hpaste
  rw [hpasted] at hpaste
  exact hpaste

/-- What is held after a flush was held and not due before it. -/
theorem held_flushed (hdue : composer.pasteBurst.timedOut cfg.windows now = true →
      next.pasteBurst.buffer = [] ∧ next.held = [])
    (hnot : composer.pasteBurst.timedOut cfg.windows now = false → next = composer) :
    next.held ≠ [] ↔ composer.EnterOvertakes cfg (.key .enter now) := by
  unfold EnterOvertakes
  cases htimed : composer.pasteBurst.timedOut cfg.windows now with
  | true => simp [(hdue htimed).2, htimed]
  | false =>
    rw [hnot htimed, Ne, held, held_eq_nil, ← Ne, ne_none_iff_isSome]
    simp [htimed]

theorem Keeps.follows (h : Keeps latest composer next more)
    (hfollows : composer.Tracks typed ∨ composer.Strayed typed) :
    next.Tracks (typed ++ more) ∨ next.Strayed (typed ++ more) :=
  hfollows.imp h.tracks fun hstrayed => hstrayed.grow h.grows

/-- The newline stands where the held character was typed. -/
theorem strayed_of_overtaken (h : Plain latest composer) (htracks : composer.Tracks typed)
    (hheld : composer.held ≠ []) (hcontent : next.content = composer.content ++ ['\n']) :
    next.Strayed (typed ++ more) := by
  rw [held, Ne, held_eq_nil] at hheld
  obtain ⟨⟨ch, t⟩, hpending⟩ := ne_none_iff_exists'.mp hheld
  have hlast : composer.held = [ch] := held_of_pending hpending
  refine ⟨composer.content, ch, (h.burst.plain ch t hpending).2, ?_, by rw [hcontent]⟩
  rw [← htracks.2, hlast]
  exact prefix_append _ _

theorem apply_spec (h : Plain latest composer)
    (hfollows : composer.Tracks typed ∨ composer.Strayed typed) {event : InputEvent}
    (hplain : event.Plain) (htime : event.time ≤ latest)
    (hok : ∀ t, t <+: typed ++ event.text → Harmless cfg t)
    (hpaste : composer.FlushesOrdinary cfg event) :
    ∃ next, event.apply cfg composer = some next ∧ Plain latest next ∧
      (composer.Strayed typed → next.Strayed (typed ++ event.text)) ∧
      (composer.Tracks typed →
        if composer.EnterOvertakes cfg event then next.Strayed (typed ++ event.text)
        else next.Tracks (typed ++ event.text)) := by
  have htyped : ∀ t, t <+: typed → Harmless cfg t := fun t ht =>
    hok t (ht.trans (prefix_append _ _))
  obtain ⟨flushed, hflushed, hkeeps, hfresh, hdue, hnot⟩ := flush_spec h hfollows htyped hpaste
  cases event with
  | tick now =>
    refine ⟨flushed, hflushed, hkeeps.plain, fun hstrayed => hstrayed.grow hkeeps.grows, ?_⟩
    exact hkeeps.tracks
  | key key now =>
    have hflushedFollows := hkeeps.follows hfollows
    rw [append_nil] at hflushedFollows
    have hprintable : ∀ ch, key = .char ch → IsPlain ch := by
      rintro ch rfl
      exact hplain
    obtain ⟨next, hnext, hkey⟩ := handleKey_spec hkeeps.plain htime hfresh hprintable
      (harmless_of_follows hflushedFollows hok)
    have happly : composer.handleInputBasicWithTime cfg key now = some next := by
      unfold handleInputBasicWithTime
      rw [show composer.handlePasteBurstFlush cfg now = some flushed from hflushed]
      exact hnext
    refine ⟨next, happly, ?_⟩
    have hheld : flushed.held ≠ [] ↔ composer.EnterOvertakes cfg (.key .enter now) :=
      held_flushed hdue hnot
    by_cases hover : key = .enter ∧ flushed.held ≠ []
    · rw [if_pos hover] at hkey
      obtain ⟨hnextPlain, hcontent⟩ := hkey
      obtain ⟨rfl, hne⟩ := hover
      refine ⟨hnextPlain, fun hstrayed => ?_, fun htracks => ?_⟩
      · exact hstrayed.grow (hkeeps.grows.trans (by rw [hcontent]; exact prefix_append _ _))
      · rw [if_pos (hheld.mp hne)]
        have hflushedTracks := hkeeps.tracks htracks
        rw [append_nil] at hflushedTracks
        exact strayed_of_overtaken hkeeps.plain hflushedTracks hne hcontent
    · rw [if_neg hover] at hkey
      have hboth := hkeeps.trans hkey
      refine ⟨hkey.plain, fun hstrayed => hstrayed.grow hboth.grows, fun htracks => ?_⟩
      rw [if_neg]
      · exact hboth.tracks htracks
      · intro hovertakes
        cases key with
        | enter => exact hover ⟨rfl, hheld.mpr hovertakes⟩
        | char ch => exact hovertakes

/-! ## Runs -/

theorem plain_new (latest : ℕ) : Plain latest new :=
  ⟨⟨⟨rfl, rfl⟩, rfl⟩, rfl, sane_default latest, not_mem_nil⟩

/-- Once the draft has strayed it stays so, and it strays at the first Enter that
overtakes. -/
theorem runInput_spec {events : List InputEvent} (h : Plain latest composer)
    (hfollows : composer.Tracks typed ∨ composer.Strayed typed)
    (hplain : ∀ event ∈ events, event.Plain) (htimes : ∀ event ∈ events, event.time ≤ latest)
    (hok : ∀ t, t <+: typed ++ typedText events → Harmless cfg t)
    (hpastes : Along (InputEvent.apply cfg) (FlushesOrdinary cfg) composer events) :
    ∃ last, runInput cfg composer events = some last ∧ Plain latest last ∧
      (composer.Strayed typed → last.Strayed (typed ++ typedText events)) ∧
      (composer.Tracks typed → (last.Tracks (typed ++ typedText events) ∧
          Along (InputEvent.apply cfg)
            (fun composer event => ¬ composer.EnterOvertakes cfg event) composer events) ∨
        (last.Strayed (typed ++ typedText events) ∧ ¬ Along (InputEvent.apply cfg)
            (fun composer event => ¬ composer.EnterOvertakes cfg event) composer events)) := by
  induction events generalizing composer typed with
  | nil =>
    rw [typedText, flatMap_nil, append_nil]
    exact ⟨composer, rfl, h, id, fun htracks => .inl ⟨htracks, trivial⟩⟩
  | cons event events ih =>
    have htext : typed ++ typedText (event :: events) =
        typed ++ event.text ++ typedText events := by
      rw [typedText, append_assoc]
      rfl
    rw [htext] at hok ⊢
    obtain ⟨next, hnext, hnextPlain, hstray, htrack⟩ := apply_spec h hfollows
      (hplain event mem_cons_self) (htimes event mem_cons_self)
      (fun t ht => hok t (ht.trans (prefix_append _ _))) hpastes.1
    have hnextFollows : next.Tracks (typed ++ event.text) ∨ next.Strayed (typed ++ event.text) := by
      rcases hfollows with htracks | hstrayed
      · have hstep := htrack htracks
        split_ifs at hstep
        · exact .inr hstep
        · exact .inl hstep
      · exact .inr (hstray hstrayed)
    obtain ⟨last, hlast, hlastPlain, hlastStray, hlastTrack⟩ := ih hnextPlain hnextFollows
      (fun e he => hplain e (mem_cons_of_mem _ he))
      (fun e he => htimes e (mem_cons_of_mem _ he)) hok (hpastes.2 next hnext)
    have hrun : runInput cfg composer (event :: events) = some last := by
      rw [runInput, foldlM_cons, hnext]
      exact hlast
    have halong : Along (InputEvent.apply cfg)
        (fun composer event => ¬ composer.EnterOvertakes cfg event) composer (event :: events) ↔
        ¬ composer.EnterOvertakes cfg event ∧ Along (InputEvent.apply cfg)
          (fun composer event => ¬ composer.EnterOvertakes cfg event) next events := by
      rw [Along, hnext]
      simp
    refine ⟨last, hrun, hlastPlain, fun hstrayed => hlastStray (hstray hstrayed), fun htracks => ?_⟩
    have hstep := htrack htracks
    split_ifs at hstep with hovertakes
    · exact .inr ⟨hlastStray hstep, fun hall => (halong.mp hall).1 hovertakes⟩
    · refine (hlastTrack hstep).imp (fun hrest => ⟨hrest.1, ?_⟩) fun hrest => ⟨hrest.1, ?_⟩
      · exact halong.mpr ⟨hovertakes, hrest.2⟩
      · exact fun hall => hrest.2 (halong.mp hall).2

theorem Strayed.ne (h : composer.Strayed typed) : composer.textarea.text ≠ typed := by
  rintro rfl
  obtain ⟨front, ch, hch, htyped, hcontent⟩ := h
  have hsame : front ++ [ch] = front ++ ['\n'] :=
    (prefix_of_prefix_length_le (htyped.trans (prefix_append _ _)) hcontent
      (by simp)).eq_of_length (by simp)
  exact hch (singleton_injective (append_cancel_left hsame))

/-- After all timeouts a flush is due, unless nothing is buffered or held. -/
theorem timedOut_of_late {burst : PasteBurst} (h : burst.Sane latest) {windows : Bool} {final : ℕ}
    (hlate : latest + max pasteBurstCharInterval (pasteBurstActiveIdleTimeout windows) < final) :
    burst.timedOut windows final = true ∨ burst.buffer = [] ∧ burst.pendingFirstChar = none := by
  cases hlast : burst.lastPlainCharTime with
  | some t =>
    have hpast := h.past t hlast
    unfold timedOut
    rw [hlast, any_some, decide_eq_true_iff]
    split_ifs <;> omega
  | none =>
    right
    have hpending : burst.pendingFirstChar = none := by
      by_contra hne
      obtain ⟨⟨ch, t⟩, hfirst⟩ := ne_none_iff_exists'.mp hne
      rw [h.since ch t hfirst] at hlast
      cases hlast
    have hinactive : burst.active = false := by
      by_contra hactive
      have htimed := h.timed (Bool.eq_true_of_not_eq_false hactive)
      rw [hlast] at htimed
      cases htimed
    refine ⟨?_, hpending⟩
    by_contra hbuffer
    have hkept := h.kept hinactive hbuffer
    rw [hpending] at hkept
    cases hkept

/-- A tick after all timeouts puts everything into the draft. -/
theorem lastTick_spec (h : Plain latest composer)
    (hfollows : composer.Tracks typed ∨ composer.Strayed typed)
    (hok : ∀ t, t <+: typed → Harmless cfg t) {final : ℕ}
    (hlate : latest + max pasteBurstCharInterval (pasteBurstActiveIdleTimeout cfg.windows) < final)
    (hpaste : composer.FlushesOrdinary cfg (.tick final)) :
    ∃ last, composer.handlePasteBurstFlush cfg final = some last ∧
      (composer.Tracks typed → last.textarea.text = typed) ∧
      (composer.Strayed typed → last.textarea.text ≠ typed) := by
  obtain ⟨last, hlast, hkeeps, -, hdue, hnot⟩ := flush_spec h hfollows hok hpaste
  have hempty : last.pasteBurst.buffer = [] ∧ last.held = [] := by
    rcases timedOut_of_late h.burst hlate with htimed | ⟨hbuffer, hpending⟩
    · exact hdue htimed
    · cases htimed : composer.pasteBurst.timedOut cfg.windows final with
      | true => exact hdue htimed
      | false =>
        rw [hnot htimed]
        exact ⟨hbuffer, held_eq_nil.mpr hpending⟩
  refine ⟨last, hlast, fun htracks => ?_, fun hstrayed => ?_⟩
  · have hexact := (hkeeps.tracks htracks).2
    rwa [content, hempty.1, hempty.2, append_nil, append_nil, append_nil] at hexact
  · have hlastStrayed : last.Strayed (typed ++ []) := hstrayed.grow hkeeps.grows
    rw [append_nil] at hlastStrayed
    exact hlastStrayed.ne

end ChatComposer

open ChatComposer in
/-- For plain keys and ticks without commands, with ordinary pastes: after all timeouts the draft is
what was typed exactly if no Enter came while a first character was held. -/
theorem draft_eq_typedText_iff {cfg : ComposerConfig} {events : List InputEvent}
    {latest final : ℕ} (hplain : ∀ event ∈ events, event.Plain)
    (htimes : ∀ event ∈ events, event.time ≤ latest)
    (hlate : latest + max pasteBurstCharInterval (pasteBurstActiveIdleTimeout cfg.windows) < final)
    (hok : ∀ t, t <+: typedText events → Harmless cfg t)
    (hpastes : Machine.Along (InputEvent.apply cfg) (FlushesOrdinary cfg) ChatComposer.new
      (events ++ [.tick final])) :
    ∃ composer, runInput cfg ChatComposer.new (events ++ [.tick final]) = some composer ∧
      (composer.textarea.text = typedText events ↔ Machine.Along (InputEvent.apply cfg)
          (fun composer event => ¬ composer.EnterOvertakes cfg event) ChatComposer.new events) := by
  obtain ⟨hevents, hfinal⟩ := Along.append_iff.mp hpastes
  have htracks : new.Tracks [] := ⟨fun _ => rfl, rfl⟩
  obtain ⟨composer, hrun, hcomposer, -, hfollows⟩ :=
    runInput_spec (plain_new latest) (.inl htracks) hplain htimes hok hevents
  have hfollows := hfollows htracks
  obtain ⟨last, hlast, htyped, hstrayed⟩ := lastTick_spec hcomposer
    (hfollows.imp And.left And.left) hok hlate (hfinal composer hrun).1
  refine ⟨last, ?_, ?_⟩
  · have hstart : events.foldlM (InputEvent.apply cfg) new = some composer := hrun
    rw [runInput, foldlM_append, hstart]
    simpa [InputEvent.apply] using hlast
  · rcases hfollows with ⟨hgood, hall⟩ | ⟨hbad, hsome⟩
    · exact iff_of_true (htyped hgood) hall
    · exact iff_of_false (hstrayed hbad) hsome

/-- Not on Windows; no pasted text names an image, and `/plan` is the only command. -/
def plainConfig : ComposerConfig where
  windows := false
  imagePasteEnabled := true
  slashCommandsEnabled := true
  imagePath := fun _ => none
  isKnownSlashName := fun name => name = "plan".toList

/-- A burst with a newline and a character that is not ASCII, and one slow character. -/
def fastWords : List InputEvent :=
  [.key (.char 'h') 0, .key (.char 'i') (millis 1), .key .enter (millis 2),
    .key (.char 'é') (millis 3), .tick (millis 100), .key (.char 'x') (millis 150)]

theorem draft_eq_typedText_fastWords :
    ∃ composer, runInput plainConfig ChatComposer.new (fastWords ++ [.tick (millis 300)]) =
        some composer ∧ composer.textarea.text = "hi\néx".toList := by
  have hok : ∀ t ∈ (typedText fastWords).inits, ChatComposer.Harmless plainConfig t := by
    decide +kernel
  have hlate : millis 150 + max pasteBurstCharInterval
      (pasteBurstActiveIdleTimeout plainConfig.windows) < millis 300 := by decide
  have hplain : ∀ event ∈ fastWords, event.Plain := by decide +kernel
  obtain ⟨composer, hrun, htext⟩ := draft_eq_typedText_iff hplain (by decide +kernel) hlate
    (fun t ht => hok t ((mem_inits _ _).mpr ht)) (by decide +kernel)
  exact ⟨composer, hrun, htext.mpr (by decide +kernel)⟩

/-- A character that is held when Enter comes is dropped. -/
theorem enter_drops_heldChar :
    Machine.Along (InputEvent.apply plainConfig) (ChatComposer.FlushesOrdinary plainConfig)
        ChatComposer.new
        [.key (.char 'a') 0, .key .enter (millis 1), .tick (millis 200)] ∧
      (runInput plainConfig ChatComposer.new
        [.key (.char 'a') 0, .key .enter (millis 1), .tick (millis 200)]).map
          (·.textarea.text) = some ['\n'] ∧
      typedText [.key (.char 'a') 0, .key .enter (millis 1), .tick (millis 200)] = ['a', '\n'] := by
  decide +kernel

end CodexRs.Tui
