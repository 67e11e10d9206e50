import CodexRs.Library.Run
import CodexRs.Tui.PlainDraft

/-!
# Fast input

Draft, buffer and held character together are what was typed, unless an Enter overtakes a held
character.
-/
namespace CodexRs.Tui
open CodexRs.Text CodexRs.Base64 CodexRs.ByteText List Option PasteBurst

/-- What a key adds to the text. -/
def PlainKey.text : PlainKey → Str
  | .enter => ['\n']
  | .char ch => [ch]

namespace ChatComposer

/-- The draft and what is buffered behind it. -/
def content (composer : ChatComposer) : Str := composer.textarea.text ++ composer.pasteBurst.buffer

def held (composer : ChatComposer) : Str := composer.pasteBurst.held

structure Plain (latest : ℕ) (composer : ChatComposer) : Prop extends PlainDraft composer where
  enabled : composer.disablePasteBurst = false
  burst : composer.pasteBurst.Sane latest
  noCr : '\r' ∉ composer.textarea.text

/-- A part of a step that keeps what there is in its order and adds `typed` to it. -/
structure Keeps (latest : ℕ) (composer next : ChatComposer) (typed : Str) : Prop where
  plain : Plain latest next
  grows : composer.content <+: next.content
  exact : composer.pasteBurst.Settled → next.pasteBurst.Settled ∧
    next.content ++ next.held = composer.content ++ composer.held ++ typed

variable {cfg : ComposerConfig} {composer : ChatComposer} {latest now : ℕ}

theorem Keeps.same (h : Plain latest composer) : Keeps latest composer composer [] :=
  ⟨h, prefix_rfl, fun hsettled => ⟨hsettled, (append_nil _).symm⟩⟩

theorem Keeps.trans {next last : ChatComposer} {typed more : Str}
    (h : Keeps latest composer next typed) (h' : Keeps latest next last more) :
    Keeps latest composer last (typed ++ more) := by
  refine ⟨h'.plain, h.grows.trans h'.grows, fun hsettled => ?_⟩
  obtain ⟨hnext, htyped⟩ := h.exact hsettled
  obtain ⟨hlast, hmore⟩ := h'.exact hnext
  exact ⟨hlast, by rw [hmore, htyped, append_assoc]⟩

variable {next : ChatComposer}

/-- What a part of a step adds to the content tells what it does with the character held. -/
theorem keeps_of_content {typed more : Str} (hplain : Plain latest next)
    (hcontent : next.content = composer.content ++ more)
    (hexact : composer.pasteBurst.Settled →
      next.pasteBurst.Settled ∧ more ++ next.held = composer.held ++ typed) :
    Keeps latest composer next typed := by
  refine ⟨hplain, ⟨more, hcontent.symm⟩, fun hsettled => ?_⟩
  obtain ⟨hnext, hmore⟩ := hexact hsettled
  exact ⟨hnext, by rw [hcontent, append_assoc, hmore, append_assoc]⟩

section
variable (h : Plain latest composer)
include h

theorem keeps_appended {typed : Str}
    (hdraft : PlainDraft next) (henabled : next.disablePasteBurst = false)
    (hburst : next.pasteBurst.Sane latest) (hbuffer : next.pasteBurst.buffer = [])
    (hpending : next.pasteBurst.pendingFirstChar = none)
    (hempty : composer.pasteBurst.buffer = []) (hcr : '\r' ∉ composer.held ++ typed)
    (htext : next.textarea.text = composer.textarea.text ++ (composer.held ++ typed)) :
    Keeps latest composer next typed := by
  have hcontent : next.content = composer.content ++ (composer.held ++ typed) := by
    rw [content, content, hbuffer, hempty, htext, append_nil, append_nil]
  have hnone : next.held = [] := held_eq_nil.mpr hpending
  refine keeps_of_content ⟨hdraft, henabled, hburst, ?_⟩ hcontent fun _ =>
    ⟨fun _ => hbuffer, by rw [hnone, append_nil]⟩
  rw [htext, mem_append]
  exact not_or.mpr ⟨h.noCr, hcr⟩

theorem notMem_held : '\r' ∉ composer.held := by
  intro hmem
  unfold held PasteBurst.held at hmem
  rw [mem_toList, map_eq_some_iff] at hmem
  obtain ⟨⟨ch, t⟩, hpending, rfl⟩ := hmem
  exact (h.burst.plain _ t hpending).1 rfl

theorem held_eq_nil_of_active (hactive : composer.pasteBurst.isActiveInternal = true)
    (hsettled : composer.pasteBurst.Settled) : composer.held = [] :=
  held_eq_nil.mpr (h.burst.idle (active_of_settled hsettled hactive))

/-! ## Flushes -/

theorem handlePasteBurstFlush_spec
    (hpaste : ∀ pasted, (composer.pasteBurst.flushIfDue cfg.windows now).2 = .paste pasted →
      OrdinaryPaste cfg pasted)
    (hok : ∀ t, t <+: composer.content ++ composer.held → Harmless cfg t) :
    ∃ next, composer.handlePasteBurstFlush cfg now = some next ∧ Keeps latest composer next [] ∧
      next.pasteBurst.Fresh now ∧
      (composer.pasteBurst.timedOut cfg.windows now = true →
        next.pasteBurst.buffer = [] ∧ next.held = []) ∧
      (composer.pasteBurst.timedOut cfg.windows now = false → next = composer) := by
  unfold handlePasteBurstFlush
  unfold flushIfDue at hpaste ⊢
  cases hdue : composer.pasteBurst.timedOut cfg.windows now with
  | false =>
    exact ⟨composer, rfl, .same h, fresh_of_not_timedOut h.burst hdue, nofun, fun _ => rfl⟩
  | true =>
    simp only [hdue] at hpaste ⊢
    cases hactive : composer.pasteBurst.isActiveInternal with
    | true =>
      -- the buffer becomes the end of the draft
      simp only [hactive] at hpaste ⊢
      have hdraft : PlainDraft { composer with
          pasteBurst := { composer.pasteBurst with active := false, buffer := [] } } :=
        ⟨h.atEnd, h.noBash⟩
      obtain ⟨ta, hta, htext, hend⟩ := handlePaste_eq hdraft h.burst.noCr (hpaste _ rfl)
        (hok _ (prefix_append composer.content composer.held))
      have htext : ta.text = composer.content := htext
      refine ⟨_, hta, keeps_of_content ⟨⟨hend, h.noBash⟩, h.enabled, sane_default latest, ?_⟩
        (congrArg (· ++ []) htext) fun hsettled => ⟨fun _ => rfl, ?_⟩,
        fresh_of_none rfl now, fun _ => ⟨rfl, rfl⟩, nofun⟩
      · rw [htext, content, mem_append]
        exact not_or.mpr ⟨h.noCr, h.burst.noCr⟩
      · rw [held_eq_nil_of_active h hactive hsettled]
        rfl
    | false =>
      have hidle := not_isActiveInternal_iff.mp hactive
      cases hpending : composer.pasteBurst.pendingFirstChar with
      | none =>
        exact ⟨composer, rfl, .same h, fresh_of_none hpending now,
          fun _ => ⟨hidle.2, held_eq_nil.mpr hpending⟩, nofun⟩
      | some first =>
        obtain ⟨ch, t⟩ := first
        have hheld : composer.held = [ch] := held_of_pending hpending
        have hdraft : PlainDraft { composer with
            pasteBurst := { composer.pasteBurst with pendingFirstChar := none } } :=
          ⟨h.atEnd, h.noBash⟩
        have htyped : composer.textarea.text ++ [ch] <+: composer.content ++ composer.held := by
          rw [hheld, content, hidle.2, append_nil]
        obtain ⟨ta, hta, htext, hend⟩ := insertStr_eq hdraft (hok _ htyped)
        refine ⟨_, hta, keeps_appended h ⟨hend, h.noBash⟩ h.enabled
          (sane_typed h.burst hactive) hidle.2 rfl hidle.2 ?_ ?_,
          fresh_of_none rfl now, fun _ => ⟨hidle.2, rfl⟩, nofun⟩
        · rw [append_nil]
          exact notMem_held h
        · rw [hheld]
          exact htext

end

/-! ## Characters -/

/-- A key for a character is one for a printable character. -/
def IsPlain (ch : Char) : Prop := ¬ (ch.toNat < 32 ∨ ch.toNat = 127)

instance (ch : Char) : Decidable (IsPlain ch) := inferInstanceAs (Decidable (¬ _))

theorem IsPlain.ne {ch : Char} (h : IsPlain ch) : ch ≠ '\r' ∧ ch ≠ '\n' := by
  constructor <;>
  · rintro rfl
    exact h (by decide)

theorem retroStartIndex_eq (before : Str) (n : ℕ) :
    ∃ k, retroStartIndex before n = utf8Length (before.take k) := by
  unfold retroStartIndex
  split
  · exact ⟨before.length, by rw [take_length]⟩
  · exact ⟨_, rfl⟩

/-- Nothing is buffered or held, and a character was just noted. -/
structure JustNoted (composer : ChatComposer) (now : ℕ) : Prop where
  inactive : composer.pasteBurst.active = false
  buffer : composer.pasteBurst.buffer = []
  pending : composer.pasteBurst.pendingFirstChar = none
  last : composer.pasteBurst.lastPlainCharTime = some now

variable {ch : Char}

/-- The end of the draft is moved into the buffer, in front of the new character. -/
theorem keeps_grabbed (h : Plain latest composer) (hnoted : JustNoted composer now)
    (hnow : now ≤ latest) (hch : ch ≠ '\r') {ta : TextArea} {grabbed : Str}
    (hend : ta.AtEnd) (htext : ta.text ++ grabbed = composer.textarea.text) :
    Keeps latest composer { composer with
        textarea := ta
        pasteBurst :=
          (composer.pasteBurst.beginWithRetroGrabbed grabbed now).appendCharToBuffer ch now }
      [ch] := by
  have hcr := h.noCr
  rw [← htext, mem_append, not_or] at hcr
  have hburst : Sane latest
      ((composer.pasteBurst.beginWithRetroGrabbed grabbed now).appendCharToBuffer ch now) := by
    have hsane : Sane latest
        { lastPlainCharTime := some now
          consecutivePlainCharBurst := composer.pasteBurst.consecutivePlainCharBurst
          burstWindowUntil := some (now + pasteEnterSuppressWindow)
          buffer := grabbed ++ [ch]
          active := true
          pendingFirstChar := none } := sane_burst hnow (by
      rw [mem_append, mem_singleton]
      exact not_or.mpr ⟨hcr.2, hch.symm⟩)
    simpa [appendCharToBuffer, beginWithRetroGrabbed,
      extendWindow, hnoted.buffer, hnoted.pending, hnoted.last] using hsane
  have hcontent : ta.text ++ (composer.pasteBurst.buffer ++ grabbed ++ [ch]) =
      composer.content ++ [ch] := by
    rw [content, hnoted.buffer, nil_append, ← append_assoc, htext, append_nil]
  have hnone : composer.held = [] := held_eq_nil.mpr hnoted.pending
  refine keeps_of_content ⟨⟨hend, h.noBash⟩, h.enabled, hburst, hcr.1⟩ hcontent
    fun _ => ⟨nofun, ?_⟩
  change [ch] ++ composer.held = _
  rw [hnone]
  rfl

/-- What was typed last is moved from the draft into the buffer, or nothing happens. -/
theorem beginBuffer_spec (h : Plain latest composer) (hnoted : JustNoted composer now)
    (hnow : now ≤ latest) (hch : ch ≠ '\r') (retroChars : ℕ) :
    composer.beginBuffer ch retroChars now = some (composer, false) ∨
      ∃ next, composer.beginBuffer ch retroChars now = some (next, true) ∧
        Keeps latest composer next [ch] := by
  have hcur : clampToCharBoundary composer.textarea.text composer.textarea.cursorPos =
      composer.textarea.cursorPos := by
    unfold clampToCharBoundary
    rw [h.atEnd.cursor, TextArea.len, min_self, if_neg fun hlt => Nat.lt_irrefl _ hlt.1]
  have hbefore : slice composer.textarea.text 0 composer.textarea.cursorPos =
      some composer.textarea.text :=
    slice_eq_some.mpr ⟨[], [], by simp, rfl, by rw [h.atEnd.cursor]; rfl⟩
  obtain ⟨k, hk⟩ := retroStartIndex_eq composer.textarea.text retroChars
  have hsplit : composer.textarea.text.take k ++ composer.textarea.text.drop k =
      composer.textarea.text := take_append_drop k _
  have hgrabbed : slice composer.textarea.text (utf8Length (composer.textarea.text.take k))
      (utf8Length composer.textarea.text) = some (composer.textarea.text.drop k) :=
    slice_eq_some.mpr ⟨_, [], by rw [append_nil, hsplit], rfl, by rw [hsplit]⟩
  unfold beginBuffer decideBeginBuffer
  rw [hcur]
  simp only [hbefore, hk, hgrabbed, bind_eq_bind, bind_some]
  by_cases hpastey : looksPastey (composer.textarea.text.drop k) = true
  · right
    rw [if_pos hpastey]
    by_cases hnil : composer.textarea.text.drop k = []
    · simp only [Option.pure_def, bind_some, if_pos hnil]
      refine ⟨_, rfl, keeps_grabbed h hnoted hnow hch h.atEnd ?_⟩
      rw [hnil, append_nil]
    · obtain ⟨ta, hta, htext, hend⟩ := h.atEnd.removeLast hsplit.symm
      simp only [Option.pure_def, bind_some, if_neg hnil]
      rw [hta]
      refine ⟨_, rfl, keeps_grabbed h hnoted hnow hch hend ?_⟩
      rw [htext, hsplit]
  · left
    rw [if_neg hpastey]
    rfl

/-- Nothing is flushed where nothing is buffered or held. -/
theorem flushBeforeModified_eq (hinactive : composer.pasteBurst.isActive = false) :
    composer.flushBeforeModified cfg = some composer := by
  unfold flushBeforeModified flushBeforeModifiedInput
  rw [hinactive]
  rfl

theorem JustNoted.isActive (h : JustNoted composer now) : composer.pasteBurst.isActive = false := by
  simp [PasteBurst.isActive, isActiveInternal, h.inactive, h.buffer, h.pending]

section
variable (h : Plain latest composer)
include h

/-- A key that is let through, with nothing buffered or held. -/
theorem keeps_typed (hbuffer : composer.pasteBurst.buffer = [])
    (hpending : composer.pasteBurst.pendingFirstChar = none) {ta : TextArea}
    (hch : ch ≠ '\r') (htext : ta.text = composer.textarea.text ++ [ch]) (hend : ta.AtEnd) :
    Keeps latest composer { composer with textarea := ta } [ch] := by
  have hnone : composer.held = [] := held_eq_nil.mpr hpending
  refine keeps_appended h ⟨hend, h.noBash⟩ h.enabled h.burst hbuffer hpending hbuffer ?_ ?_
  · rw [hnone, nil_append, mem_singleton]
    exact hch.symm
  · rw [hnone]
    exact htext

theorem insertPlainKey_spec (hbuffer : composer.pasteBurst.buffer = [])
    (hpending : composer.pasteBurst.pendingFirstChar = none) {key : PlainKey}
    (hkey : key = .enter ∧ ch = '\n' ∨ key = .char ch ∧ IsPlain ch) (hch : ch ≠ '\r')
    (hok : Harmless cfg (composer.textarea.text ++ [ch])) :
    ∃ next, composer.insertPlainKey key = some next ∧ Keeps latest composer next [ch] := by
  obtain ⟨ta, hta, htext, hend⟩ := textareaInput_eq h.toPlainDraft hkey
  refine ⟨_, ?_, keeps_typed h hbuffer hpending hch htext hend⟩
  unfold insertPlainKey
  rw [hta]
  exact syncBashModeFromText_eq (by rw [← htext] at hok; exact hok)

/-- The character goes into the buffer, behind what was held. -/
theorem keeps_buffered {next : PasteBurst}
    (hsane : Sane latest (next.appendCharToBuffer ch now)) (hactive : next.active = true)
    (hbuffer : next.buffer = composer.pasteBurst.buffer ++ composer.held)
    (hpending : next.pendingFirstChar = none) :
    Keeps latest composer { composer with pasteBurst := next.appendCharToBuffer ch now } [ch] := by
  have hcontent : composer.textarea.text ++ (next.buffer ++ [ch]) =
      composer.content ++ (composer.held ++ [ch]) := by
    rw [hbuffer, content]
    simp only [append_assoc]
  have hnone : (next.appendCharToBuffer ch now).held = [] := held_eq_nil.mpr hpending
  refine keeps_of_content ⟨⟨h.atEnd, h.noBash⟩, h.enabled, hsane, h.noCr⟩ hcontent fun _ => ⟨?_, ?_⟩
  · exact fun hidle => absurd (hactive.symm.trans hidle) Bool.noConfusion
  · exact (congrArg _ hnone).trans (append_nil _)

theorem keeps_retained {next : PasteBurst}
    (hsane : Sane latest next) (hidle : composer.pasteBurst.active = false)
    (hbuffer : next.buffer = composer.pasteBurst.buffer)
    (hpending : next.pendingFirstChar = some (ch, now))
    (hnone : composer.pasteBurst.buffer = [] → composer.held = []) :
    Keeps latest composer { composer with pasteBurst := next } [ch] := by
  have hcontent : composer.textarea.text ++ next.buffer = composer.content ++ [] := by
    rw [hbuffer, content, append_nil]
  refine keeps_of_content ⟨⟨h.atEnd, h.noBash⟩, h.enabled, hsane, h.noCr⟩ hcontent fun hsettled =>
    ⟨fun _ => hbuffer.trans (hsettled hidle), ?_⟩
  rw [hnone (hsettled hidle)]
  exact held_of_pending hpending

/-- Noting a time changes neither the draft nor what is buffered or held. -/
theorem plain_notePlainChar (hnow : now ≤ latest)
    (hpending : composer.pasteBurst.pendingFirstChar = none) :
    Plain latest { composer with pasteBurst := composer.pasteBurst.notePlainChar now } :=
  ⟨⟨h.atEnd, h.noBash⟩, h.enabled, sane_notePlainChar h.burst hnow hpending, h.noCr⟩

end

/-- A step from a state that differs only in what was noted. -/
theorem Keeps.of_noted {typed : Str} (h : Keeps latest
      { composer with pasteBurst := composer.pasteBurst.notePlainChar now } next typed) :
    Keeps latest composer next typed :=
  ⟨h.plain, h.grows, h.exact⟩

variable (h : Plain latest composer)
include h

theorem handlePlainChar_spec (hnow : now ≤ latest)
    (hfresh : composer.pasteBurst.Fresh now) (hch : IsPlain ch)
    (hok : Harmless cfg (composer.content ++ composer.held ++ [ch])) :
    ∃ next, composer.handlePlainChar cfg ch now = some next ∧ Keeps latest composer next [ch] := by
  unfold handlePlainChar
  have hout := onPlainChar_outcome h.burst hnow hfresh hch.ne
  generalize composer.pasteBurst.onPlainChar ch now = result at hout ⊢
  cases hout with
  | buffered next decision hdecision hsane hactive hbuffer hpending =>
    refine ⟨_, ?_, keeps_buffered h hsane hactive hbuffer hpending⟩
    rcases hdecision with rfl | rfl <;> rfl
  | retained next hsane hactive hbuffer hpending hnone =>
    exact ⟨_, rfl, keeps_retained h hsane hactive hbuffer hpending hnone⟩
  | began retroChars hactive hbuffer hpending =>
    have hplain := plain_notePlainChar h hnow hpending
    have hnoted : JustNoted
        { composer with pasteBurst := composer.pasteBurst.notePlainChar now } now :=
      ⟨hactive, hbuffer, hpending, rfl⟩
    rcases beginBuffer_spec hplain hnoted hnow hch.ne.1 retroChars with hnot | ⟨next, hnext, hkeeps⟩
    · have hnone : composer.held = [] := held_eq_nil.mpr hpending
      rw [hnone, append_nil, content, hbuffer, append_nil] at hok
      obtain ⟨next, hnext, hkeeps⟩ :=
        insertPlainKey_spec hplain hbuffer hpending (.inr ⟨rfl, hch⟩) hch.ne.1 hok
      refine ⟨next, ?_, hkeeps.of_noted⟩
      simp [hnot, flushBeforeModified_eq hnoted.isActive, hnext]
    · refine ⟨next, ?_, hkeeps.of_noted⟩
      simp [hnext]

/-- A held character with nothing buffered is put into the draft, as a paste of its own. -/
theorem flushBeforeModified_spec (hidle : composer.pasteBurst.isActiveInternal = false)
    (hok : Harmless cfg (composer.content ++ composer.held)) :
    ∃ next, composer.flushBeforeModified cfg = some next ∧ Keeps latest composer next [] ∧
      next.pasteBurst.active = false ∧ next.pasteBurst.buffer = [] ∧
      next.pasteBurst.pendingFirstChar = none := by
  have hempty := not_isActiveInternal_iff.mp hidle
  cases hpending : composer.pasteBurst.pendingFirstChar with
  | none =>
    have hinactive : composer.pasteBurst.isActive = false := by
      rw [isActive, hidle, hpending]
      rfl
    exact ⟨composer, flushBeforeModified_eq hinactive, .same h, hempty.1, hempty.2, hpending⟩
  | some first =>
    obtain ⟨ch, t⟩ := first
    have hheld : composer.held = [ch] := held_of_pending hpending
    have hactive : composer.pasteBurst.isActive = true := by
      rw [isActive, hpending, isSome_some, Bool.or_true]
    have hdraft : PlainDraft { composer with
        pasteBurst :=
          { composer.pasteBurst with active := false, buffer := [], pendingFirstChar := none } } :=
      ⟨h.atEnd, h.noBash⟩
    have hordinary : OrdinaryPaste cfg [ch] :=
      ⟨show 1 ≤ largePasteCharThreshold by decide, if_neg fun hlong => absurd hlong.1 (by simp)⟩
    rw [hheld, content, hempty.2, append_nil] at hok
    obtain ⟨ta, hta, htext, hend⟩ :=
      handlePaste_eq hdraft (by rw [← hheld]; exact notMem_held h) hordinary hok
    refine ⟨{ composer with textarea := ta, pasteBurst := default }, ?_,
      keeps_appended h ⟨hend, h.noBash⟩ h.enabled (sane_default latest) rfl rfl
        hempty.2 ?_ ?_, rfl, rfl, rfl⟩
    · unfold flushBeforeModified flushBeforeModifiedInput
      rw [if_pos hactive, hempty.2, hpending]
      exact hta
    · rw [append_nil]
      exact notMem_held h
    · rw [hheld]
      exact htext

theorem insertNonAscii_spec (hnoted : JustNoted composer now) (hch : IsPlain ch) :
    ∃ next, composer.insertNonAscii cfg ch = some next ∧ Keeps latest composer next [ch] := by
  obtain ⟨ta, hta, htext, hend⟩ := textareaInput_eq h.toPlainDraft (.inr ⟨rfl, hch⟩)
  have hkeeps := keeps_typed h hnoted.buffer hnoted.pending hch.ne.1 htext hend
  refine ⟨{ composer with textarea := ta }.retainPendingPastes, ?_,
    ⟨⟨⟨hend, h.noBash⟩, h.enabled, h.burst, hkeeps.plain.noCr⟩, hkeeps.grows, hkeeps.exact⟩⟩
  unfold insertNonAscii
  rw [flushBeforeModified_eq hnoted.isActive, bind_eq_bind, bind_some, hta]
  rfl

/-- A character is appended to what is buffered, as a character or as Enter. -/
theorem keeps_pushed (hinternal : composer.pasteBurst.isActiveInternal = true) {next : PasteBurst}
    (hsane : next.Sane latest) (hbuffer : next.buffer = composer.pasteBurst.buffer ++ [ch])
    (hactive : next.active = composer.pasteBurst.active)
    (hpending : next.pendingFirstChar = composer.pasteBurst.pendingFirstChar) :
    Keeps latest composer { composer with pasteBurst := next } [ch] := by
  have hcontent : composer.textarea.text ++ next.buffer = composer.content ++ [ch] := by
    rw [hbuffer, content, append_assoc]
  refine keeps_of_content ⟨⟨h.atEnd, h.noBash⟩, h.enabled, hsane, h.noCr⟩ hcontent fun hsettled =>
    ⟨fun hidle => ?_, ?_⟩
  · have hburst := active_of_settled hsettled hinternal
    exact absurd ((hactive.trans hburst).symm.trans hidle) Bool.noConfusion
  · have hnone := held_eq_nil_of_active h hinternal hsettled
    have hnext : next.held = [] := held_eq_nil.mpr (hpending.trans (held_eq_nil.mp hnone))
    rw [hnone]
    exact (congrArg _ hnext).trans (append_nil _)

theorem handleNonAsciiChar_spec (hnow : now ≤ latest)
    (hch : IsPlain ch) (hok : Harmless cfg (composer.content ++ composer.held)) :
    ∃ next, composer.handleNonAsciiChar cfg ch now = some next ∧
      Keeps latest composer next [ch] := by
  unfold handleNonAsciiChar tryAppendCharIfActive
  rw [if_neg (by rw [h.enabled]; exact Bool.false_ne_true)]
  cases hactive : composer.pasteBurst.isActiveInternal with
  | true =>
    exact ⟨_, rfl, keeps_pushed h hactive (sane_appendChar h.burst hactive hch.ne.1) rfl rfl rfl⟩
  | false =>
    obtain ⟨flushed, hflushed, hkeeps, hinactive, hbuffer, hpending⟩ :=
      flushBeforeModified_spec h hactive hok
    have hplain := plain_notePlainChar hkeeps.plain hnow hpending
    have hnoted : JustNoted
        { flushed with pasteBurst := flushed.pasteBurst.notePlainChar now } now :=
      ⟨hinactive, hbuffer, hpending, rfl⟩
    have hinsert : ∃ next, ({ flushed with
        pasteBurst := flushed.pasteBurst.notePlainChar now } : ChatComposer).insertNonAscii cfg ch =
          some next ∧ Keeps latest _ next [ch] := insertNonAscii_spec hplain hnoted hch
    obtain ⟨typed, htyped, hinserted⟩ := hinsert
    have hidle : (flushed.pasteBurst.notePlainChar now).active = false := hinactive
    simp only [Bool.false_eq_true, if_false, hflushed, bind_eq_bind, bind_some,
      onPlainCharNoHold, hidle]
    split_ifs with hcount
    · rcases beginBuffer_spec hplain hnoted hnow hch.ne.1
        ((flushed.pasteBurst.notePlainChar now).consecutivePlainCharBurst - 1)
        with hnot | ⟨next, hnext, hgrabbed⟩
      · refine ⟨typed, ?_, hkeeps.trans hinserted.of_noted⟩
        simp [hnot, htyped]
      · refine ⟨next, ?_, hkeeps.trans hgrabbed.of_noted⟩
        simp [hnext]
    · exact ⟨typed, htyped, hkeeps.trans hinserted.of_noted⟩

/-! ## Keys -/

/-- Enter goes into the buffer in front of a held character; every other key keeps the
order. -/
theorem handleKey_spec (hnow : now ≤ latest)
    (hfresh : composer.pasteBurst.Fresh now) {key : PlainKey}
    (hkey : ∀ ch, key = .char ch → IsPlain ch)
    (hok : ∀ t, t <+: composer.content ++ composer.held ++ key.text → Harmless cfg t) :
    ∃ next, composer.handleKey cfg key now = some next ∧
      if key = .enter ∧ composer.held ≠ [] then
        Plain latest next ∧ next.content = composer.content ++ ['\n']
      else Keeps latest composer next key.text := by
  have hall := hok _ prefix_rfl
  cases key with
  | enter =>
    cases hactive : composer.pasteBurst.isActive with
    | true =>
      refine ⟨{ composer with
        pasteBurst := { composer.pasteBurst with
          buffer := composer.pasteBurst.buffer ++ ['\n'] }.extendWindow now }, ?_, ?_⟩
      · simp [handleKey, appendNewlineIfActive, hactive, h.enabled]
      · split_ifs with hheld
        · refine ⟨⟨⟨h.atEnd, h.noBash⟩, h.enabled, sane_appendNewline h.burst hactive, h.noCr⟩, ?_⟩
          exact (append_assoc _ _ _).symm
        · have hnone : composer.held = [] := not_not.mp fun hne => hheld ⟨rfl, hne⟩
          have hinternal := hactive
          rw [isActive, held_eq_nil.mp hnone, isSome_none, Bool.or_false] at hinternal
          exact keeps_pushed h hinternal (sane_appendNewline h.burst hactive) rfl rfl rfl
    | false =>
      obtain ⟨hidle, hpending⟩ := Bool.or_eq_false_iff.mp hactive
      have hbuffer := (not_isActiveInternal_iff.mp hidle).2
      have hnone : composer.held = [] :=
        held_eq_nil.mpr (not_isSome_iff_eq_none.mp (by rw [hpending]; simp))
      rw [hnone, content, hbuffer, append_nil, append_nil] at hall
      obtain ⟨next, hnext, hkeeps⟩ := insertPlainKey_spec h hbuffer
        (held_eq_nil.mp hnone) (.inl ⟨rfl, rfl⟩) (by decide) hall
      refine ⟨next, ?_, ?_⟩
      · simpa [handleKey, appendNewlineIfActive, hactive] using hnext
      · rw [if_neg fun hheld => hheld.2 hnone]
        exact hkeeps
  | char ch =>
    have hch := hkey ch rfl
    simp only [reduceCtorEq, false_and, if_false, handleKey, h.enabled]
    split_ifs with hascii
    · exact handlePlainChar_spec h hnow hfresh hch hall
    · exact handleNonAsciiChar_spec h hnow hch (hok _ (prefix_append _ _))

end ChatComposer
end CodexRs.Tui
