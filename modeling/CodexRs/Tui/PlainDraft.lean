import CodexRs.Tui.ChatComposer
import CodexRs.Tui.PasteBurstStates
import CodexRs.Tui.TextAreaPositions

/-!
# Drafts without elements

Text is appended at the end and taken back from there, and nothing else happens to it.
-/
namespace CodexRs.Tui
open CodexRs.Text CodexRs.Base64 CodexRs.ByteText List Option TextArea

namespace TextArea

structure AtEnd (ta : TextArea) : Prop where
  elements : ta.elements = []
  cursor : ta.cursorPos = ta.len

variable {ta : TextArea}

theorem AtEnd.clampPosToNearestBoundary (h : AtEnd ta) {p : ℕ} (hp : Boundary ta.text p) :
    ta.clampPosToNearestBoundary p = p :=
  clampPosToNearestBoundary_of_free hp (by rw [h.elements]; exact fun _ he => nomatch he)

theorem AtEnd.insertStr (h : AtEnd ta) (s : Str) :
    ∃ ta', ta.insertStr s = some ta' ∧ ta'.text = ta.text ++ s ∧ AtEnd ta' := by
  have hpos : ta.clampPosForInsertion ta.cursorPos = ta.cursorPos :=
    h.clampPosToNearestBoundary (h.cursor ▸ boundary_length ta.text)
  have htext : ByteText.replaceRange ta.text ta.cursorPos ta.cursorPos s = some (ta.text ++ s) :=
    replaceRange_eq_some.mpr ⟨ta.text, [], [], by simp, h.cursor.symm, by simp [h.cursor, len],
      by simp⟩
  unfold TextArea.insertStr insertStrAt
  dsimp only
  rw [hpos, htext]
  refine ⟨_, rfl, rfl, ?_, ?_⟩
  · rw [h.elements]
    rfl
  · change (if ta.cursorPos ≤ ta.cursorPos then _ else _) = utf8Length (ta.text ++ s)
    rw [if_pos le_rfl, h.cursor, utf8Length_append]
    rfl

theorem AtEnd.removeLast (h : AtEnd ta) {x y : Str} (htext : ta.text = x ++ y) :
    ∃ ta', ta.replaceRange ⟨utf8Length x, ta.cursorPos⟩ [] = some ta' ∧ ta'.text = x ∧
      AtEnd ta' := by
  have hlen : ta.len = utf8Length x + utf8Length y := by rw [len, htext, utf8Length_append]
  have hgrow : ta.expandRangeToElementBoundaries ⟨utf8Length x, ta.cursorPos⟩ =
      ⟨utf8Length x, ta.cursorPos⟩ := by
    rw [expandRangeToElementBoundaries, h.elements, Span.grow]
    exact dif_pos rfl
  have hnew : ByteText.replaceRange ta.text (utf8Length x) ta.cursorPos [] = some x :=
    replaceRange_eq_some.mpr ⟨x, y, [], by simp [htext], rfl, by simp [h.cursor, hlen], by simp⟩
  unfold replaceRange replaceRangeRaw
  rw [hgrow]
  dsimp only
  rw [if_neg (by rw [h.cursor, hlen]; omega)]
  by_cases hnothing : min ta.cursorPos ta.len - min (utf8Length x) ta.len = 0 ∧ utf8Length [] = 0
  · rw [if_pos hnothing]
    have hy : y = [] := by
      have hempty := hnothing.1
      rw [h.cursor, hlen] at hempty
      exact utf8Length_eq_zero.mp (by omega)
    exact ⟨ta, rfl, by rw [htext, hy, append_nil], h⟩
  · rw [if_neg hnothing, hnew]
    have hnone : ta.elements.filterMap (shiftElement (min (utf8Length x) ta.len)
        (min ta.cursorPos ta.len - min (utf8Length x) ta.len) (utf8Length [])) = [] := by
      rw [h.elements]
      rfl
    refine ⟨_, rfl, rfl, hnone, ?_⟩
    -- the cursor was at the end of what is removed
    have hstart : min (utf8Length x) ta.len = utf8Length x := by omega
    have hcursor : (if ta.cursorPos < min (utf8Length x) ta.len then ta.cursorPos
        else if ta.cursorPos ≤ min ta.cursorPos ta.len then
          min (utf8Length x) ta.len + utf8Length []
        else ta.cursorPos - (min ta.cursorPos ta.len - min (utf8Length x) ta.len) +
          utf8Length []) = utf8Length x := by
      rw [hstart, if_neg (by rw [h.cursor, hlen]; omega), if_pos (by rw [h.cursor, min_self]),
        utf8Length_nil, Nat.add_zero]
    dsimp only [shiftElements]
    rw [hcursor, min_self]
    exact clampPosToNearestBoundary_of_free (boundary_length x)
      (by rw [hnone]; exact fun _ he => nomatch he)

end TextArea

theorem normalizeNewlines_eq_self {s : Str} (h : '\r' ∉ s) : normalizeNewlines s = s := by
  fun_induction normalizeNewlines s with
  | case1 => rfl
  | case2 s ih => exact absurd mem_cons_self h
  | case3 ch s _ ih =>
    obtain ⟨hch, hs⟩ := not_or.mp (mt mem_cons.mpr h)
    rw [ih hs, if_neg fun heq => hch heq.symm]

namespace ChatComposer

/-- A text that is neither a shell command nor marked as a command when it is the draft. -/
def Harmless (cfg : ComposerConfig) (text : Str) : Prop :=
  new.slashCommandElementRange cfg (text.takeWhile (· ≠ '\n')) = none ∧ text.head? ≠ some '!'

instance (cfg : ComposerConfig) (text : Str) : Decidable (Harmless cfg text) :=
  inferInstanceAs (Decidable (_ ∧ _))

/-- A paste that goes into the text as it is. -/
def OrdinaryPaste (cfg : ComposerConfig) (pasted : Str) : Prop :=
  pasted.length ≤ largePasteCharThreshold ∧ imageOfPaste cfg pasted = none

/-- A draft that plain text can be appended to. -/
structure PlainDraft (composer : ChatComposer) : Prop where
  atEnd : composer.textarea.AtEnd
  noBash : composer.isBashMode = false

variable {cfg : ComposerConfig} {composer : ChatComposer}

theorem syncSlashCommandElements_eq (h : PlainDraft composer)
    (hok : Harmless cfg composer.textarea.text) :
    composer.syncSlashCommandElements cfg = composer := by
  have hrange : composer.slashCommandElementRange cfg
      (composer.textarea.text.takeWhile (· ≠ '\n')) = none := by
    rw [← hok.1, slashCommandElementRange, h.noBash]
    rfl
  unfold syncSlashCommandElements
  dsimp only
  rw [hrange, h.atEnd.elements]
  split
  · rfl
  · rfl

theorem syncBashModeFromText_eq (hok : Harmless cfg composer.textarea.text) :
    composer.syncBashModeFromText = some composer :=
  if_neg fun hbang => hok.2 hbang.2

theorem insertStr_eq (h : PlainDraft composer) {s : Str}
    (hok : Harmless cfg (composer.textarea.text ++ s)) :
    ∃ ta, composer.insertStr cfg s = some { composer with textarea := ta } ∧
      ta.text = composer.textarea.text ++ s ∧ ta.AtEnd := by
  obtain ⟨ta, hta, htext, hend⟩ := h.atEnd.insertStr s
  rw [← htext] at hok
  have hdraft : PlainDraft { composer with textarea := ta } := ⟨hend, h.noBash⟩
  refine ⟨ta, ?_, htext, hend⟩
  unfold insertStr
  rw [hta]
  simp only [bind_eq_bind, bind_some]
  rw [syncBashModeFromText_eq hok, bind_some, syncSlashCommandElements_eq hdraft hok]
  rfl

theorem handlePaste_eq (h : PlainDraft composer) {pasted : Str} (hcr : '\r' ∉ pasted)
    (hpaste : OrdinaryPaste cfg pasted) (hok : Harmless cfg (composer.textarea.text ++ pasted)) :
    ∃ ta, composer.handlePaste cfg pasted =
        some { composer with textarea := ta, pasteBurst := PasteBurst.default } ∧
      ta.text = composer.textarea.text ++ pasted ∧ ta.AtEnd := by
  obtain ⟨ta, hta, htext, hend⟩ := insertStr_eq h hok
  have hdraft : PlainDraft
      { composer with textarea := ta, pasteBurst := PasteBurst.default } := ⟨hend, h.noBash⟩
  refine ⟨ta, ?_, htext, hend⟩
  unfold handlePaste integratePaste
  rw [normalizeNewlines_eq_self hcr, if_neg (Nat.not_lt.mpr hpaste.1), hpaste.2]
  rw [hta]
  simp only [Option.bind_eq_bind, Option.bind_some, Option.pure_def, Option.some.injEq]
  exact syncSlashCommandElements_eq hdraft (by rw [htext]; exact hok)

theorem textareaInput_eq (h : PlainDraft composer) {key : PlainKey} {ch : Char}
    (hkey : key = .enter ∧ ch = '\n' ∨ key = .char ch ∧ ¬ (ch.toNat < 32 ∨ ch.toNat = 127)) :
    ∃ ta, composer.textareaInput key = some { composer with textarea := ta } ∧
      ta.text = composer.textarea.text ++ [ch] ∧ ta.AtEnd := by
  obtain ⟨ta, hta, htext, hend⟩ := h.atEnd.insertStr [ch]
  refine ⟨ta, ?_, htext, hend⟩
  rcases hkey with ⟨rfl, rfl⟩ | ⟨rfl, hplain⟩
  · rw [textareaInput, hta]
    rfl
  · rw [textareaInput, if_neg hplain, hta]
    rfl

end ChatComposer
end CodexRs.Tui
