import CodexRs.Tui.PasteBurst

/-!
# States of the paste detection

A buffer may be filled without an active burst: by Enter, while a first character is held.
-/
namespace CodexRs.Tui
open CodexRs.Text

namespace PasteBurst

/-- No time later than `latest` was seen. A burst holds no first character, and a buffer
without a burst comes with one; what is held was the last character. -/
structure Sane (latest : ℕ) (burst : PasteBurst) : Prop where
  idle : burst.active = true → burst.pendingFirstChar = none
  kept : burst.active = false → burst.buffer ≠ [] → burst.pendingFirstChar.isSome
  since : ∀ ch t, burst.pendingFirstChar = some (ch, t) → burst.lastPlainCharTime = some t
  timed : burst.active = true → burst.lastPlainCharTime.isSome
  past : ∀ t, burst.lastPlainCharTime = some t → t ≤ latest
  noCr : '\r' ∉ burst.buffer
  plain : ∀ ch t, burst.pendingFirstChar = some (ch, t) → ch ≠ '\r' ∧ ch ≠ '\n'

/-- The characters held back. -/
def held (burst : PasteBurst) : Str := (burst.pendingFirstChar.map (·.1)).toList

/-- Nothing is buffered except in a burst. -/
def Settled (burst : PasteBurst) : Prop := burst.active = false → burst.buffer = []

/-- A lone first character that is held came within the interval before `now`. -/
def Fresh (burst : PasteBurst) (now : ℕ) : Prop :=
  ∀ ch t, burst.buffer = [] → burst.pendingFirstChar = some (ch, t) →
    now - t ≤ pasteBurstCharInterval

variable {burst : PasteBurst} {latest now : ℕ}

theorem sane_default (latest : ℕ) : Sane latest default := by
  constructor <;> simp [default]

theorem isActiveInternal_iff : burst.isActiveInternal = true ↔
    burst.active = true ∨ burst.buffer ≠ [] := by
  simp [isActiveInternal]

theorem not_isActiveInternal_iff : burst.isActiveInternal = false ↔
    burst.active = false ∧ burst.buffer = [] := by
  simp [isActiveInternal]

theorem held_eq_nil : burst.held = [] ↔ burst.pendingFirstChar = none := by
  cases h : burst.pendingFirstChar <;> simp [held, h]

variable {ch : Char}

theorem held_of_pending {t : ℕ} (h : burst.pendingFirstChar = some (ch, t)) :
    burst.held = [ch] := by
  simp [held, h]

theorem active_of_settled (hsettled : burst.Settled) (h : burst.isActiveInternal = true) :
    burst.active = true := by
  rcases isActiveInternal_iff.mp h with hactive | hbuffer
  · exact hactive
  · by_contra hinactive
    exact hbuffer (hsettled (Bool.eq_false_of_not_eq_true hinactive))

theorem fresh_of_none (h : burst.pendingFirstChar = none) (now : ℕ) : burst.Fresh now := by
  intro ch t _ hpending
  rw [h] at hpending
  cases hpending

/-! ## Due flushes -/

/-- A flush that is not due leaves a held character that is recent, or beside a buffer. -/
theorem fresh_of_not_timedOut {windows : Bool} (h : burst.Sane latest)
    (hdue : burst.timedOut windows now = false) : burst.Fresh now := by
  intro ch t hbuffer hpending
  have hinactive : burst.active = false := by
    by_contra hactive
    rw [h.idle (by simpa using hactive)] at hpending
    cases hpending
  unfold timedOut at hdue
  rw [not_isActiveInternal_iff.mpr ⟨hinactive, hbuffer⟩, h.since ch t hpending] at hdue
  simpa using hdue

theorem sane_typed (h : burst.Sane latest) (hidle : burst.isActiveInternal = false) :
    Sane latest { burst with pendingFirstChar := none } where
  idle := fun _ => rfl
  kept := fun _ hne => absurd (not_isActiveInternal_iff.mp hidle).2 hne
  since := nofun
  timed := h.timed
  past := h.past
  noCr := h.noCr
  plain := nofun

/-! ## Enter -/

theorem sane_appendNewline (h : burst.Sane latest) (hactive : burst.isActive = true) :
    Sane latest ({ burst with buffer := burst.buffer ++ ['\n'] }.extendWindow now) where
  idle := h.idle
  kept := by
    intro hinactive _
    change burst.active = false at hinactive
    unfold isActive at hactive
    rw [Bool.or_eq_true, isActiveInternal_iff] at hactive
    rcases hactive with (ha | hbuffer) | hpending
    · rw [hinactive] at ha
      cases ha
    · exact h.kept hinactive hbuffer
    · exact hpending
  since := h.since
  timed := h.timed
  past := h.past
  noCr := by
    change '\r' ∉ burst.buffer ++ ['\n']
    simp [h.noCr]
  plain := h.plain

/-! ## Characters -/

theorem sane_appendChar (h : burst.Sane latest)
    (hactive : burst.isActiveInternal = true) (hch : ch ≠ '\r') :
    Sane latest (burst.appendCharToBuffer ch now) where
  idle := h.idle
  kept := by
    intro hinactive _
    rcases isActiveInternal_iff.mp hactive with ha | hbuffer
    · change burst.active = false at hinactive
      rw [hinactive] at ha
      cases ha
    · exact h.kept hinactive hbuffer
  since := h.since
  timed := h.timed
  past := h.past
  noCr := by
    change '\r' ∉ burst.buffer ++ [ch]
    simp [h.noCr, hch.symm]
  plain := h.plain

/-- A burst that is under way, whatever started it. -/
theorem sane_burst {buffer : Str} {count : ℕ} {window : Option ℕ} (hnow : now ≤ latest)
    (hbuffer : '\r' ∉ buffer) :
    Sane latest
      { lastPlainCharTime := some now, consecutivePlainCharBurst := count,
        burstWindowUntil := window, buffer := buffer, active := true,
        pendingFirstChar := none } where
  idle := fun _ => rfl
  kept := nofun
  since := nofun
  timed := fun _ => rfl
  past := by
    rintro t ⟨⟩
    exact hnow
  noCr := hbuffer
  plain := nofun

/-- Noting a character keeps a state in which none is held. -/
theorem sane_notePlainChar (h : burst.Sane latest) (hnow : now ≤ latest)
    (hpending : burst.pendingFirstChar = none) : Sane latest (burst.notePlainChar now) where
  idle := fun _ => hpending
  kept := h.kept
  since := by
    intro ch t hch
    rw [show (burst.notePlainChar now).pendingFirstChar = none from hpending] at hch
    cases hch
  timed := fun _ => rfl
  past := by
    rintro t ⟨⟩
    exact hnow
  noCr := h.noCr
  plain := h.plain

theorem heldRecently_notePlainChar :
    (burst.notePlainChar now).heldRecently now = burst.heldRecently now := rfl

/-- The outcomes of a plain ASCII character. -/
inductive PlainCharOutcome (burst : PasteBurst) (latest : ℕ) (ch : Char) (now : ℕ) :
    PasteBurst × CharDecision → Prop
  /-- It goes into the buffer behind what was held. -/
  | buffered (next : PasteBurst) (decision : CharDecision) :
      decision = .bufferAppend ∨ decision = .beginBufferFromPending →
      Sane latest (next.appendCharToBuffer ch now) → next.active = true →
      next.buffer = burst.buffer ++ burst.held → next.pendingFirstChar = none →
      PlainCharOutcome burst latest ch now (next, decision)
  /-- It is held, and nothing else was unless a buffer stands beside it. -/
  | retained (next : PasteBurst) :
      Sane latest next → burst.active = false → next.buffer = burst.buffer →
      next.pendingFirstChar = some (ch, now) → (burst.buffer = [] → burst.held = []) →
      PlainCharOutcome burst latest ch now (next, .retainFirstChar)
  /-- It may begin a burst, with nothing buffered or held so far. -/
  | began (retroChars : ℕ) :
      burst.active = false → burst.buffer = [] → burst.pendingFirstChar = none →
      PlainCharOutcome burst latest ch now
        (burst.notePlainChar now, .beginBuffer retroChars)

theorem onPlainChar_outcome (h : burst.Sane latest) (hnow : now ≤ latest)
    (hfresh : burst.Fresh now) (hch : ch ≠ '\r' ∧ ch ≠ '\n') :
    PlainCharOutcome burst latest ch now (burst.onPlainChar ch now) := by
  unfold onPlainChar
  dsimp only
  rw [heldRecently_notePlainChar]
  cases hactive : (burst.notePlainChar now).active with
  | true =>
    have hactive' : burst.active = true := hactive
    have hpending := h.idle hactive'
    refine .buffered _ _ (.inl rfl) ?_ hactive ?_ hpending
    · refine sane_appendChar ?_ (isActiveInternal_iff.mpr (.inl hactive)) hch.1
      have hnoted := sane_notePlainChar h hnow hpending
      exact ⟨hnoted.idle, hnoted.kept, hnoted.since, hnoted.timed, hnoted.past, hnoted.noCr,
        hnoted.plain⟩
    · rw [held_eq_nil.mpr hpending, List.append_nil]
      rfl
  | false =>
    have hactive' : burst.active = false := hactive
    cases hrecent : burst.heldRecently now with
    | some c =>
      obtain ⟨⟨c', t⟩, hpending, hif⟩ := Option.bind_eq_some_iff.mp hrecent
      obtain ⟨-, hsome⟩ := Option.ite_none_right_eq_some.mp hif
      obtain rfl : c' = c := Option.some.inj hsome
      refine .buffered _ _ (.inr rfl) ?_ rfl ?_ rfl
      · refine sane_burst hnow ?_
        change '\r' ∉ burst.buffer ++ [c'] ++ [ch]
        simp [h.noCr, (h.plain c' t hpending).1.symm, hch.1.symm]
      · rw [held_of_pending hpending]
        rfl
    | none =>
      -- what is held is no longer recent, so a buffer stands beside it
      have hstale : ∀ c t, burst.pendingFirstChar = some (c, t) →
          ¬ now - t ≤ pasteBurstCharInterval := by
        intro c t hpending hle
        rw [heldRecently, hpending, Option.bind_some, if_pos hle] at hrecent
        cases hrecent
      have hnone : burst.buffer = [] → burst.pendingFirstChar = none := by
        intro hbuffer
        cases hpending : burst.pendingFirstChar with
        | none => rfl
        | some held => exact absurd (hfresh held.1 held.2 hbuffer hpending) (hstale _ _ hpending)
      by_cases hcount : pasteBurstMinChars ≤ (burst.notePlainChar now).consecutivePlainCharBurst
      · simp only [hcount]
        have hbuffer : burst.buffer = [] := by
          by_contra hne
          obtain ⟨⟨c, t⟩, hpending⟩ := Option.isSome_iff_exists.mp (h.kept hactive' hne)
          have hfirst : (burst.notePlainChar now).consecutivePlainCharBurst = 1 := by
            unfold notePlainChar
            rw [h.since c t hpending, if_neg]
            exact fun hle => hstale c t hpending (of_decide_eq_true hle)
          rw [hfirst] at hcount
          exact absurd hcount (by decide)
        exact .began _ hactive' hbuffer (hnone hbuffer)
      · simp only [hcount]
        refine .retained _ ?_ hactive' rfl rfl fun hbuffer => held_eq_nil.mpr (hnone hbuffer)
        exact
          { idle := nofun
            kept := fun _ _ => rfl
            since := by
              rintro c t ⟨⟩
              rfl
            timed := fun _ => rfl
            past := by
              rintro t ⟨⟩
              exact hnow
            noCr := h.noCr
            plain := by
              rintro c t ⟨⟩
              exact hch }

end PasteBurst
end CodexRs.Tui
