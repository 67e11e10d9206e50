import CodexRs.AppServerTransport.OutboundBuffer
import CodexRs.Library.Outbox
import CodexRs.Library.Table

/-!
# What is kept for the clients

The buffer of a stream holds the envelopes that were inserted and not acknowledged since.
-/
namespace CodexRs.AppServerTransport
open Outbox List Option Table

variable {M : Type}

/-- The acknowledgement of a cursor covers the envelopes of its stream up to the cursor. -/
def acknowledges (mark : ClientKey × Cursor) (envelope : ServerEnvelope M) : Bool :=
  mark.1 = envelope.key ∧ envelope.cursor ≤ mark.2

abbrev OutboundLog (M : Type) := List (Entry (ServerEnvelope M) (ClientKey × Cursor))

inductive Outbound (M : Type) where
  | send (queued : QueuedServerEnvelope M)
  | receive (envelope : ClientEnvelope)

/-- The acknowledgement that an envelope from a client carries. -/
def ackedMark (envelope : ClientEnvelope) : Option (ClientKey × Cursor) :=
  match envelope.event, envelope.seqId, envelope.streamId with
  | .ack segmentId, some seqId, some streamId =>
    some ((envelope.clientId, streamId), ackedCursor seqId segmentId)
  | _, _, _ => none

variable (codec : ServerCodec M)

/-- A step of the outbound side, with what it inserts or acknowledges. -/
def OutboundState.step (s : OutboundState M) : Outbound M → Option (OutboundState M × OutboundLog M)
  | .send queued =>
    let p := s.send codec queued
    some (p.1, p.2.map fun sent => .put sent.1)
  | .receive envelope =>
    (s.acknowledge envelope).map fun t => (t, (ackedMark envelope).toList.map .ack)

def OutboundState.run (codec : ServerCodec M) :
    OutboundState M → List (Outbound M) → Option (OutboundState M × OutboundLog M)
  | s, [] => some (s, [])
  | s, event :: rest => do
    let (t, log) ← s.step codec event
    let (u, log') ← t.run codec rest
    return (u, log ++ log')

namespace BoundedOutboundBuffer
variable (b : BoundedOutboundBuffer M) (envelope : ServerEnvelope M)

theorem stream_insert (key : ClientKey) : (b.insert envelope).stream key =
      b.stream key ++ [envelope].filter fun e => decide (e.key = key) := by
  by_cases hkey : key = envelope.key
  · subst hkey
    simp [stream, insert]
  · simp [stream, insert, AList.lookup_insert_ne hkey, Ne.symm hkey]

theorem length_serverEnvelopes : b.serverEnvelopes.length = total length b.bufferByStream := by
  rw [serverEnvelopes, length_flatMap]
  rfl

theorem length_serverEnvelopes_eq (key : ClientKey) : b.serverEnvelopes.length =
      (b.stream key).length + total length (b.bufferByStream.erase key) := by
  rw [length_serverEnvelopes, total_erase length b.bufferByStream key, stream]
  cases b.bufferByStream.lookup key <;> rfl

theorem length_serverEnvelopes_insert :
    (b.insert envelope).serverEnvelopes.length = b.serverEnvelopes.length + 1 := by
  rw [length_serverEnvelopes, insert, total_insert,
    length_serverEnvelopes_eq b envelope.key, length_append, length_singleton]
  omega

/-- Retaining succeeds if the counter counts at least the envelopes of the buffer. -/
theorem retain_eq (acked : Cursor) (buffer : List (ServerEnvelope M)) (n : ℕ) :
    retain acked buffer (buffer.length + n) =
      some (buffer.filter fun e => !decide (e.cursor ≤ acked),
        (buffer.filter fun e => !decide (e.cursor ≤ acked)).length + n) := by
  induction buffer generalizing n with
  | nil => rfl
  | cons envelope rest ih =>
    by_cases h : envelope.cursor ≤ acked
    · have hcount : (envelope :: rest).length + n = rest.length + n + 1 := by
        rw [length_cons]
        omega
      rw [hcount, filter_cons_of_neg (by simpa using h)]
      simp only [retain, if_pos h]
      exact ih n
    · have hcount : (envelope :: rest).length + n = rest.length + (n + 1) := by
        rw [length_cons]
        omega
      rw [hcount, filter_cons_of_pos (by simpa using h)]
      simp only [retain, if_neg h, ih, map_some, length_cons, Option.some.injEq,
        Prod.mk.injEq, true_and]
      omega

variable {b}

/-- An acknowledgement never takes the counter below zero, and removes what it covers. -/
theorem ack_eq (h : b.used = b.serverEnvelopes.length) (key : ClientKey) (seqId : ℕ)
    (segmentId : Option ℕ) :
    ∃ b', b.ack key seqId segmentId = some b' ∧ b'.used = b'.serverEnvelopes.length ∧
      ∀ k, b'.stream k =
        (b.stream k).filter fun e => !decide (key = k ∧ e.cursor ≤ ackedCursor seqId segmentId) := by
  cases hl : b.bufferByStream.lookup key with
  | none =>
    refine ⟨b, by rw [ack, hl], h, fun k => ?_⟩
    by_cases hk : key = k
    · subst hk
      simp [stream, hl]
    · simp [hk]
  | some buffer =>
    have hbuffer : b.stream key = buffer := by rw [stream, hl, getD_some]
    have hused : b.used = buffer.length + total length (b.bufferByStream.erase key) := by
      rw [h, length_serverEnvelopes_eq b key, hbuffer]
    generalize hkept : buffer.filter (fun e => !decide (e.cursor ≤ ackedCursor seqId segmentId)) =
      kept
    have hstream : ∀ b' : BoundedOutboundBuffer M, b'.stream key = kept →
        (∀ k, k ≠ key → b'.stream k = b.stream k) → ∀ k, b'.stream k =
          (b.stream k).filter fun e =>
            !decide (key = k ∧ e.cursor ≤ ackedCursor seqId segmentId) := by
      intro b' hself hother k
      by_cases hk : key = k
      · subst hk
        simp only [hself, hbuffer, true_and, hkept]
      · simp [hother k (Ne.symm hk), hk]
    simp only [ack, hl, hused, retain_eq, hkept, map_some]
    split_ifs with hempty
    · refine ⟨_, rfl, ?_, hstream _ ?_ fun k hk => ?_⟩
      · rw [length_serverEnvelopes, hempty, length_nil, Nat.zero_add]
      · simp [stream, hempty]
      · simp [stream, AList.lookup_erase_ne hk]
    · refine ⟨_, rfl, ?_, hstream _ ?_ fun k hk => ?_⟩
      · rw [length_serverEnvelopes, total_insert]
      · simp [stream]
      · simp [stream, AList.lookup_insert_ne hk]

/-- The buffer against a log of what was inserted and acknowledged. -/
structure Retained (b : BoundedOutboundBuffer M) (log : OutboundLog M) : Prop where
  used : b.used = b.serverEnvelopes.length
  stream : ∀ key, b.stream key = (pending acknowledges log).filter fun e => decide (e.key = key)

variable {log : OutboundLog M}

theorem Retained.insert (h : b.Retained log) (envelope : ServerEnvelope M) :
    (b.insert envelope).Retained (log ++ [.put envelope]) where
  used := by
    rw [length_serverEnvelopes_insert, ← h.used]
    rfl
  stream key := by rw [stream_insert, h.stream key, pending_concat_put, filter_append]

theorem Retained.ack (h : b.Retained log) (key : ClientKey) (seqId : ℕ) (segmentId : Option ℕ) :
    ∃ b', b.ack key seqId segmentId = some b' ∧
      b'.Retained (log ++ [.ack (key, ackedCursor seqId segmentId)]) := by
  obtain ⟨b', hb', hused, hstream⟩ := ack_eq h.used key seqId segmentId
  refine ⟨b', hb', hused, fun k => ?_⟩
  rw [hstream, h.stream, pending_concat_ack, List.filter_filter, List.filter_filter]
  apply List.filter_congr
  intro e _
  by_cases hk : e.key = k
  · simp [hk, acknowledges]
  · simp [hk]

theorem Retained.bufferEnvelopes (codec : ServerCodec M) (h : b.Retained log)
    (envelopes : List (ServerEnvelope M)) :
    (bufferEnvelopes codec b envelopes).1.Retained
      (log ++ (bufferEnvelopes codec b envelopes).2.map fun sent => .put sent.1) := by
  induction envelopes generalizing b log with
  | nil => simpa [AppServerTransport.bufferEnvelopes] using h
  | cons envelope rest ih =>
    rw [AppServerTransport.bufferEnvelopes]
    split
    · exact ih h
    · have hrest := ih (h.insert envelope)
      rw [append_assoc] at hrest
      exact hrest

end BoundedOutboundBuffer

namespace OutboundState
variable {s : OutboundState M} {log : OutboundLog M}

theorem retained_step (h : s.outboundBuffer.Retained log) (event : Outbound M) :
    ∃ t new, s.step codec event = some (t, new) ∧ t.outboundBuffer.Retained (log ++ new) := by
  cases event with
  | send queued =>
    refine ⟨_, _, rfl, ?_⟩
    simp only [send]
    split
    · simpa using h
    · exact h.bufferEnvelopes codec _
  | receive envelope =>
    simp only [step, acknowledge]
    split
    · rename_i segmentId seqId streamId hevent hseq hstream
      obtain ⟨b', hb', hretained⟩ := h.ack (envelope.clientId, streamId) seqId segmentId
      simp only [ackedMark, hevent, hseq, hstream, hb']
      exact ⟨_, _, rfl, hretained⟩
    · rename_i hnone
      have hmark : ackedMark envelope = none := by
        unfold ackedMark
        split
        · rename_i hevent hseq hstream
          exact absurd hstream (hnone _ _ _ hevent hseq)
        · rfl
      exact ⟨s, [], by rw [hmark]; rfl, by simpa using h⟩

theorem retained_run (h : s.outboundBuffer.Retained log) (events : List (Outbound M)) :
    ∃ t new, s.run codec events = some (t, new) ∧ t.outboundBuffer.Retained (log ++ new) := by
  induction events generalizing s log with
  | nil => exact ⟨s, [], rfl, by simpa using h⟩
  | cons event rest ih =>
    obtain ⟨t, new, hstep, ht⟩ := retained_step codec h event
    obtain ⟨u, more, hrun, hu⟩ := ih ht
    refine ⟨u, new ++ more, ?_, by rwa [append_assoc] at hu⟩
    simp only [run, hstep, hrun, bind_eq_bind, bind_some]
    rfl

end OutboundState

end CodexRs.AppServerTransport
