import CodexRs.AppServerTransport.OutboundRetained

/-!
# The order of what is kept for the clients

Splitting keeps the address and the sequence id of an envelope, and numbers the segments upwards.
What is kept of a stream is in the order of its numbers, as long as there are numbers left.
-/
namespace CodexRs.AppServerTransport
open Text Outbox BoundedOutboundBuffer List Option OutboundState

section
variable {M : Type} {codec : ServerCodec M} {envelope : ServerEnvelope M}

/-- Envelopes for one message, in the order of their segments. -/
structure Segmentation (envelope : ServerEnvelope M) (envelopes : List (ServerEnvelope M)) :
    Prop where
  key : ∀ e ∈ envelopes, e.key = envelope.key
  seqId : ∀ e ∈ envelopes, e.seqId = envelope.seqId
  ascending : envelopes.Pairwise fun e e' => e.cursor < e'.cursor

theorem Segmentation.nil : Segmentation envelope [] where
  key _ h := by cases h
  seqId _ h := by cases h
  ascending := .nil

theorem Segmentation.self : Segmentation envelope [envelope] where
  key e h := by rw [List.mem_singleton.mp h]
  seqId e h := by rw [List.mem_singleton.mp h]
  ascending := List.pairwise_singleton _ _

theorem cursor_lt_of_segment_lt {e e' : ServerEnvelope M} (hseq : e.seqId = e'.seqId)
    (hsegment : e.event.segmentId.getD 0 < e'.event.segmentId.getD 0) : e.cursor < e'.cursor := by
  rw [ServerEnvelope.cursor, ServerEnvelope.cursor, Prod.Lex.toLex_lt_toLex]
  exact .inr ⟨hseq, hsegment⟩

theorem buildChunkEnvelope_eq {segmentId segmentCount messageSizeBytes : ℕ} {chunk : List UInt8}
    {e : ServerEnvelope M}
    (h : buildChunkEnvelope codec envelope segmentId segmentCount messageSizeBytes chunk = .ok e) :
    e.key = envelope.key ∧ e.seqId = envelope.seqId ∧ e.event.segmentId = some segmentId := by
  unfold buildChunkEnvelope at h
  split_ifs at h
  cases h
  exact ⟨rfl, rfl, rfl⟩

variable {envelopes : List (ServerEnvelope M)}

/-- The chunks from the `n`-th one on. -/
theorem segmentation_mapM {segmentCount messageSizeBytes n : ℕ} {pieces : List (List UInt8)}
    (h : (pieces.zipIdx n).mapM (fun p =>
      buildChunkEnvelope codec envelope p.2 segmentCount messageSizeBytes p.1) = .ok envelopes) :
    Segmentation envelope envelopes ∧ ∀ e ∈ envelopes, n ≤ e.event.segmentId.getD 0 := by
  induction pieces generalizing n envelopes with
  | nil =>
    cases h
    exact ⟨.nil, fun e he => by cases he⟩
  | cons piece pieces ih =>
    rw [List.zipIdx_cons, List.mapM_cons] at h
    cases hfirst : buildChunkEnvelope codec envelope n segmentCount messageSizeBytes piece with
    | error => rw [hfirst] at h; cases h
    | ok first =>
      cases hrest : (pieces.zipIdx (n + 1)).mapM (fun p =>
        buildChunkEnvelope codec envelope p.2 segmentCount messageSizeBytes p.1) with
      | error => rw [hfirst, hrest] at h; cases h
      | ok rest =>
        rw [hfirst, hrest] at h
        cases h
        obtain ⟨hkey, hseq, hsegment⟩ := buildChunkEnvelope_eq hfirst
        obtain ⟨hsegments, hlater⟩ := ih hrest
        refine ⟨⟨?_, ?_, ?_⟩, ?_⟩
        · rintro e (_ | ⟨_, he⟩)
          exacts [hkey, hsegments.key e he]
        · rintro e (_ | ⟨_, he⟩)
          exacts [hseq, hsegments.seqId e he]
        · refine List.pairwise_cons.mpr ⟨fun e he => ?_, hsegments.ascending⟩
          apply cursor_lt_of_segment_lt (hseq.trans (hsegments.seqId e he).symm)
          rw [hsegment]
          exact hlater e he
        · rintro e (_ | ⟨_, he⟩)
          · rw [hsegment]
            exact le_rfl
          · exact (Nat.le_succ n).trans (hlater e he)

theorem segmentation_splitRaw {raw : List UInt8} {fuel requested : ℕ}
    (h : splitRaw codec envelope raw fuel requested = .ok envelopes) :
    Segmentation envelope envelopes := by
  induction fuel generalizing requested with
  | zero =>
    cases h
    exact .nil
  | succ fuel ih =>
    simp only [splitRaw] at h
    split_ifs at h
    · exact (segmentation_mapM h).1
    · cases h
      exact .nil
    · exact ih h
    · exact ih h

theorem segmentation_split (h : splitServerEnvelopeForTransport codec envelope = .ok envelopes) :
    Segmentation envelope envelopes := by
  simp only [splitServerEnvelopeForTransport] at h
  split at h
  · cases hsize : serializedLen codec envelope with
    | error => rw [hsize] at h; cases h
    | ok size =>
      rw [hsize] at h
      simp only [bind, Except.bind] at h
      split_ifs at h
      · cases h
        exact .self
      · split at h
        · cases h
        · rename_i raw _
          split_ifs at h
          · cases h
            exact .nil
          · cases hminimal : serializedChunkLen codec envelope 0
              (min (max raw.length 1) segmentCountMax) raw.length (raw.take 1) with
            | error => rw [hminimal] at h; cases h
            | ok minimalLen =>
              rw [hminimal] at h
              simp only at h
              split_ifs at h
              · cases h
                exact .nil
              · exact segmentation_splitRaw h
  · cases h
    exact .self

end

variable {M : Type} (codec : ServerCodec M)

/-- What is added to a stream when envelopes are buffered. -/
theorem stream_bufferEnvelopes (b : BoundedOutboundBuffer M)
    (envelopes : List (ServerEnvelope M)) (key : ClientKey) :
    (bufferEnvelopes codec b envelopes).1.stream key = b.stream key ++
      (envelopes.filter fun e => (codec.serialize e).isSome).filter fun e => decide (e.key = key) := by
  induction envelopes generalizing b with
  | nil => simp [bufferEnvelopes]
  | cons envelope rest ih =>
    rw [bufferEnvelopes]
    split
    · rename_i hnone
      rw [ih, filter_cons_of_neg (by simp [hnone])]
    · rename_i payload hsome
      have hfilter : (envelope :: rest).filter (fun e => (codec.serialize e).isSome) =
          [envelope] ++ rest.filter fun e => (codec.serialize e).isSome :=
        filter_cons_of_pos (by simp [hsome])
      rw [ih, b.stream_insert, hfilter, filter_append, append_assoc]

/-- The first `k` numbers of the stream have been used, and what is kept is in order. -/
structure Ascending (s : OutboundState M) (key : ClientKey) (k : ℕ) : Prop where
  next : s.nextSeqId key = min (k + 1) u64Max
  seqId_le : ∀ e ∈ s.outboundBuffer.stream key, e.seqId ≤ k
  ascending : (s.outboundBuffer.stream key).Pairwise fun e e' => e.cursor < e'.cursor

namespace Ascending
variable {s t : OutboundState M} {key : ClientKey} {k : ℕ}

theorem cursor_lt_of_seqId_lt {e e' : ServerEnvelope M} (h : e.seqId < e'.seqId) :
    e.cursor < e'.cursor := by
  rw [ServerEnvelope.cursor, ServerEnvelope.cursor, Prod.Lex.toLex_lt_toLex]
  exact .inl h

/-- The numbers and the order survive if envelopes are only removed. -/
theorem sublist (h : Ascending s key k) (hnext : t.nextSeqId key = s.nextSeqId key)
    (hstream : (t.outboundBuffer.stream key).Sublist (s.outboundBuffer.stream key)) :
    Ascending t key k where
  next := hnext.trans h.next
  seqId_le e he := h.seqId_le e (hstream.subset he)
  ascending := h.ascending.sublist hstream

variable {queued : QueuedServerEnvelope M}

theorem send_other (h : Ascending s key k) (hkey : key ≠ queued.key) :
    Ascending (s.send codec queued).1 key k := by
  have hnext : ∀ q, ((s.nextSeqIdByStream.insert queued.key q).lookup key).getD 1 =
      s.nextSeqId key := by
    intro q
    rw [AList.lookup_insert_ne hkey]
    rfl
  simp only [send]
  split
  · refine h.sublist (hnext _) (Sublist.refl _)
  · rename_i envelopes hsplit
    have hsegments := segmentation_split hsplit
    have hnone : (envelopes.filter fun e => (codec.serialize e).isSome).filter
        (fun e => decide (e.key = key)) = [] := by
      apply filter_eq_nil_iff.mpr
      intro e he
      have hown : e.key = queued.key := hsegments.key e (mem_filter.mp he).1
      simpa [hown] using Ne.symm hkey
    refine h.sublist (hnext _) ?_
    rw [stream_bufferEnvelopes, hnone, append_nil]

theorem send_own (h : Ascending s queued.key k) (hk : k + 1 ≤ u64Max) :
    ∃ k' ≤ k + 1, Ascending (s.send codec queued).1 queued.key k' := by
  have hseq : s.nextSeqId queued.key = k + 1 := by rw [h.next, min_eq_left hk]
  have hnext : ∀ q, ((s.nextSeqIdByStream.insert queued.key q).lookup queued.key).getD 1 = q := by
    intro q
    rw [AList.lookup_insert, getD_some]
  simp only [send, hseq]
  split
  · refine ⟨k, Nat.le_succ k, h.sublist ?_ (Sublist.refl _)⟩
    rw [hseq]
    exact hnext _
  · rename_i envelopes hsplit
    have hsegments := segmentation_split hsplit
    have hsub : ((envelopes.filter fun e => (codec.serialize e).isSome).filter
        fun e => decide (e.key = queued.key)).Sublist envelopes :=
      filter_sublist.trans filter_sublist
    refine ⟨k + 1, le_rfl, hnext _, ?_, ?_⟩
    · intro e he
      rw [stream_bufferEnvelopes, mem_append] at he
      rcases he with he | he
      · exact (h.seqId_le e he).trans (Nat.le_succ k)
      · exact (hsegments.seqId e (hsub.subset he)).le
    · rw [stream_bufferEnvelopes, pairwise_append]
      refine ⟨h.ascending, hsegments.ascending.sublist hsub, fun e he e' he' => ?_⟩
      apply cursor_lt_of_seqId_lt
      rw [hsegments.seqId e' (hsub.subset he')]
      exact Nat.lt_succ_of_le (h.seqId_le e he)

theorem acknowledge {log : OutboundLog M} (hretained : s.outboundBuffer.Retained log)
    (h : Ascending s key k) {envelope : ClientEnvelope}
    (hack : s.acknowledge envelope = some t) : Ascending t key k := by
  unfold OutboundState.acknowledge at hack
  split at hack
  · rename_i segmentId seqId streamId _ _ _
    obtain ⟨b', hb', -, hstream⟩ := ack_eq hretained.used
      (envelope.clientId, streamId) seqId segmentId
    rw [hb'] at hack
    cases hack
    refine h.sublist rfl ?_
    rw [hstream]
    exact filter_sublist
  · cases hack
    exact h

end Ascending

def Outbound.sendsTo (key : ClientKey) : Outbound M → Bool
  | .send queued => queued.key = key
  | .receive _ => false

theorem ascending_run {s t : OutboundState M} {log new : OutboundLog M}
    {key : ClientKey} {k : ℕ} {events : List (Outbound M)}
    (hretained : s.outboundBuffer.Retained log) (h : Ascending s key k)
    (hk : k + events.countP (Outbound.sendsTo key) ≤ u64Max)
    (hrun : s.run codec events = some (t, new)) : ∃ k', Ascending t key k' := by
  induction events generalizing s log new k with
  | nil =>
    cases hrun
    exact ⟨k, h⟩
  | cons event rest ih =>
    obtain ⟨u, logged, hstep, hu⟩ := retained_step codec hretained event
    obtain ⟨t', more, hrest, -⟩ := retained_run codec hu rest
    simp only [run, hstep, hrest, bind_eq_bind, bind_some] at hrun
    cases hrun
    rw [countP_cons] at hk
    cases event with
    | send queued =>
      cases hstep
      by_cases hkey : key = queued.key
      · subst hkey
        rw [if_pos (by simp [Outbound.sendsTo])] at hk
        obtain ⟨k', hle, hsent⟩ := h.send_own codec (by omega)
        exact ih hu hsent (by omega) hrest
      · exact ih hu (h.send_other codec hkey) (by omega) hrest
    | receive envelope =>
      rw [step, map_eq_some_iff] at hstep
      obtain ⟨u', hack, heq⟩ := hstep
      cases heq
      exact ih hu (h.acknowledge hretained hack) (by omega) hrest

/-- The counter counts what is kept, and each stream keeps what was not acknowledged since, in order
unless there are more messages than sequence ids. -/
theorem outbound_retained (codec : ServerCodec M) (events : List (Outbound M)) :
    ∃ s log, OutboundState.run codec {} events = some (s, log) ∧
      s.outboundBuffer.used = s.outboundBuffer.serverEnvelopes.length ∧
        ∀ key, s.outboundBuffer.stream key =
            (pending acknowledges log).filter (fun e => decide (e.key = key)) ∧
          (events.countP (Outbound.sendsTo key) ≤ u64Max →
            (s.outboundBuffer.stream key).Pairwise fun e e' => e.cursor < e'.cursor) := by
  have hempty : ({} : OutboundState M).outboundBuffer.Retained [] := ⟨rfl, fun _ => rfl⟩
  have hstart : ∀ key, Ascending ({} : OutboundState M) key 0 :=
    fun key => ⟨rfl, fun e he => absurd he not_mem_nil, .nil⟩
  obtain ⟨s, log, hrun, hretained⟩ := retained_run codec hempty events
  refine ⟨s, log, hrun, hretained.used, fun key => ⟨hretained.stream key, fun hcount => ?_⟩⟩
  obtain ⟨k, hk⟩ := ascending_run codec hempty (hstart key) (by simpa using hcount) hrun
  exact hk.ascending

def pongText (seqId : ℕ) : Str :=
  "\x7b\"type\":\"pong\",\"status\":\"active\",\"client_id\":\"phone\",".toList ++
    "\"stream_id\":\"main\",\"seq_id\":".toList ++ (Nat.repr seqId).toList ++ "\x7d".toList

/-- The texts of the pongs to one stream, which is all that is sent there. -/
def pongCodec : ServerCodec Empty where
  messageBytes := nofun
  serialize envelope := some (pongText envelope.seqId)
  encode _ := []

def pongQueued : QueuedServerEnvelope Empty := ⟨.pong .active, "phone".toList, "main".toList⟩

/-- Acknowledges everything that the stream can have. -/
def pongAck : ClientEnvelope := ⟨.ack none, "phone".toList, some "main".toList, some u64Max, none⟩

/-- Pongs that are acknowledged one by one. -/
def rounds (n : ℕ) : List (Outbound Empty) :=
  (replicate n [.send pongQueued, .receive pongAck]).flatten

theorem OutboundState.run_append {codec : ServerCodec M} {s t u : OutboundState M}
    {log log' : OutboundLog M} {events events' : List (Outbound M)}
    (h : s.run codec events = some (t, log)) (h' : t.run codec events' = some (u, log')) :
    s.run codec (events ++ events') = some (u, log ++ log') := by
  induction events generalizing s log with
  | nil =>
    cases h
    exact h'
  | cons event rest ih =>
    simp only [run, bind_eq_bind, bind_eq_some_iff] at h
    obtain ⟨p, hstep, q, hrest, hq⟩ := h
    cases hq
    simp only [cons_append, run, hstep, ih hrest, bind_eq_bind, bind_some, append_assoc]
    rfl

def pongEnvelope (seqId : ℕ) : ServerEnvelope Empty :=
  ⟨.pong .active, "phone".toList, "main".toList, seqId⟩

theorem send_pong (s : OutboundState Empty) : s.send pongCodec pongQueued =
      (⟨s.outboundBuffer.insert (pongEnvelope (s.nextSeqId pongQueued.key)),
        s.nextSeqIdByStream.insert pongQueued.key (min (s.nextSeqId pongQueued.key + 1) u64Max)⟩,
        [(pongEnvelope (s.nextSeqId pongQueued.key), pongText (s.nextSeqId pongQueued.key))]) := rfl

theorem ack_pong {seqId : ℕ} (hle : seqId ≤ u64Max) :
    (new.insert (pongEnvelope seqId)).ack pongQueued.key u64Max none =
      some .new := by
  have hcovered : (pongEnvelope seqId).cursor ≤ ackedCursor u64Max none := by
    rw [ServerEnvelope.cursor, ackedCursor, Prod.Lex.toLex_le_toLex]
    show seqId < u64Max ∨ seqId = u64Max ∧ 0 ≤ usizeMax
    omega
  have hlookup : ((new.insert (pongEnvelope seqId)).bufferByStream).lookup
      pongQueued.key = some [pongEnvelope seqId] := AList.lookup_insert _
  have hretain : retain (ackedCursor u64Max none) [pongEnvelope seqId] 1 =
      some ([], 0) := by
    simp only [retain, if_pos hcovered]
  rw [BoundedOutboundBuffer.ack, hlookup]
  show (retain _ _ 1).map _ = _
  rw [hretain, map_some]
  rfl

theorem run_round {s : OutboundState Empty} (hbuffer : s.outboundBuffer = .new)
    (hle : s.nextSeqId pongQueued.key ≤ u64Max) :
    ∃ t log, s.run pongCodec [.send pongQueued, .receive pongAck] = some (t, log) ∧
      t.outboundBuffer = .new ∧
        t.nextSeqId pongQueued.key = min (s.nextSeqId pongQueued.key + 1) u64Max := by
  have hsent : s.run pongCodec [.send pongQueued] = some
      (⟨new.insert (pongEnvelope (s.nextSeqId pongQueued.key)),
        s.nextSeqIdByStream.insert pongQueued.key (min (s.nextSeqId pongQueued.key + 1) u64Max)⟩,
        [.put (pongEnvelope (s.nextSeqId pongQueued.key))]) := by
    rw [← hbuffer]
    rfl
  have hacked : ∀ b next, b.ack pongQueued.key u64Max none = some .new →
      (OutboundState.mk b next).run pongCodec [.receive pongAck] =
        some (⟨.new, next⟩, [.ack (pongQueued.key, ackedCursor u64Max none)]) := by
    intro b next hb
    have hstep : (mk b next).step pongCodec (.receive pongAck) =
        some (⟨.new, next⟩, [.ack (pongQueued.key, ackedCursor u64Max none)]) := by
      show ((b.ack pongQueued.key u64Max none).map _).map _ = _
      rw [hb]
      rfl
    rw [run, hstep]
    rfl
  refine ⟨_, _, run_append hsent (hacked _ _ (ack_pong hle)), rfl, ?_⟩
  rw [nextSeqId, AList.lookup_insert, getD_some]

theorem run_rounds (n : ℕ) : ∃ s log, run pongCodec {} (rounds n) = some (s, log) ∧
      s.outboundBuffer = .new ∧ s.nextSeqId pongQueued.key = min (n + 1) u64Max := by
  induction n with
  | zero => exact ⟨{}, [], rfl, rfl, rfl⟩
  | succ n ih =>
    obtain ⟨s, log, hrun, hbuffer, hnext⟩ := ih
    obtain ⟨t, log', hround, ht, hnext'⟩ := run_round hbuffer (by omega)
    refine ⟨t, log ++ log', ?_, ht, ?_⟩
    · rw [rounds, replicate_succ', flatten_append]
      exact run_append hrun hround
    · omega

/-- When all sequence ids have been used, the last one is used again. -/
theorem outbound_saturates :
    ∃ s log, OutboundState.run pongCodec {}
        (rounds (u64Max - 1) ++ [.send pongQueued, .send pongQueued]) = some (s, log) ∧
      ¬ (s.outboundBuffer.stream pongQueued.key).Pairwise fun e e' => e.cursor < e'.cursor := by
  obtain ⟨s, log, hrun, hbuffer, hnext⟩ := run_rounds (u64Max - 1)
  have hlast : s.nextSeqId pongQueued.key = u64Max := by
    rw [hnext]
    decide
  -- both envelopes get the last sequence id
  have hstream : ∀ t : OutboundState Empty, t.nextSeqId pongQueued.key = u64Max →
      (t.send pongCodec pongQueued).1.nextSeqId pongQueued.key = u64Max ∧
        (t.send pongCodec pongQueued).1.outboundBuffer.stream pongQueued.key =
          t.outboundBuffer.stream pongQueued.key ++ [pongEnvelope u64Max] := by
    intro t ht
    rw [send_pong, ht]
    constructor
    · rw [nextSeqId, AList.lookup_insert, getD_some]
      decide
    · exact t.outboundBuffer.stream_insert (pongEnvelope u64Max) pongQueued.key
  obtain ⟨hnext₁, hstream₁⟩ := hstream s hlast
  obtain ⟨-, hstream₂⟩ := hstream _ hnext₁
  refine ⟨_, _, run_append hrun rfl, fun hpairwise => ?_⟩
  change ((((s.send pongCodec pongQueued).1.send pongCodec pongQueued).1.outboundBuffer).stream
    pongQueued.key).Pairwise _ at hpairwise
  rw [hstream₂, hstream₁, hbuffer] at hpairwise
  have hlt : (pongEnvelope u64Max).cursor < (pongEnvelope u64Max).cursor :=
    (pairwise_cons.mp hpairwise).1 _ mem_cons_self
  exact lt_irrefl _ hlt

theorem outbound_retained_two_sends :
    ∃ s log, OutboundState.run pongCodec {} [.send pongQueued, .send pongQueued] = some (s, log) ∧
      (s.outboundBuffer.stream pongQueued.key).Pairwise fun e e' => e.cursor < e'.cursor := by
  obtain ⟨s, log, hrun, -, h⟩ := outbound_retained pongCodec [.send pongQueued, .send pongQueued]
  exact ⟨s, log, hrun, (h pongQueued.key).2 (by decide)⟩

end CodexRs.AppServerTransport
