import CodexRs.AppServerTransport.SegmentFrame

/-!
# Delivery of messages in chunks

As long as the chunks arrive in order, the assembly holds the bytes of the pieces that have
arrived. Between them there may be envelopes of other clients and late chunks.
-/
namespace CodexRs.AppServerTransport
open Text Base64 List

/-- A message cut into pieces within the limits. -/
structure SegmentedMessage (codec : Codec) where
  clientId : ClientId
  streamId : StreamId
  seqId : ℕ
  pieces : List Str
  decoded : List (List UInt8)
  message : JSONRPCMessage
  decodes : List.Forall₂ (fun piece bytes => codec.engine.decode piece = some bytes) pieces decoded
  nonempty : ∀ piece ∈ pieces, piece ≠ []
  count_pos : 0 < pieces.length
  count_le : pieces.length ≤ segmentCountMax
  size_pos : 0 < decoded.flatten.length
  size_le : decoded.flatten.length ≤ reassembledMaxBytes
  parses : codec.fromSlice decoded.flatten = some message

namespace SegmentedMessage
variable {codec : Codec} (m : SegmentedMessage codec)

def metadata : ClientSegmentMetadata := ⟨m.seqId, m.pieces.length, m.decoded.flatten.length⟩

/-- The envelope of a chunk. -/
def chunk (k : ℕ) (cursor : Option Str) : ClientEnvelope :=
  ⟨.clientMessageChunk k m.pieces.length m.decoded.flatten.length (m.pieces[k]?.getD []),
    m.clientId, some m.streamId, some m.seqId, cursor⟩

/-- What is forwarded when the last chunk has arrived. -/
def whole (cursor : Option Str) : ClientEnvelope :=
  ⟨.clientMessage m.message, m.clientId, some m.streamId, some m.seqId, cursor⟩

/-- The assembly after the first `k` chunks. -/
def assembled (k now : ℕ) : ClientSegmentAssembly :=
  ⟨m.streamId, m.metadata, (m.decoded.take k).flatten, k, now⟩

variable {m} {k : ℕ}

theorem length_decoded : m.decoded.length = m.pieces.length := m.decodes.length_eq.symm

theorem decode_piece (hk : k < m.pieces.length) : ∃ bytes, m.decoded[k]? = some bytes ∧
      codec.engine.decode (m.pieces[k]?.getD []) = some bytes := by
  have hk' : k < m.decoded.length := by
    rw [length_decoded]
    exact hk
  have hdecode := (forall₂_iff_get.mp m.decodes).2 k hk hk'
  refine ⟨m.decoded[k], getElem?_eq_getElem hk', ?_⟩
  rw [getElem?_eq_getElem hk]
  exact hdecode

theorem flatten_take_succ {bytes : List UInt8} (h : m.decoded[k]? = some bytes) :
    (m.decoded.take (k + 1)).flatten = (m.decoded.take k).flatten ++ bytes := by
  rw [take_add_one, h]
  simp

theorem length_flatten_take_le (k : ℕ) :
    (m.decoded.take k).flatten.length ≤ m.decoded.flatten.length := by
  have hsplit : m.decoded.flatten = (m.decoded.take k).flatten ++ (m.decoded.drop k).flatten := by
    rw [← flatten_append, take_append_drop]
  rw [hsplit, length_append]
  exact Nat.le_add_right _ _

/-- The next chunk is decoded into the space that is left. -/
theorem decodeSlice_piece (hengine : codec.engine.Lawful) (hk : k < m.pieces.length) :
    ∃ bytes, (m.decoded.take (k + 1)).flatten = (m.decoded.take k).flatten ++ bytes ∧
      codec.engine.decodeSlice (m.pieces[k]?.getD [])
        (min m.decoded.flatten.length ((m.decoded.take k).flatten.length +
          codec.engine.decodedLenEstimate (utf8Length (m.pieces[k]?.getD []))) -
            (m.decoded.take k).flatten.length) = .ok bytes := by
  obtain ⟨bytes, hbytes, hdecode⟩ := decode_piece hk
  have htake := flatten_take_succ hbytes
  refine ⟨bytes, htake, hengine.fits _ _ _ hdecode ?_⟩
  have hestimate := hengine.estimate _ _ hdecode
  have htotal := length_flatten_take_le (m := m) (k + 1)
  rw [htake, length_append] at htotal
  omega

theorem appendChunk_assembled (hengine : codec.engine.Lawful) (hk : k < m.pieces.length)
    (before now : ℕ) :
    appendChunk codec (m.assembled k before) (m.pieces[k]?.getD []) now =
      if k + 1 < m.pieces.length then (.pending, m.assembled (k + 1) now)
      else (.complete m.message, m.assembled (k + 1) now) := by
  obtain ⟨bytes, htake, hslice⟩ := decodeSlice_piece hengine hk
  simp only [appendChunk, assembled, metadata, hslice, ← htake]
  split_ifs with hlt hlen
  · rfl
  · exfalso
    apply hlen
    rw [take_of_length_le (by rw [length_decoded]; omega)]
  · rw [take_of_length_le (by rw [length_decoded]; omega), m.parses]

end SegmentedMessage

open Machine Assemblies WebsocketState

namespace SegmentedMessage
variable {codec : Codec} {m : SegmentedMessage codec} {s : WebsocketState} {k : ℕ}

/-- No chunk of the message is taken for one of a completed message. -/
def Unfinished (m : SegmentedMessage codec) (s : WebsocketState) : Prop :=
  ∀ q, s.lastCompleted.lookup (m.clientId, some m.streamId) = some q → q < m.seqId

/-- The state in which the chunk `k` is the next one. -/
structure Ready (m : SegmentedMessage codec) (k : ℕ) (s : WebsocketState) : Prop where
  unfinished : m.Unfinished s
  assembly : (k = 0 ∧ ∀ a, s.assemblies.lookup m.clientId = some a → a.streamId ≠ m.streamId) ∨
    ∃ before, s.assemblies.lookup m.clientId = some (m.assembled k before)

theorem invalidChunk_eq_false (hk : k < m.pieces.length) :
    invalidChunk k m.pieces.length m.decoded.flatten.length (m.pieces[k]?.getD []) = false := by
  have hpiece : m.pieces[k]?.getD [] ≠ [] := by
    rw [List.getElem?_eq_getElem hk]
    exact m.nonempty _ (List.getElem_mem hk)
  have hcount := m.count_le
  have hpos := m.size_pos
  have hsize := m.size_le
  simp only [invalidChunk, decide_eq_false_iff_not]
  rintro (h | h | h | h | h | h) <;> first | omega | exact hpiece h

variable {wireSizeBytes : ℕ}

/-- A chunk that is not ignored updates the assembly of its stream. -/
theorem observe_chunk (hunfinished : m.Unfinished s) (hk : k < m.pieces.length)
    (hnew : s.assemblies.shouldIgnoreChunk m.clientId m.streamId m.seqId k = false)
    (hwire : wireSizeBytes ≤ segmentMaxBytes) {now : ℕ} {a : ClientSegmentAssembly}
    (ha : (s.assemblies.prepare m.clientId m.streamId m.metadata now).lookup m.clientId = some a)
    (cursor : Option Str) :
    let p := finishUpdate (s.assemblies.prepare m.clientId m.streamId m.metadata now)
      (m.chunk k cursor) m.streamId
      (updateAssembly codec a m.metadata k (m.pieces[k]?.getD []) now)
    s.observeClientMessage codec (m.chunk k cursor) wireSizeBytes now =
      (p.1, recordCompletion { s with assemblies := p.2 } (m.chunk k cursor) p.1) := by
  have hcompleted : s.isCompleted (m.chunk k cursor) = false := by
    simp only [isCompleted, clientMessageKey, chunk, Option.any_some]
    cases hq : s.lastCompleted.lookup (m.clientId, some m.streamId) with
    | none => rfl
    | some q =>
      have hlt := hunfinished q hq
      simp only [Option.any_some, decide_eq_false_iff_not]
      omega
  have hignore : s.shouldIgnore (m.chunk k cursor) = false := hnew
  have hsize : ¬ ((clientMessageKey (m.chunk k cursor)).isSome ∧
      segmentMaxBytes < wireSizeBytes) := fun h => absurd h.2 (by omega)
  have hobserve : s.assemblies.observe codec (m.chunk k cursor) now =
      finishUpdate (s.assemblies.prepare m.clientId m.streamId m.metadata now) (m.chunk k cursor)
        m.streamId (updateAssembly codec a m.metadata k (m.pieces[k]?.getD []) now) := by
    have hchunk := @observeChunk_eq codec m.streamId s.assemblies (m.chunk k cursor) m.metadata now
      a ha k (m.pieces[k]?.getD [])
    rw [show (m.chunk k cursor).clientId = m.clientId from rfl] at hchunk
    rw [← hchunk]
    simp only [observe, chunk, hnew, invalidChunk_eq_false hk]
    rfl
  rw [observeClientMessage, hcompleted, hignore, if_neg Bool.false_ne_true,
    if_neg Bool.false_ne_true, if_neg hsize, hobserve]

theorem updateAssembly_assembled (k before now : ℕ) (piece : Str) :
    updateAssembly codec (m.assembled k before) m.metadata k piece now =
      appendChunk codec (m.assembled k before) piece now := by
  simp [updateAssembly, assembled]

theorem Ready.shouldIgnoreChunk (h : m.Ready k s) :
    s.assemblies.shouldIgnoreChunk m.clientId m.streamId m.seqId k = false := by
  unfold Assemblies.shouldIgnoreChunk
  rcases h.assembly with ⟨rfl, hnone⟩ | ⟨before, hl⟩
  · cases hl : s.assemblies.lookup m.clientId with
    | none => rfl
    | some a => simp [hnone a hl]
  · simp [hl, assembled, metadata]

theorem Ready.prepare (h : m.Ready k s) (now : ℕ) :
    ∃ before, (s.assemblies.prepare m.clientId m.streamId m.metadata now).lookup m.clientId =
      some (m.assembled k before) := by
  rcases lookup_prepare_self s.assemblies m.clientId m.streamId m.metadata now with
    ⟨a, hold, hstream, hl⟩ | ⟨hnone, hl⟩
  · rcases h.assembly with ⟨-, hother⟩ | ⟨before, hassembled⟩
    · exact absurd hstream (hother a hold)
    · rw [hassembled] at hold
      exact ⟨before, by rw [hl, hold]⟩
  · rcases h.assembly with ⟨rfl, -⟩ | ⟨before, hassembled⟩
    · exact ⟨now, hl⟩
    · exact absurd rfl (hnone _ hassembled)

theorem Ready.observe_chunk (hengine : codec.engine.Lawful) (h : m.Ready k s)
    (hk : k < m.pieces.length) (hwire : wireSizeBytes ≤ segmentMaxBytes)
    (cursor : Option Str) (now : ℕ) :
    let p := finishUpdate (s.assemblies.prepare m.clientId m.streamId m.metadata now)
      (m.chunk k cursor) m.streamId
      (if k + 1 < m.pieces.length then (.pending, m.assembled (k + 1) now)
        else (.complete m.message, m.assembled (k + 1) now))
    s.observeClientMessage codec (m.chunk k cursor) wireSizeBytes now =
      (p.1, recordCompletion { s with assemblies := p.2 } (m.chunk k cursor) p.1) := by
  obtain ⟨before, ha⟩ := h.prepare now
  rw [SegmentedMessage.observe_chunk h.unfinished hk h.shouldIgnoreChunk hwire ha,
    updateAssembly_assembled, appendChunk_assembled hengine hk]

theorem Ready.chunk (hengine : codec.engine.Lawful) (h : m.Ready k s)
    (hk : k + 1 < m.pieces.length) (hwire : wireSizeBytes ≤ segmentMaxBytes)
    (cursor : Option Str) (now : ℕ) :
    m.Ready (k + 1) (s.observeClientMessage codec (m.chunk k cursor) wireSizeBytes now).2 := by
  rw [h.observe_chunk hengine (Nat.lt_of_succ_lt hk) hwire, if_pos hk]
  exact ⟨h.unfinished, .inr ⟨now, AList.lookup_insert _⟩⟩

theorem Ready.last_chunk (hengine : codec.engine.Lawful) (h : m.Ready k s)
    (hk : k + 1 = m.pieces.length) (hwire : wireSizeBytes ≤ segmentMaxBytes)
    (cursor : Option Str) (now : ℕ) :
    (s.observeClientMessage codec (m.chunk k cursor) wireSizeBytes now).1 =
      .forward (m.whole cursor) := by
  rw [h.observe_chunk hengine (by omega) hwire, if_neg (by omega)]
  rfl

/-- Fewer than 128 clients other than the message's are assembling, the sender included. -/
def Uncrowded (m : SegmentedMessage codec) (s : WebsocketState) (sender : ClientId) : Prop :=
  (s.assemblies.keys.filter fun c => c ≠ m.clientId ∧ c ≠ sender).length + 1 <
    segmentAssemblyMaxCount

theorem room_of_uncrowded {sender : ClientId} (h : m.Uncrowded s sender) :
    s.assemblies.Room sender := by
  by_cases hsender : sender ∈ s.assemblies.keys
  · exact .inr (AList.lookup_isSome.mpr (AList.mem_keys.mpr hsender))
  · have hfilter : (s.assemblies.keys.filter fun c => c ≠ m.clientId ∧ c ≠ sender) =
        s.assemblies.keys.erase m.clientId := by
      rw [(AList.keys_nodup s.assemblies).erase_eq_filter]
      apply List.filter_congr
      intro c hc
      have hne : c ≠ sender := fun heq => hsender (heq ▸ hc)
      by_cases hown : c = m.clientId <;> simp [hown, hne]
    have hlength : s.assemblies.keys.length ≤ (s.assemblies.keys.erase m.clientId).length + 1 := by
      rw [List.length_erase]
      split_ifs <;> omega
    rw [Uncrowded, hfilter] at h
    exact .inl (lt_of_le_of_lt hlength h)

variable {envelope : ClientEnvelope}

theorem lookup_recordCompletion_of_ne
    (hclient : envelope.clientId ≠ m.clientId) (observation : ClientSegmentObservation) :
    (s.recordCompletion envelope observation).lastCompleted.lookup (m.clientId, some m.streamId) =
      s.lastCompleted.lookup (m.clientId, some m.streamId) := by
  unfold recordCompletion
  split
  · rename_i key seqId hkey
    apply AList.lookup_insert_ne
    rintro rfl
    exact hclient (StoredBelow.isChunkOf_of_key hkey).1
  · rfl

/-- Envelopes of other clients leave the assembly of the message alone. -/
theorem observe_other (hclient : envelope.clientId ≠ m.clientId)
    (hcrowd : m.Uncrowded s envelope.clientId) (wireSizeBytes now : ℕ) :
    let t := (s.observeClientMessage codec envelope wireSizeBytes now).2
    t.lastCompleted.lookup (m.clientId, some m.streamId) =
        s.lastCompleted.lookup (m.clientId, some m.streamId) ∧
      t.assemblies.lookup m.clientId = s.assemblies.lookup m.clientId := by
  simp only [observeClientMessage]
  split_ifs
  · exact ⟨rfl, rfl⟩
  · exact ⟨rfl, rfl⟩
  · split
    · exact ⟨rfl, lookup_removeAssembly_of_ne (Ne.symm hclient)⟩
    · exact ⟨rfl, rfl⟩
  · refine ⟨lookup_recordCompletion_of_ne hclient _, ?_⟩
    have hframe : (s.assemblies.observe codec envelope now).2.lookup m.clientId =
        s.assemblies.lookup m.clientId :=
      lookup_observe_of_room codec (Ne.symm hclient) (room_of_uncrowded hcrowd)
    unfold recordCompletion
    split <;> exact hframe

/-- An older chunk of the stream, or one that has been seen. -/
def Late (m : SegmentedMessage codec) (k : ℕ) (envelope : ClientEnvelope) : Prop :=
  envelope.clientId = m.clientId ∧ envelope.streamId = some m.streamId ∧
    ∃ i count size chunk seqId, envelope.event = .clientMessageChunk i count size chunk ∧
      envelope.seqId = some seqId ∧ (seqId < m.seqId ∨ seqId = m.seqId ∧ i < k)

theorem observe_late (hlate : m.Late k envelope) {before : ℕ}
    (hl : s.assemblies.lookup m.clientId = some (m.assembled k before)) (wireSizeBytes now : ℕ) :
    (s.observeClientMessage codec envelope wireSizeBytes now).2 = s := by
  obtain ⟨event, clientId, streamId, seq, cursor⟩ := envelope
  obtain ⟨hclient, hstream, i, count, size, chunk, seqId, hevent, hseq, hold⟩ := hlate
  subst hclient hstream hevent hseq
  have hignore : s.shouldIgnore
      ⟨.clientMessageChunk i count size chunk, m.clientId, some m.streamId, some seqId, cursor⟩ =
        true := by
    simp only [shouldIgnore, shouldIgnoreChunk, hl, assembled, Option.any_some, decide_eq_true_eq,
      true_and]
    exact hold
  rw [observeClientMessage, hignore, if_pos rfl]
  split_ifs <;> rfl

inductive Arrival where
  | own (cursor : Option Str) (wireSizeBytes now : ℕ)
  | other (envelope : ClientEnvelope) (wireSizeBytes now : ℕ)

/-- The chunks of the message arrive in order, between other envelopes, and are counted. -/
inductive Arrives (m : SegmentedMessage codec) :
    WebsocketState × ℕ → Arrival → WebsocketState × ℕ → Prop
  | own {s : WebsocketState} {k : ℕ} (cursor : Option Str) {wireSizeBytes : ℕ} (now : ℕ) :
      k < m.pieces.length → wireSizeBytes ≤ segmentMaxBytes →
      Arrives m (s, k) (.own cursor wireSizeBytes now)
        ((s.observeClientMessage codec (m.chunk k cursor) wireSizeBytes now).2, k + 1)
  | other {s : WebsocketState} {k : ℕ} {envelope : ClientEnvelope} (wireSizeBytes now : ℕ) :
      envelope.clientId ≠ m.clientId → m.Uncrowded s envelope.clientId →
      Arrives m (s, k) (.other envelope wireSizeBytes now)
        ((s.observeClientMessage codec envelope wireSizeBytes now).2, k)
  | late {s : WebsocketState} {k : ℕ} {envelope : ClientEnvelope} (wireSizeBytes now : ℕ) :
      m.Late k envelope → Arrives m (s, k) (.other envelope wireSizeBytes now)
        ((s.observeClientMessage codec envelope wireSizeBytes now).2, k)

variable {p q : WebsocketState × ℕ}

theorem Arrives.mono {a : Arrival} (h : Arrives m p a q) : p.2 ≤ q.2 := by
  cases h with
  | own => exact Nat.le_succ _
  | other => exact le_rfl
  | late => exact le_rfl

variable {arrivals : List Arrival}

theorem run_mono (h : Run (Arrives m) p arrivals q) : p.2 ≤ q.2 := by
  induction h with
  | nil => exact le_rfl
  | cons hstep _ ih => exact hstep.mono.trans ih

theorem Ready.arrives (hengine : codec.engine.Lawful) {a : Arrival}
    (h : m.Ready p.2 p.1) (hpos : 0 < p.2) (hq : q.2 < m.pieces.length)
    (hstep : Arrives m p a q) : m.Ready q.2 q.1 := by
  obtain ⟨before, hl⟩ := h.assembly.resolve_left fun h0 => hpos.ne' h0.1
  cases hstep with
  | own cursor now hk hwire => exact h.chunk hengine hq hwire cursor now
  | other wireSizeBytes now hclient hcrowd =>
    obtain ⟨hcompleted, hassembly⟩ := observe_other hclient hcrowd wireSizeBytes now
    refine ⟨fun seqId hseq => h.unfinished seqId ?_, .inr ⟨before, hassembly.trans hl⟩⟩
    rwa [hcompleted] at hseq
  | late wireSizeBytes now hlate =>
    rw [observe_late hlate hl]
    exact h

theorem Ready.run (hengine : codec.engine.Lawful)
    (hrun : Run (Arrives m) p arrivals q) (h : m.Ready p.2 p.1)
    (hpos : 0 < p.2) (hq : q.2 < m.pieces.length) : m.Ready q.2 q.1 := by
  induction hrun with
  | nil => exact h
  | cons hstep hrest ih =>
    have hle := run_mono hrest
    exact ih (h.arrives hengine hpos (lt_of_le_of_lt hle hq) hstep) (hpos.trans_le hstep.mono) hq

end SegmentedMessage

end CodexRs.AppServerTransport
