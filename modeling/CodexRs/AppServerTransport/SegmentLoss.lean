import CodexRs.AppServerTransport.SegmentDelivery

/-!
# Messages behind a half-received one

The first chunk of a new message is dropped together with the half-received message.
-/
namespace CodexRs.AppServerTransport
open Text Base64 Machine Assemblies SegmentedMessage

/-- A message of the stream has been received in part. -/
def HalfReceived (s : WebsocketState) (clientId : ClientId) (streamId : StreamId) : Prop :=
  ∃ a, s.assemblies.lookup clientId = some a ∧ a.streamId = streamId

namespace SegmentedMessage
variable {codec : Codec} {m : SegmentedMessage codec} {s : WebsocketState} {k : ℕ}

def Arrival.isOwn : Arrival → Bool
  | .own .. => true
  | .other .. => false

/-- However the chunks arrive, the first of them in the state `s`, the last one is answered with the
message. -/
def Delivers (m : SegmentedMessage codec) (s : WebsocketState) : Prop :=
  ∀ arrivals t cursor wireSizeBytes now,
    Run (Arrives m) (s, 0) arrivals (t, m.pieces.length - 1) →
    (∀ a ∈ arrivals.head?, Arrival.isOwn a = true) → wireSizeBytes ≤ segmentMaxBytes →
    (t.observeClientMessage codec (m.chunk (m.pieces.length - 1) cursor) wireSizeBytes now).1 =
      .forward (m.whole cursor)

theorem delivers_of_ready (hengine : codec.engine.Lawful) (h : m.Ready 0 s) : m.Delivers s := by
  intro arrivals t cursor wireSizeBytes now hrun hfirst hwire
  have hpos := m.count_pos
  generalize hlast : m.pieces.length - 1 = last at hrun ⊢
  cases hrun with
  | nil => exact h.last_chunk hengine (by omega) hwire cursor now
  | cons hstep hrest =>
    have hle := run_mono hrest
    cases hstep with
    | own cursor' now' hk hwire' =>
      have hready := h.chunk hengine (by omega) hwire' cursor' now'
      have hlast := Ready.run hengine hrest hready (by omega) (by omega)
      exact hlast.last_chunk hengine (by omega) hwire cursor now
    | other => cases hfirst _ rfl
    | late => cases hfirst _ rfl

variable {wireSizeBytes : ℕ}

/-- A chunk for which there is no place is dropped, and the assembly with it. -/
theorem observe_drop (hunfinished : m.Unfinished s) (hk : k < m.pieces.length)
    (hnew : s.assemblies.shouldIgnoreChunk m.clientId m.streamId m.seqId k = false)
    (hwire : wireSizeBytes ≤ segmentMaxBytes) {now : ℕ} {a : ClientSegmentAssembly}
    (ha : (s.assemblies.prepare m.clientId m.streamId m.metadata now).lookup m.clientId = some a)
    (hstream : a.streamId = m.streamId)
    (hdrop : updateAssembly codec a m.metadata k (m.pieces[k]?.getD []) now = (.drop, a))
    (cursor : Option Str) :
    ∃ t, s.observeClientMessage codec (m.chunk k cursor) wireSizeBytes now = (.dropped, t) ∧
      m.Unfinished t ∧ t.assemblies.lookup m.clientId = none := by
  rw [observe_chunk hunfinished hk hnew hwire ha, hdrop]
  exact ⟨_, rfl, hunfinished, lookup_removeAssembly_self (AList.lookup_insert _) hstream⟩

theorem first_chunk_dropped (hstored : StoredBelow m.clientId m.streamId m.seqId s)
    (hhalf : HalfReceived s m.clientId m.streamId)
    (hwire : wireSizeBytes ≤ segmentMaxBytes) (cursor : Option Str) (now : ℕ) :
    ∃ t, s.observeClientMessage codec (m.chunk 0 cursor) wireSizeBytes now = (.dropped, t) ∧
      m.Unfinished t ∧ t.assemblies.lookup m.clientId = none := by
  obtain ⟨a, hl, hstream⟩ := hhalf
  have hlt := hstored.assembling a hl hstream
  have hnew : s.assemblies.shouldIgnoreChunk m.clientId m.streamId m.seqId 0 = false := by
    simp only [shouldIgnoreChunk, hl, Option.any_some, decide_eq_false_iff_not]
    omega
  have ha : (s.assemblies.prepare m.clientId m.streamId m.metadata now).lookup m.clientId =
      some a := by
    simp [prepare, hl, hstream]
  have hother : a.metadata ≠ m.metadata := by
    intro heq
    rw [heq] at hlt
    exact lt_irrefl _ hlt
  have hdrop : updateAssembly codec a m.metadata 0 (m.pieces[0]?.getD []) now = (.drop, a) := by
    have hnewer : ¬ m.metadata.seqId < a.metadata.seqId := Nat.not_lt_of_gt hlt
    rw [updateAssembly, if_neg hnewer, if_pos hother]
  exact observe_drop hstored.completed m.count_pos hnew hwire ha hstream hdrop cursor

theorem later_chunk_dropped (hunfinished : m.Unfinished s)
    (hnone : s.assemblies.lookup m.clientId = none) (hpos : 0 < k) (hk : k < m.pieces.length)
    (hwire : wireSizeBytes ≤ segmentMaxBytes) (cursor : Option Str) (now : ℕ) :
    ∃ t, s.observeClientMessage codec (m.chunk k cursor) wireSizeBytes now = (.dropped, t) ∧
      m.Unfinished t ∧ t.assemblies.lookup m.clientId = none := by
  have hnew : s.assemblies.shouldIgnoreChunk m.clientId m.streamId m.seqId k = false := by
    simp [shouldIgnoreChunk, hnone]
  have ha : (s.assemblies.prepare m.clientId m.streamId m.metadata now).lookup m.clientId =
      some (freshAssembly m.streamId m.metadata now) := by
    simp [prepare, hnone]
  have hdrop : updateAssembly codec (freshAssembly m.streamId m.metadata now) m.metadata k
      (m.pieces[k]?.getD []) now = (.drop, freshAssembly m.streamId m.metadata now) := by
    simp [updateAssembly, freshAssembly, hpos.ne']
  exact observe_drop hunfinished hk hnew hwire ha rfl hdrop cursor

/-- The chunks alone, after a half-received message: all of them are lost. -/
theorem run_lost (hstored : StoredBelow m.clientId m.streamId m.seqId s)
    (hhalf : HalfReceived s m.clientId m.streamId) (hpos : 0 < k) (hk : k < m.pieces.length) :
    ∃ arrivals t, Run (Arrives m) (s, 0) arrivals (t, k) ∧
      (∀ a ∈ arrivals.head?, Arrival.isOwn a = true) ∧ m.Unfinished t ∧
        t.assemblies.lookup m.clientId = none := by
  induction k, hpos using Nat.le_induction with
  | base =>
    obtain ⟨t, ht, hunfinished, hnone⟩ := first_chunk_dropped hstored hhalf (Nat.zero_le _) none 0
    have hstep := Arrives.own (m := m) (s := s) none 0 m.count_pos (Nat.zero_le _)
    rw [ht] at hstep
    refine ⟨_, t, .single hstep, ?_, hunfinished, hnone⟩
    rintro a ⟨⟩
    rfl
  | succ k hle ih =>
    obtain ⟨arrivals, t, hrun, hfirst, hunfinished, hnone⟩ := ih (Nat.lt_of_succ_lt hk)
    obtain ⟨u, hu, hunfinished', hnone'⟩ :=
      later_chunk_dropped hunfinished hnone hle (Nat.lt_of_succ_lt hk) (Nat.zero_le _) none 0
    have hstep := Arrives.own (m := m) (s := t) none 0 (Nat.lt_of_succ_lt hk) (Nat.zero_le _)
    rw [hu] at hstep
    refine ⟨_, u, hrun.append (.single hstep), ?_, hunfinished', hnone'⟩
    cases arrivals with
    | nil => cases hrun; cases hle
    | cons a arrivals => exact hfirst

theorem not_delivers_of_halfReceived (hstored : StoredBelow m.clientId m.streamId m.seqId s)
    (hhalf : HalfReceived s m.clientId m.streamId) : ¬ m.Delivers s := by
  intro h
  by_cases hone : m.pieces.length - 1 = 0
  · obtain ⟨t, ht, -⟩ := first_chunk_dropped hstored hhalf (Nat.zero_le _) none 0
    have hforward := h [] s none 0 0 (by rw [hone]; exact .nil _) (by simp) (Nat.zero_le _)
    rw [hone, ht] at hforward
    cases hforward
  · obtain ⟨arrivals, t, hrun, hfirst, hunfinished, hnone⟩ :=
      run_lost hstored hhalf (Nat.pos_of_ne_zero hone) (by omega)
    obtain ⟨u, hu, -⟩ :=
      later_chunk_dropped hunfinished hnone (Nat.pos_of_ne_zero hone) (by omega) (Nat.zero_le _)
        none 0
    have hforward := h arrivals t none 0 0 hrun hfirst (Nat.zero_le _)
    rw [hu] at hforward
    cases hforward

end SegmentedMessage

section

/-- The notification in two chunks. -/
def pingMessage : SegmentedMessage pingCodec where
  clientId := "phone".toList
  streamId := "main".toList
  seqId := 2
  pieces := ["eyJtZXRob2QiOg==".toList, "InBpbmcifQ==".toList]
  decoded := [pingHead, pingTail]
  message := .notification "ping".toList none
  decodes := .cons (by decide +kernel) (.cons (by decide +kernel) .nil)
  nonempty := by decide
  count_pos := by decide
  count_le := by decide
  size_pos := by decide +kernel
  size_le := by decide +kernel
  parses := if_pos (by decide +kernel)

variable (streamId : StreamId)

/-- The first chunk of an older message, the second one of which is never sent. -/
def abandonedChunk : Inbound :=
  .observe ⟨.clientMessageChunk 0 2 17 "eyJtZXRob2QiOg==".toList, "phone".toList, some streamId,
    some 1, none⟩ 190 0

theorem seenBelow_abandonedChunk :
    SeenBelow pingMessage.clientId pingMessage.streamId pingMessage.seqId
      [abandonedChunk streamId] := by
  rintro envelope wireSizeBytes now hmem q ⟨-, -, hseq, -⟩
  cases List.mem_singleton.mp hmem
  cases hseq
  decide

end

/-- A message with a new sequence id is delivered exactly if no message of its stream has been
received in part when its first chunk arrives. -/
theorem delivers_iff_not_halfReceived (codec : Codec) (hengine : codec.engine.Lawful)
    (m : SegmentedMessage codec) (history : List Inbound)
    (hseen : SeenBelow m.clientId m.streamId m.seqId history) :
    m.Delivers (inboundState codec history) ↔
      ¬ HalfReceived (inboundState codec history) m.clientId m.streamId := by
  have hstored := storedBelow_inboundState codec hseen
  constructor
  · intro hdelivers hhalf
    exact not_delivers_of_halfReceived hstored hhalf hdelivers
  · intro hnot
    apply delivers_of_ready hengine
    exact ⟨hstored.completed, .inl ⟨rfl, fun a ha hstream => hnot ⟨a, ha, hstream⟩⟩⟩

/-- The older message of the stream was left half received, and the new one is lost. -/
theorem not_delivers_abandonedChunk :
    SeenBelow pingMessage.clientId pingMessage.streamId pingMessage.seqId
        [abandonedChunk pingMessage.streamId] ∧
      ¬ pingMessage.Delivers (inboundState pingCodec [abandonedChunk pingMessage.streamId]) := by
  refine ⟨seenBelow_abandonedChunk _, ?_⟩
  apply not_delivers_of_halfReceived
    (storedBelow_inboundState pingCodec (seenBelow_abandonedChunk _))
  exact ⟨⟨"main".toList, ⟨1, 2, 17⟩, pingHead, 1, 0⟩, by decide +kernel, rfl⟩

/-- A half-received message on another stream of the client is in nobody's way. -/
theorem delivers_abandonedChunk_other :
    pingMessage.Delivers (inboundState pingCodec [abandonedChunk "side".toList]) := by
  apply (delivers_iff_not_halfReceived pingCodec standard_lawful pingMessage _
    (seenBelow_abandonedChunk _)).mpr
  rintro ⟨a, ha, hstream⟩
  have hside : (inboundState pingCodec [abandonedChunk "side".toList]).assemblies.lookup
      "phone".toList = some ⟨"side".toList, ⟨1, 2, 17⟩, pingHead, 1, 0⟩ := by
    decide +kernel
  cases hside.symm.trans ha
  exact absurd hstream (by decide)

end CodexRs.AppServerTransport
