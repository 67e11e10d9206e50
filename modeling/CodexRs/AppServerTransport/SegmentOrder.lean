import CodexRs.AppServerTransport.SegmentFrame

/-!
# Limits and order of reassembled messages

Each assembly waits for a chunk that is neither its first nor past its last. What was completed
last is noted, and nothing older is looked at.
-/
namespace CodexRs.AppServerTransport
open Text Base64 Assemblies Table

/-- The limits that the first chunk of a message fixes. -/
structure ClientSegmentAssembly.Limits (a : ClientSegmentAssembly) : Prop where
  count_le : a.metadata.segmentCount ≤ segmentCountMax
  raw_le : a.raw.length ≤ a.metadata.messageSizeBytes
  size_le : a.metadata.messageSizeBytes ≤ reassembledMaxBytes

/-- An assembly that waits for a chunk that is neither its first nor past its last. -/
structure ClientSegmentAssembly.Within (a : ClientSegmentAssembly) : Prop extends a.Limits where
  started : 0 < a.nextSegmentId
  unfinished : a.nextSegmentId < a.metadata.segmentCount

structure Assemblies.Within (r : Assemblies) : Prop where
  count_le : r.keys.length ≤ segmentAssemblyMaxCount
  assembly : ∀ c a, r.lookup c = some a → a.Within

section
variable {codec : Codec} {a : ClientSegmentAssembly}

theorem appendChunk_within (hengine : codec.engine.Bounded) (h : a.Limits) (chunk : Str) (now : ℕ)
    (hpending : (appendChunk codec a chunk now).1 = .pending) :
    (appendChunk codec a chunk now).2.Within := by
  simp only [appendChunk] at hpending ⊢
  split at hpending
  · cases hpending
  · rename_i bytes hbytes
    split_ifs at hpending ⊢ with hnext hsize
    · have hle := hengine _ _ _ hbytes
      have hraw := h.raw_le
      refine ⟨⟨h.count_le, ?_, h.size_le⟩, Nat.succ_pos _, hnext⟩
      show (a.raw ++ bytes).length ≤ a.metadata.messageSizeBytes
      rw [List.length_append]
      omega
    · split at hpending <;> cases hpending

/-- An assembly stays within the limits, and a new one is. -/
theorem updateAssembly_within (hengine : codec.engine.Bounded) {metadata : ClientSegmentMetadata}
    (h : a.Limits) (hstart : a.Within ∨ a.nextSegmentId = 0 ∧ a.metadata = metadata)
    (segmentId : ℕ) (chunk : Str) (now : ℕ)
    (hkept : (updateAssembly codec a metadata segmentId chunk now).1 = .pending ∨
      (updateAssembly codec a metadata segmentId chunk now).1 = .ignore) :
    (updateAssembly codec a metadata segmentId chunk now).2.Within := by
  unfold updateAssembly at hkept ⊢
  split_ifs at hkept ⊢ with hold hother hseen hgap
  · apply hstart.resolve_right
    rintro ⟨-, rfl⟩
    exact lt_irrefl _ hold
  · rcases hkept with hkept | hkept <;> cases hkept
  · apply hstart.resolve_right
    omega
  · rcases hkept with hkept | hkept <;> cases hkept
  · apply appendChunk_within hengine h
    apply hkept.resolve_right
    intro hignore
    simp only [appendChunk] at hignore
    split at hignore
    · cases hignore
    · split_ifs at hignore
      split at hignore <;> cases hignore

theorem freshAssembly_limits {segmentId segmentCount messageSizeBytes : ℕ} {chunk : Str}
    (hvalid : invalidChunk segmentId segmentCount messageSizeBytes chunk = false)
    (streamId : StreamId) (seqId now : ℕ) :
    (freshAssembly streamId ⟨seqId, segmentCount, messageSizeBytes⟩ now).Limits := by
  simp only [invalidChunk, decide_eq_false_iff_not] at hvalid
  constructor
  · show segmentCount ≤ segmentCountMax
    omega
  · exact Nat.zero_le _
  · show messageSizeBytes ≤ reassembledMaxBytes
    omega

end

namespace Assemblies
variable {r : Assemblies} {c : ClientId} {streamId : StreamId}

theorem length_keys_removeAssembly_le (r : Assemblies) (c : ClientId) (streamId : StreamId) :
    (r.removeAssembly c streamId).keys.length ≤ r.keys.length := by
  unfold removeAssembly
  split_ifs
  · exact length_keys_erase_le r c
  · exact le_rfl

theorem length_keys_evict {fuel : ℕ} (h : r.keys.length ≤ fuel) :
    (evictAssemblies fuel r).keys.length < segmentAssemblyMaxCount := by
  induction fuel generalizing r with
  | zero => exact lt_of_le_of_lt h (by decide)
  | succ fuel ih =>
    rw [evictAssemblies]
    split_ifs with hfull
    · split
      · rename_i hnone
        have hkeys : r.keys ≠ [] := by
          intro hempty
          rw [hempty] at hfull
          exact absurd hfull (by decide)
        have hsome : (oldestClient r).isSome := List.isSome_minOn?_iff.mpr hkeys
        rw [hnone] at hsome
        cases hsome
      · rename_i client hsome
        have hlt := length_keys_erase_lt (List.minOn?_mem hsome)
        exact ih (by omega)
    · exact not_le.mp hfull

theorem length_keys_prepare (h : r.keys.length ≤ segmentAssemblyMaxCount) (c : ClientId)
    (streamId : StreamId) (metadata : ClientSegmentMetadata) (now : ℕ) :
    (r.prepare c streamId metadata now).keys.length ≤ segmentAssemblyMaxCount := by
  unfold prepare
  split
  · rename_i a hl
    split_ifs
    · rw [length_keys_insert_of_mem (mem_keys_of_lookup hl)]
      exact h
    · exact h
  · have hlt : r.evictAssembliesIfFull.keys.length < segmentAssemblyMaxCount :=
      length_keys_evict le_rfl
    exact (length_keys_insert_le _ _ _).trans hlt

theorem Within.removeAssembly (h : r.Within) (c : ClientId) (streamId : StreamId) :
    (r.removeAssembly c streamId).Within where
  count_le := (length_keys_removeAssembly_le r c streamId).trans h.count_le
  assembly d a ha := h.assembly d a (lookup_of_lookup_removeAssembly ha)

theorem Within.erase (h : r.Within) (c : ClientId) : Within (r.erase c) where
  count_le := (length_keys_erase_le r c).trans h.count_le
  assembly d a ha := h.assembly d a (lookup_of_lookup_erase ha).2

variable {envelope : ClientEnvelope}

theorem length_keys_finishUpdate (hmem : envelope.clientId ∈ r.keys)
    (streamId : StreamId) (p : AssemblyUpdate × ClientSegmentAssembly) :
    (finishUpdate r envelope streamId p).2.keys.length ≤ r.keys.length := by
  have hinsert := length_keys_insert_of_mem hmem p.2
  simp only [finishUpdate]
  split
  · exact hinsert.le
  · exact hinsert.le
  · exact (length_keys_removeAssembly_le _ _ _).trans hinsert.le
  · exact (length_keys_removeAssembly_le _ _ _).trans hinsert.le

/-- An assembly that is still there after an update was not dropped or completed. -/
theorem kept_of_lookup_finishUpdate {p} (hstream : p.2.streamId = streamId)
    {a : ClientSegmentAssembly}
    (h : (finishUpdate r envelope streamId p).2.lookup envelope.clientId = some a) :
    p.1 = .pending ∨ p.1 = .ignore := by
  have hremoved : (removeAssembly (r.insert envelope.clientId p.2) envelope.clientId
      streamId).lookup envelope.clientId = none :=
    lookup_removeAssembly_self (AList.lookup_insert _) hstream
  simp only [finishUpdate] at h
  split at h
  · rename_i hp
    exact .inl hp
  · rename_i hp
    exact .inr hp
  · rw [hremoved] at h
    cases h
  · rw [hremoved] at h
    cases h

variable {codec : Codec}

theorem Within.observeChunk (hengine : codec.engine.Bounded) (h : r.Within)
    {segmentId segmentCount messageSizeBytes : ℕ} {chunk : Str}
    (hvalid : invalidChunk segmentId segmentCount messageSizeBytes chunk = false)
    (envelope : ClientEnvelope) (streamId : StreamId) (seqId now : ℕ) :
    (r.observeChunk codec envelope streamId ⟨seqId, segmentCount, messageSizeBytes⟩ segmentId chunk
      now).2.Within := by
  generalize hmeta : (⟨seqId, segmentCount, messageSizeBytes⟩ : ClientSegmentMetadata) = metadata
  -- the assembly the chunk is added to: the one of the stream, or a new one
  obtain ⟨a, hl, hstream, hlimits, hstart⟩ : ∃ a,
      (r.prepare envelope.clientId streamId metadata now).lookup envelope.clientId = some a ∧
        a.streamId = streamId ∧ a.Limits ∧
          (a.Within ∨ a.nextSegmentId = 0 ∧ a.metadata = metadata) := by
    rcases lookup_prepare_self r envelope.clientId streamId metadata now with
      ⟨a, hold, hstream, hl⟩ | ⟨-, hl⟩
    · have hwithin := h.assembly _ a hold
      exact ⟨a, hl, hstream, hwithin.toLimits, .inl hwithin⟩
    · refine ⟨_, hl, rfl, ?_, .inr ⟨rfl, rfl⟩⟩
      rw [← hmeta]
      exact freshAssembly_limits hvalid streamId seqId now
  have hframe := updateAssembly_frame codec a metadata segmentId chunk now
  rw [observeChunk_eq codec hl]
  constructor
  · have hprepare := length_keys_prepare h.count_le envelope.clientId streamId metadata now
    exact (length_keys_finishUpdate (mem_keys_of_lookup hl) _ _).trans hprepare
  · intro d b hb
    by_cases hd : d = envelope.clientId
    · subst hd
      have hkept := kept_of_lookup_finishUpdate (hframe.1.trans hstream) hb
      rw [lookup_finishUpdate_self hb]
      exact updateAssembly_within hengine hlimits hstart segmentId chunk now hkept
    · rw [lookup_finishUpdate_of_ne hd] at hb
      exact h.assembly d b (lookup_of_lookup_prepare hd hb)

theorem Within.observe (hengine : codec.engine.Bounded) (h : r.Within) (envelope : ClientEnvelope)
    (now : ℕ) : (r.observe codec envelope now).2.Within := by
  unfold Assemblies.observe
  split
  · split
    · split_ifs with hignore hinvalid
      · exact h
      · exact h.removeAssembly _ _
      · exact h.observeChunk hengine (Bool.eq_false_iff.mpr hinvalid) _ _ _ _
    · exact h
  · exact h

end Assemblies

namespace WebsocketState
variable {codec : Codec} {s : WebsocketState}

theorem assemblies_recordCompletion (s : WebsocketState) (envelope : ClientEnvelope)
    (observation : ClientSegmentObservation) :
    (s.recordCompletion envelope observation).assemblies = s.assemblies := by
  unfold recordCompletion
  split <;> rfl

theorem within_observeClientMessage (hengine : codec.engine.Bounded) (h : s.assemblies.Within)
    (envelope : ClientEnvelope) (wireSizeBytes now : ℕ) :
    (s.observeClientMessage codec envelope wireSizeBytes now).2.assemblies.Within := by
  simp only [observeClientMessage]
  split_ifs
  · exact h
  · exact h
  · split
    · exact h.removeAssembly _ _
    · exact h
  · rw [assemblies_recordCompletion]
    exact h.observe hengine envelope now

end WebsocketState

theorem within_inboundState {codec : Codec} (hengine : codec.engine.Bounded)
    (history : List Inbound) : (inboundState codec history).assemblies.Within := by
  induction history using List.reverseRecOn with
  | nil => exact ⟨Nat.zero_le _, fun c a ha => by cases ha⟩
  | append_singleton history i ih =>
    rw [inboundState, List.foldl_append] at *
    cases i with
    | observe envelope wireSizeBytes now =>
      exact WebsocketState.within_observeClientMessage hengine ih envelope wireSizeBytes now
    | invalidateStream c st => exact Within.removeAssembly ih c st
    | invalidateClient c => exact Within.erase ih c

open List WebsocketState

/-- The sequence id of a reassembled message that was forwarded for the stream. -/
def deliveryOf (clientId : ClientId) (streamId : StreamId) (envelope : ClientEnvelope)
    (observation : ClientSegmentObservation) : Option ℕ :=
  match envelope.event, observation with
  | .clientMessageChunk .., .forward whole =>
    if whole.clientId = clientId ∧ whole.streamId = some streamId then whole.seqId else none
  | _, _ => none

/-- The sequence ids of the messages forwarded for the stream, one after the other. -/
def deliveries (codec : Codec) (clientId : ClientId) (streamId : StreamId) :
    WebsocketState → List Inbound → List ℕ
  | _, [] => []
  | s, .observe envelope wireSizeBytes now :: rest =>
    let p := s.observeClientMessage codec envelope wireSizeBytes now
    (deliveryOf clientId streamId envelope p.1).toList ++
      deliveries codec clientId streamId p.2 rest
  | s, i :: rest => deliveries codec clientId streamId (i.apply codec s) rest

def Inbound.Invalidates (clientId : ClientId) (streamId : StreamId) : Inbound → Prop
  | .observe .. => False
  | .invalidateStream c st => c = clientId ∧ st = streamId
  | .invalidateClient c => c = clientId

section
variable {codec : Codec} {clientId : ClientId} {streamId : StreamId} {s : WebsocketState}

/-- A chunk that completes a message comes back in an envelope with the same addressing. -/
theorem forward_observe {r : Assemblies} {envelope whole : ClientEnvelope} {now : ℕ}
    (h : (r.observe codec envelope now).1 = .forward whole) :
    whole.clientId = envelope.clientId ∧ whole.streamId = envelope.streamId ∧
      whole.seqId = envelope.seqId := by
  unfold Assemblies.observe at h
  split at h
  · split at h
    · split_ifs at h
      simp only [Assemblies.observeChunk] at h
      split at h
      · cases h
      · simp only [finishUpdate] at h
        split at h <;> cases h
        exact ⟨rfl, rfl, rfl⟩
    · cases h
  · cases h
    exact ⟨rfl, rfl, rfl⟩

variable {envelope : ClientEnvelope}

theorem deliveryOf_observe_iff {r : Assemblies} {now q : ℕ} :
    deliveryOf clientId streamId envelope (r.observe codec envelope now).1 = some q ↔
      clientMessageKey envelope = some ((clientId, some streamId), q) ∧
        ∃ whole, (r.observe codec envelope now).1 = .forward whole := by
  constructor
  · intro h
    unfold deliveryOf at h
    split at h
    · rename_i whole hevent hforward
      split_ifs at h with hstream
      obtain ⟨hclient, hst, hseq⟩ := forward_observe hforward
      refine ⟨?_, whole, hforward⟩
      simp only [clientMessageKey, hevent, ← hseq, h, ← hclient, ← hst, hstream]
    · cases h
  · rintro ⟨hkey, whole, hforward⟩
    obtain ⟨hclient, hst, hseq, i, count, size, chunk, hevent⟩ := StoredBelow.isChunkOf_of_key hkey
    obtain ⟨hclient', hst', hseq'⟩ := forward_observe hforward
    simp only [deliveryOf, hevent, hforward, hclient', hst', hseq', hclient, hst, hseq, and_self,
      if_true]

/-- A delivery is newer than the last one, and is noted. -/
theorem observe_delivery {wireSizeBytes now q : ℕ} (h : deliveryOf clientId streamId envelope
      (s.observeClientMessage codec envelope wireSizeBytes now).1 = some q) :
    (∀ last, s.lastCompleted.lookup (clientId, some streamId) = some last → last < q) ∧
      (s.observeClientMessage codec envelope wireSizeBytes now).2.lastCompleted.lookup
        (clientId, some streamId) = some q := by
  have hdropped : deliveryOf clientId streamId envelope .dropped = none := by
    unfold deliveryOf
    split <;> first | rfl | contradiction
  simp only [observeClientMessage] at h ⊢
  split_ifs at h ⊢ with hcompleted hignore hsize
  · rw [hdropped] at h
    cases h
  · rw [hdropped] at h
    cases h
  · split at h <;> · rw [hdropped] at h; cases h
  · obtain ⟨hkey, whole, hforward⟩ := deliveryOf_observe_iff.mp h
    constructor
    · intro last hlast
      simp only [isCompleted, hkey, hlast, Option.any_some, decide_eq_true_eq]
        at hcompleted
      omega
    · simp only [WebsocketState.recordCompletion, hkey, hforward]
      exact AList.lookup_insert _

theorem observe_no_delivery {wireSizeBytes now : ℕ} (h : deliveryOf clientId streamId envelope
      (s.observeClientMessage codec envelope wireSizeBytes now).1 = none) :
    (s.observeClientMessage codec envelope wireSizeBytes now).2.lastCompleted.lookup
      (clientId, some streamId) = s.lastCompleted.lookup (clientId, some streamId) := by
  simp only [observeClientMessage] at h ⊢
  split_ifs at h ⊢ with hcompleted hignore hsize
  · rfl
  · rfl
  · split <;> rfl
  · simp only [WebsocketState.recordCompletion]
    split
    · rename_i whole key q hforward hkey
      apply AList.lookup_insert_ne
      rintro rfl
      rw [deliveryOf_observe_iff.mpr ⟨hkey, whole, hforward⟩] at h
      cases h
    · rfl

theorem lastCompleted_apply (codec : Codec) {i : Inbound} (hi : ¬ i.Invalidates clientId streamId)
    (hobserve : ∀ envelope wireSizeBytes now, i ≠ .observe envelope wireSizeBytes now) :
    (i.apply codec s).lastCompleted.lookup (clientId, some streamId) =
      s.lastCompleted.lookup (clientId, some streamId) := by
  cases i with
  | observe envelope wireSizeBytes now => exact absurd rfl (hobserve _ _ _)
  | invalidateStream c st =>
    apply AList.lookup_erase_ne
    intro hkey
    cases hkey
    exact hi ⟨rfl, rfl⟩
  | invalidateClient c =>
    have herase : ∀ (keys : List (ClientId × Option StreamId))
        (completed : AList fun _ : ClientId × Option StreamId => ℕ),
        (∀ key ∈ keys, key.1 = c) →
        (keys.foldl (fun completed key => completed.erase key) completed).lookup
          (clientId, some streamId) = completed.lookup (clientId, some streamId) := by
      intro keys
      induction keys with
      | nil => exact fun _ _ => rfl
      | cons key keys ih =>
        intro completed hkeys
        rw [foldl_cons, ih _ fun k hk => hkeys k (mem_cons_of_mem _ hk)]
        apply AList.lookup_erase_ne
        intro hkey
        apply hi
        rw [Inbound.Invalidates, ← hkeys key mem_cons_self, ← hkey]
    apply herase
    intro key hkey
    exact of_decide_eq_true (mem_filter.mp hkey).2

/-- Until the stream is invalidated, what is delivered grows, from the last delivery on. -/
theorem deliveries_increase {events : List Inbound}
    (hevents : ∀ i ∈ events, ¬ i.Invalidates clientId streamId) :
    (deliveries codec clientId streamId s events).Pairwise (· < ·) ∧
      ∀ last, s.lastCompleted.lookup (clientId, some streamId) = some last →
        ∀ q ∈ deliveries codec clientId streamId s events, last < q := by
  induction events generalizing s with
  | nil => exact ⟨.nil, fun _ _ q hq => by cases hq⟩
  | cons i events ih =>
    have hrest : ∀ j ∈ events, ¬ j.Invalidates clientId streamId :=
      fun j hj => hevents j (mem_cons_of_mem _ hj)
    have hi := hevents i mem_cons_self
    cases i with
    | observe envelope wireSizeBytes now =>
      simp only [deliveries]
      cases hd : deliveryOf clientId streamId envelope
        (s.observeClientMessage codec envelope wireSizeBytes now).1 with
      | none =>
        rw [← observe_no_delivery hd]
        exact ih hrest
      | some q =>
        obtain ⟨hlast, hnoted⟩ := observe_delivery hd
        obtain ⟨hpairwise, hlater⟩ := ih hrest
        have hnewer := hlater q hnoted
        refine ⟨pairwise_cons.mpr ⟨hnewer, hpairwise⟩, ?_⟩
        intro last hl q' hq'
        rcases mem_cons.mp hq' with rfl | hq'
        · exact hlast last hl
        · exact (hlast last hl).trans (hnewer q' hq')
    | invalidateStream c st | invalidateClient c =>
      rw [← lastCompleted_apply codec hi (by simp)]
      exact ih hrest

end

/-- What is forwarded for a stream until it is invalidated comes in order and at most once. -/
theorem deliveries_ordered_within (codec : Codec) (hengine : codec.engine.Bounded)
    (history events : List Inbound) (clientId : ClientId) (streamId : StreamId)
    (hevents : ∀ i ∈ events, ¬ i.Invalidates clientId streamId) :
    (deliveries codec clientId streamId (inboundState codec history) events).Pairwise (· < ·) ∧
      (inboundState codec history).assemblies.keys.length ≤ 128 ∧
        ∀ c a, (inboundState codec history).assemblies.lookup c = some a →
          0 < a.nextSegmentId ∧ a.nextSegmentId < a.metadata.segmentCount ∧
            a.metadata.segmentCount ≤ 1024 ∧ a.raw.length ≤ a.metadata.messageSizeBytes ∧
              a.metadata.messageSizeBytes ≤ 100 * 1024 * 1024 := by
  have hwithin := within_inboundState hengine history
  refine ⟨(deliveries_increase hevents).1, hwithin.count_le, fun c a ha => ?_⟩
  have h := hwithin.assembly c a ha
  exact ⟨h.started, h.unfinished, h.count_le, h.raw_le, h.size_le⟩

/-- The notification as one chunk. -/
def ping (seqId : ℕ) : Inbound :=
  .observe ⟨.clientMessageChunk 0 1 17 "eyJtZXRob2QiOiJwaW5nIn0=".toList, "phone".toList,
    some "main".toList, some seqId, none⟩ 200 0

/-- A repeated message and one that comes late are not delivered again. -/
theorem deliveries_ordered_within_pings :
    deliveries pingCodec "phone".toList "main".toList (inboundState pingCodec [])
        [ping 1, ping 1, ping 3, ping 2] = [1, 3] ∧
      (deliveries pingCodec "phone".toList "main".toList (inboundState pingCodec [])
        [ping 1, ping 1, ping 3, ping 2]).Pairwise (· < ·) := by
  refine ⟨by decide +kernel, ?_⟩
  apply (deliveries_ordered_within pingCodec standard_bounded [] _ _ _ ?_).1
  intro i hi hinvalid
  simp only [mem_cons, not_mem_nil, or_false] at hi
  rcases hi with rfl | rfl | rfl | rfl <;> exact hinvalid

end CodexRs.AppServerTransport
