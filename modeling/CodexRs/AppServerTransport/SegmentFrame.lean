import CodexRs.AppServerTransport.Segment
import CodexRs.Library.Table

/-!
# What a chunk can change

A chunk of one client leaves the assemblies of the others alone, unless one has to make room. All
sequence ids that the inbound state keeps for a stream have been seen in chunks of that stream.
-/
namespace CodexRs.AppServerTransport
open Text AList Assemblies

namespace Assemblies
variable {r : Assemblies} {c d : ClientId} {a : ClientSegmentAssembly} {streamId : StreamId}

theorem lookup_removeAssembly_of_ne (h : d ≠ c) :
    (r.removeAssembly c streamId).lookup d = r.lookup d := by
  unfold removeAssembly
  split_ifs
  · exact lookup_erase_ne h
  · rfl

theorem lookup_of_lookup_removeAssembly (h : (r.removeAssembly c streamId).lookup d = some a) :
    r.lookup d = some a := by
  unfold removeAssembly at h
  split_ifs at h
  · exact (Table.lookup_of_lookup_erase h).2
  · exact h

theorem lookup_removeAssembly_self (hl : r.lookup c = some a) (hstream : a.streamId = streamId) :
    (r.removeAssembly c streamId).lookup c = none := by
  rw [removeAssembly, if_pos (by simp [hl, hstream])]
  exact lookup_erase c r

theorem lookup_of_lookup_evict {fuel : ℕ} (h : (evictAssemblies fuel r).lookup d = some a) :
    r.lookup d = some a := by
  induction fuel generalizing r with
  | zero => exact h
  | succ fuel ih =>
    rw [evictAssemblies] at h
    split_ifs at h
    · split at h
      · exact h
      · exact (Table.lookup_of_lookup_erase (ih h)).2
    · exact h

/-- There is room for an assembly of the client. -/
def Room (r : Assemblies) (c : ClientId) : Prop :=
  r.keys.length < segmentAssemblyMaxCount ∨ (r.lookup c).isSome = true

theorem evictAssembliesIfFull_of_lt (h : r.keys.length < segmentAssemblyMaxCount) :
    r.evictAssembliesIfFull = r := by
  rw [evictAssembliesIfFull]
  cases hn : r.keys.length with
  | zero => rfl
  | succ n => rw [evictAssemblies, if_neg (by omega)]

variable {metadata : ClientSegmentMetadata}

theorem lookup_of_lookup_prepare {now : ℕ} (hd : d ≠ c)
    (h : (r.prepare c streamId metadata now).lookup d = some a) : r.lookup d = some a := by
  unfold prepare at h
  split at h
  · split_ifs at h
    · rwa [lookup_insert_ne hd] at h
    · exact h
  · rw [lookup_insert_ne hd] at h
    exact lookup_of_lookup_evict h

theorem lookup_prepare_of_room {now : ℕ} (hd : d ≠ c)
    (hroom : r.Room c) : (r.prepare c streamId metadata now).lookup d = r.lookup d := by
  unfold prepare
  split
  · split_ifs
    · exact lookup_insert_ne hd
    · rfl
  · rename_i hnone
    have hlt := hroom.resolve_right (by simp [hnone])
    rw [evictAssembliesIfFull_of_lt hlt]
    exact lookup_insert_ne hd

/-- The client has an assembly for its stream: the one it had or a fresh one. -/
theorem lookup_prepare_self (r : Assemblies) (c : ClientId) (streamId : StreamId)
    (metadata : ClientSegmentMetadata) (now : ℕ) :
    (∃ a, r.lookup c = some a ∧ a.streamId = streamId ∧
      (r.prepare c streamId metadata now).lookup c = some a) ∨
    ((∀ a, r.lookup c = some a → a.streamId ≠ streamId) ∧
      (r.prepare c streamId metadata now).lookup c =
        some (freshAssembly streamId metadata now)) := by
  unfold prepare
  cases hl : r.lookup c with
  | none => exact .inr ⟨by simp, lookup_insert _⟩
  | some a =>
    by_cases hstream : a.streamId = streamId
    · exact .inl ⟨a, rfl, hstream, by simp [hstream, hl]⟩
    · refine .inr ⟨?_, by simp [hstream]⟩
      rintro a' ⟨⟩
      exact hstream

end Assemblies

section
variable (codec : Codec) (a : ClientSegmentAssembly)

theorem appendChunk_frame (chunk : Str) (now : ℕ) :
    (appendChunk codec a chunk now).2.streamId = a.streamId ∧
      (appendChunk codec a chunk now).2.metadata = a.metadata := by
  simp only [appendChunk]
  split
  · exact ⟨rfl, rfl⟩
  · split_ifs
    · exact ⟨rfl, rfl⟩
    · exact ⟨rfl, rfl⟩
    · split <;> exact ⟨rfl, rfl⟩

theorem updateAssembly_frame (metadata : ClientSegmentMetadata)
    (segmentId : ℕ) (chunk : Str) (now : ℕ) :
    (updateAssembly codec a metadata segmentId chunk now).2.streamId = a.streamId ∧
      (updateAssembly codec a metadata segmentId chunk now).2.metadata = a.metadata := by
  unfold updateAssembly
  split_ifs <;> first | exact ⟨rfl, rfl⟩ | exact appendChunk_frame codec a chunk now

variable {streamId : StreamId} {r : Assemblies}

theorem observeChunk_eq {envelope : ClientEnvelope}
    {metadata : ClientSegmentMetadata} {now : ℕ} {a : ClientSegmentAssembly}
    (hl : (r.prepare envelope.clientId streamId metadata now).lookup envelope.clientId = some a)
    (segmentId : ℕ) (chunk : Str) :
    r.observeChunk codec envelope streamId metadata segmentId chunk now =
      finishUpdate (r.prepare envelope.clientId streamId metadata now) envelope streamId
        (updateAssembly codec a metadata segmentId chunk now) := by
  simp only [observeChunk, hl]

variable {p : AssemblyUpdate × ClientSegmentAssembly} {envelope : ClientEnvelope}

theorem lookup_finishUpdate_of_ne {d : ClientId} (hd : d ≠ envelope.clientId) :
    (finishUpdate r envelope streamId p).2.lookup d = r.lookup d := by
  have hinsert : (r.insert envelope.clientId p.2 : Assemblies).lookup d = r.lookup d :=
    lookup_insert_ne hd
  simp only [finishUpdate]
  split
  · exact hinsert
  · exact hinsert
  · exact (lookup_removeAssembly_of_ne hd).trans hinsert
  · exact (lookup_removeAssembly_of_ne hd).trans hinsert

theorem lookup_finishUpdate_self {a : ClientSegmentAssembly}
    (h : (finishUpdate r envelope streamId p).2.lookup envelope.clientId = some a) : a = p.2 := by
  have hinsert : (r.insert envelope.clientId p.2 : Assemblies).lookup envelope.clientId =
      some a := by
    simp only [finishUpdate] at h
    split at h
    · exact h
    · exact h
    · exact lookup_of_lookup_removeAssembly h
    · exact lookup_of_lookup_removeAssembly h
  rw [lookup_insert, Option.some.injEq] at hinsert
  exact hinsert.symm

end

/-- The chunk of a message of a stream. -/
def IsChunkOf (envelope : ClientEnvelope) (clientId : ClientId) (streamId : StreamId) (seqId : ℕ) :
    Prop :=
  envelope.clientId = clientId ∧ envelope.streamId = some streamId ∧
    envelope.seqId = some seqId ∧
      ∃ i count size chunk, envelope.event = .clientMessageChunk i count size chunk

namespace Assemblies
variable (codec : Codec) {r : Assemblies} {envelope : ClientEnvelope} {now : ℕ} {d : ClientId}
  {a : ClientSegmentAssembly}

variable {metadata : ClientSegmentMetadata} {streamId : StreamId}

theorem lookup_observeChunk_of_ne {segmentId : ℕ} {chunk : Str} (hd : d ≠ envelope.clientId) :
    (r.observeChunk codec envelope streamId metadata segmentId chunk now).2.lookup d =
      (r.prepare envelope.clientId streamId metadata now).lookup d := by
  rcases lookup_prepare_self r envelope.clientId streamId metadata now with
    ⟨a, -, -, hl⟩ | ⟨-, hl⟩
  · rw [observeChunk_eq codec hl, lookup_finishUpdate_of_ne hd]
  · rw [observeChunk_eq codec hl, lookup_finishUpdate_of_ne hd]

theorem lookup_observeChunk_self {segmentId : ℕ} {chunk : Str}
    (h : (r.observeChunk codec envelope streamId metadata segmentId chunk now).2.lookup
      envelope.clientId = some a) :
    (∃ a₀, r.lookup envelope.clientId = some a₀ ∧ a₀.streamId = a.streamId ∧
      a₀.metadata = a.metadata) ∨ (a.streamId = streamId ∧ a.metadata = metadata) := by
  rcases lookup_prepare_self r envelope.clientId streamId metadata now with
    ⟨a₀, hold, -, hl⟩ | ⟨-, hl⟩
  · rw [observeChunk_eq codec hl] at h
    have hframe := updateAssembly_frame codec a₀ metadata segmentId chunk now
    rw [lookup_finishUpdate_self h]
    exact .inl ⟨a₀, hold, hframe.1.symm, hframe.2.symm⟩
  · rw [observeChunk_eq codec hl] at h
    rw [lookup_finishUpdate_self h]
    exact .inr (updateAssembly_frame codec (freshAssembly streamId metadata now) metadata segmentId
      chunk now)

/-- An assembly is one that was there, or is for the message of the chunk. -/
theorem lookup_of_lookup_observe (h : (r.observe codec envelope now).2.lookup d = some a) :
    (∃ a₀, r.lookup d = some a₀ ∧ a₀.streamId = a.streamId ∧ a₀.metadata = a.metadata) ∨
      IsChunkOf envelope d a.streamId a.metadata.seqId := by
  have hold : r.lookup d = some a → ∃ a₀, r.lookup d = some a₀ ∧ a₀.streamId = a.streamId ∧
      a₀.metadata = a.metadata := fun hl => ⟨a, hl, rfl, rfl⟩
  unfold observe at h
  split at h
  · rename_i segmentId segmentCount messageSizeBytes chunk hevent
    split at h
    · rename_i seqId streamId hseq hstream
      split_ifs at h
      · exact .inl (hold h)
      · exact .inl (hold (lookup_of_lookup_removeAssembly h))
      · by_cases hd : d = envelope.clientId
        · subst hd
          rcases lookup_observeChunk_self codec h with hframe | ⟨hs, hm⟩
          · exact .inl hframe
          · rw [hs, hm]
            exact .inr ⟨rfl, hstream, hseq, _, _, _, _, hevent⟩
        · rw [lookup_observeChunk_of_ne codec hd] at h
          exact .inl (hold (lookup_of_lookup_prepare hd h))
    · exact .inl (hold h)
  · exact .inl (hold h)

theorem lookup_observe_of_room (hd : d ≠ envelope.clientId) (hroom : r.Room envelope.clientId) :
    (r.observe codec envelope now).2.lookup d = r.lookup d := by
  unfold observe
  split
  · split
    · split_ifs
      · rfl
      · exact lookup_removeAssembly_of_ne hd
      · rw [lookup_observeChunk_of_ne codec hd, lookup_prepare_of_room hd hroom]
    · rfl
  · rfl

end Assemblies

open List Table WebsocketState

/-- What is kept for a stream has sequence ids below `bound`. -/
structure StoredBelow (clientId : ClientId) (streamId : StreamId) (bound : ℕ)
    (s : WebsocketState) : Prop where
  completed : ∀ q, s.lastCompleted.lookup (clientId, some streamId) = some q → q < bound
  assembling : ∀ a, s.assemblies.lookup clientId = some a → a.streamId = streamId →
    a.metadata.seqId < bound

/-- The chunks of the stream in a history have sequence ids below `bound`. -/
def SeenBelow (clientId : ClientId) (streamId : StreamId) (bound : ℕ) (history : List Inbound) :
    Prop :=
  ∀ envelope wireSizeBytes now, .observe envelope wireSizeBytes now ∈ history →
    ∀ q, IsChunkOf envelope clientId streamId q → q < bound

namespace StoredBelow
variable {clientId : ClientId} {streamId : StreamId} {bound : ℕ} {s : WebsocketState}

variable {envelope : ClientEnvelope}

theorem isChunkOf_of_key {q : ℕ}
    (h : clientMessageKey envelope = some ((clientId, some streamId), q)) :
    IsChunkOf envelope clientId streamId q := by
  unfold clientMessageKey at h
  split at h
  · rename_i hevent hseq
    rw [Option.some.injEq, Prod.mk.injEq, Prod.mk.injEq] at h
    exact ⟨h.1.1, h.1.2, h.2 ▸ hseq, _, _, _, _, hevent⟩
  · cases h

section
variable (h : StoredBelow clientId streamId bound s)
include h

theorem shrink {t : WebsocketState}
    (hcompleted : ∀ q, t.lastCompleted.lookup (clientId, some streamId) = some q →
      s.lastCompleted.lookup (clientId, some streamId) = some q)
    (hassembling : ∀ a, t.assemblies.lookup clientId = some a →
      s.assemblies.lookup clientId = some a) : StoredBelow clientId streamId bound t :=
  ⟨fun q hq => h.completed q (hcompleted q hq),
    fun a ha hstream => h.assembling a (hassembling a ha) hstream⟩

theorem recordCompletion (hseen : ∀ q, IsChunkOf envelope clientId streamId q → q < bound)
    (observation : ClientSegmentObservation) :
    StoredBelow clientId streamId bound (s.recordCompletion envelope observation) := by
  unfold WebsocketState.recordCompletion
  split
  · rename_i key seqId hkey
    refine ⟨fun q hq => ?_, h.assembling⟩
    by_cases hk : (clientId, some streamId) = key
    · subst hk
      rw [AList.lookup_insert, Option.some.injEq] at hq
      rw [← hq]
      exact hseen seqId (isChunkOf_of_key hkey)
    · rw [AList.lookup_insert_ne hk] at hq
      exact h.completed q hq
  · exact h

theorem observe (codec : Codec) (hseen : ∀ q, IsChunkOf envelope clientId streamId q → q < bound)
    (wireSizeBytes now : ℕ) :
    StoredBelow clientId streamId bound
      (s.observeClientMessage codec envelope wireSizeBytes now).2 := by
  simp only [observeClientMessage]
  split_ifs
  · exact h
  · exact h
  · split
    · exact h.shrink (fun _ hq => hq) fun a ha => lookup_of_lookup_removeAssembly ha
    · exact h
  · apply recordCompletion _ hseen
    refine ⟨h.completed, fun a ha hstream => ?_⟩
    rcases lookup_of_lookup_observe codec ha with ⟨a₀, hold, hs, hm⟩ | hchunk
    · rw [← hm]
      exact h.assembling a₀ hold (hs.trans hstream)
    · rw [hstream] at hchunk
      exact hseen _ hchunk

theorem apply (codec : Codec) {i : Inbound} (hseen : SeenBelow clientId streamId bound [i]) :
    StoredBelow clientId streamId bound (i.apply codec s) := by
  cases i with
  | observe envelope wireSizeBytes now =>
    exact h.observe codec (hseen envelope wireSizeBytes now (mem_singleton_self _)) _ _
  | invalidateStream c st =>
    exact h.shrink (fun q hq => (lookup_of_lookup_erase hq).2)
      fun a ha => lookup_of_lookup_removeAssembly ha
  | invalidateClient c =>
    exact h.shrink (fun q hq => lookup_of_lookup_foldl_erase hq)
      fun a ha => (lookup_of_lookup_erase ha).2

end

theorem foldl (codec : Codec) {history : List Inbound}
    (hseen : SeenBelow clientId streamId bound history)
    (h : StoredBelow clientId streamId bound s) :
    StoredBelow clientId streamId bound (history.foldl (Inbound.apply codec) s) := by
  induction history generalizing s with
  | nil => exact h
  | cons i history ih =>
    have hfirst : SeenBelow clientId streamId bound [i] := by
      intro envelope wireSizeBytes now hmem
      exact hseen envelope wireSizeBytes now (mem_cons.mpr (.inl (mem_singleton.mp hmem)))
    exact ih (fun envelope wireSizeBytes now hmem =>
      hseen envelope wireSizeBytes now (mem_cons_of_mem _ hmem)) (h.apply codec hfirst)

end StoredBelow

theorem storedBelow_inboundState (codec : Codec) {clientId : ClientId} {streamId : StreamId}
    {bound : ℕ} {history : List Inbound} (hseen : SeenBelow clientId streamId bound history) :
    StoredBelow clientId streamId bound (inboundState codec history) := by
  apply StoredBelow.foldl codec hseen
  constructor
  · rintro q ⟨⟩
  · rintro a ⟨⟩

/-- The text of a notification without parameters, in two pieces. -/
def pingHead : List UInt8 := "\x7b\"method\":".toUTF8.toList
def pingTail : List UInt8 := "\"ping\"\x7d".toUTF8.toList

/-- The standard engine, and of the parser what it makes of that text. -/
def pingCodec : Codec where
  engine := Base64.standard
  fromSlice bytes :=
    if bytes = pingHead ++ pingTail then some (.notification "ping".toList none) else none

end CodexRs.AppServerTransport
