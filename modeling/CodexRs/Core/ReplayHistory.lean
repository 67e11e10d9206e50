import CodexRs.Core.RolloutReconstruction
import CodexRs.Library.Checkpoint

/-!
# The lazy replay and the full one

Without rollbacks the history that is rebuilt from a suffix of the rollout is the one that a
replay of all its items from the beginning gives.
-/
namespace CodexRs.Core
open Text Protocol Utils Checkpoint List ReplayScan

section
variable (prims : Primitives) (policy : TruncationPolicy)

/-- One item of a replay of the whole rollout. -/
def fullReplayItem (history : List ResponseItem) : RolloutItem → List ResponseItem
  | .responseItem item => (ContextManager.recordItems prims policy ⟨history, none⟩ [item]).items
  | .compacted ⟨_, some replacementHistory⟩ => replacementHistory
  | .compacted ⟨message, none⟩ =>
    buildCompactedHistory [] (collectUserMessages prims history) message
  | _ => history

def fullReplay (rolloutItems : List RolloutItem) : List ResponseItem :=
  rolloutItems.foldl (fullReplayItem prims policy) []

end

def isRollback : RolloutItem → Bool
  | .eventMsg (.threadRolledBack _) => true
  | _ => false

/-- The history that an item carries. -/
def carriedHistory : RolloutItem → Option (List ResponseItem)
  | .compacted compacted => compacted.replacementHistory
  | _ => none

theorem fullReplayItem_of_carried {prims : Primitives} {policy : TruncationPolicy}
    (history : List ResponseItem) (item : RolloutItem) (carried : List ResponseItem)
    (h : carriedHistory item = some carried) :
    fullReplayItem prims policy history item = carried := by
  cases item with
  | compacted compacted =>
    obtain ⟨message, replacement⟩ := compacted
    cases h
    rfl
  | _ => cases h

section
variable {prims : Primitives} {policy : TruncationPolicy}

theorem replayItem_items (replay : Replay) {item : RolloutItem} (h : isRollback item = false) :
    (replayItem prims policy replay item).history.items =
      fullReplayItem prims policy replay.history.items item := by
  cases item with
  | compacted compacted =>
    obtain ⟨message, _ | replacement⟩ := compacted <;> rfl
  | eventMsg event => cases event <;> first | rfl | cases h
  | _ => rfl

theorem foldl_replayItem_items (items : List RolloutItem)
    (h : ∀ item ∈ items, isRollback item = false) (replay : Replay) :
    (items.foldl (replayItem prims policy) replay).history.items =
      items.foldl (fullReplayItem prims policy) replay.history.items := by
  induction items generalizing replay with
  | nil => rfl
  | cons item items ih =>
    rw [foldl_cons, foldl_cons, ih (fun i hi => h i (mem_cons_of_mem _ hi)),
      replayItem_items replay (h item mem_cons_self)]

end

namespace ReplayScan

/-- The base that is settled or will be when the open segment is finalized. -/
def knownBase (scan : ReplayScan) : Option (List ResponseItem) :=
  scan.baseReplacementHistory.or (scan.activeSegment.getD {}).baseReplacementHistory

/-- What the scan has made of the items behind it. -/
structure Tracks (items newer : List RolloutItem) (scan : ReplayScan) : Prop where
  pending : scan.pendingRollbackTurns = 0
  base : scan.knownBase = (newest carriedHistory newer).map Prod.fst
  whole : newest carriedHistory newer = none → scan.rolloutSuffix = items
  resumable : ∀ history rest, newest carriedHistory newer = some (history, rest) →
    rest <:+ scan.rolloutSuffix ∧ scan.rolloutSuffix <:+ newer

namespace Tracks
variable {items newer : List RolloutItem} {scan scan' : ReplayScan}

/-- An item without a history of its own is passed over. -/
theorem pass {item : RolloutItem} (h : Tracks items newer scan) (hitem : carriedHistory item = none)
    (hpending : scan'.pendingRollbackTurns = scan.pendingRollbackTurns)
    (hbase : scan'.knownBase = scan.knownBase)
    (hsuffix : scan'.rolloutSuffix = scan.rolloutSuffix) :
    Tracks items (item :: newer) scan' where
  pending := hpending.trans h.pending
  base := by rw [hbase, h.base, newest_cons_of_none hitem]
  whole := by
    rw [newest_cons_of_none hitem, hsuffix]
    exact h.whole
  resumable := by
    intro history rest hnewest
    rw [newest_cons_of_none hitem] at hnewest
    rw [hsuffix]
    have hreach := h.resumable history rest hnewest
    exact ⟨hreach.1, hreach.2.trans (suffix_cons item newer)⟩

theorem pass_update {item : RolloutItem} (h : Tracks items newer scan)
    (hitem : carriedHistory item = none) {update}
    (hupdate : ∀ segment, (update segment).baseReplacementHistory = segment.baseReplacementHistory)
    : Tracks items (item :: newer) (scan.updateSegment update) :=
  h.pass hitem rfl (by simp [knownBase, updateSegment, hupdate]) rfl

end Tracks

end ReplayScan

namespace ActiveReplaySegment
variable (segment : ActiveReplaySegment)

@[simp] theorem identify_base (turnId : Option Str) :
    (segment.identify turnId).baseReplacementHistory = segment.baseReplacementHistory := by
  unfold identify
  split_ifs <;> rfl

@[simp] theorem recordContext_base (context : TurnContextItem) :
    (segment.recordContext context).baseReplacementHistory = segment.baseReplacementHistory := by
  unfold recordContext
  dsimp only
  split_ifs <;> simp

end ActiveReplaySegment

namespace ReplayScan

namespace Tracks
variable {prims : Primitives} {items newer : List RolloutItem} {scan : ReplayScan}

/-- Finalizing the open segment settles its base and nothing else that is tracked. -/
theorem finalize {item : RolloutItem} {segment : ActiveReplaySegment}
    (h : Tracks items newer scan) (hitem : carriedHistory item = none)
    (hactive : scan.activeSegment = some segment) :
    Tracks items (item :: newer)
      (finalizeActiveSegment segment { scan with activeSegment := none }) := by
  apply h.pass hitem
  · simp [finalizeActiveSegment, h.pending]
  · simp [finalizeActiveSegment, h.pending, knownBase, hactive]
  · simp [finalizeActiveSegment, h.pending]

theorem knownBase_compacted (scan : ReplayScan) (compacted : CompactedItem) :
    (scan.updateSegment (·.recordCompacted compacted)).knownBase =
      scan.knownBase.or compacted.replacementHistory := by
  simp [knownBase, updateSegment, ActiveReplaySegment.recordCompacted, Option.or_assoc]

/-- A base is known only from a history that was passed. -/
theorem exists_newest (h : Tracks items newer scan) (hknown : scan.knownBase ≠ none) :
    ∃ p, newest carriedHistory newer = some p := by
  rw [h.base] at hknown
  exact Option.ne_none_iff_exists'.mp fun hnone => hknown (by rw [hnone, Option.map_none])

/-- At a compaction with a history the suffix starts behind it, unless the open segment has met a
newer one. -/
theorem carry {compacted : CompactedItem} {replacement : List ResponseItem}
    (h : Tracks items newer scan) (hreplacement : compacted.replacementHistory = some replacement) :
    Tracks items (.compacted compacted :: newer)
      (scanItem prims newer scan (.compacted compacted)) := by
  have hnewest : newest carriedHistory (.compacted compacted :: newer) =
      (newest carriedHistory newer).or (some (replacement, newer)) := by
    simp [newest, carriedHistory, hreplacement]
  have hbase : (scan.updateSegment (·.recordCompacted compacted)).knownBase =
      (newest carriedHistory (.compacted compacted :: newer)).map Prod.fst := by
    rw [knownBase_compacted, h.base, hnewest, hreplacement]
    cases newest carriedHistory newer <;> rfl
  by_cases hopen : (scan.activeSegment.getD {}).baseReplacementHistory = none
  · rw [scanItem, if_pos ⟨hopen, by simp [hreplacement]⟩]
    refine ⟨h.pending, hbase, fun hnone => ?_, fun history rest hsome => ?_⟩
    · simp [hnewest] at hnone
    · rw [hnewest] at hsome
      refine ⟨?_, suffix_cons _ newer⟩
      cases hprevious : newest carriedHistory newer with
      | none =>
        rw [hprevious] at hsome
        cases hsome
        exact suffix_refl newer
      | some p =>
        rw [hprevious] at hsome
        cases hsome
        exact suffix_of_newest hprevious
  · rw [scanItem, if_neg fun hboth => hopen hboth.1]
    obtain ⟨p, hp⟩ := h.exists_newest (by simp [knownBase, hopen])
    refine ⟨h.pending, hbase, fun hnone => ?_, fun history rest hsome => ?_⟩
    · simp [hnewest] at hnone
    · rw [hnewest, hp] at hsome
      cases hsome
      have hreach := h.resumable history rest hp
      exact ⟨hreach.1, hreach.2.trans (suffix_cons _ newer)⟩

theorem scanItem {item : RolloutItem} (h : Tracks items newer scan)
    (hitem : isRollback item = false) :
    Tracks items (item :: newer) (scan.scanItem prims newer item) := by
  cases item with
  | sessionMeta => exact h.pass rfl rfl rfl rfl
  | responseItem item =>
    rw [ReplayScan.scanItem]
    apply h.pass_update rfl
    intro segment
    rfl
  | turnContext context =>
    rw [ReplayScan.scanItem]
    apply h.pass_update rfl
    intro segment
    exact segment.recordContext_base context
  | compacted compacted =>
    cases hreplacement : compacted.replacementHistory with
    | some replacement => exact h.carry hreplacement
    | none =>
      rw [ReplayScan.scanItem, if_neg (by simp [hreplacement])]
      have hbase := knownBase_compacted scan compacted
      rw [hreplacement, Option.or_none] at hbase
      exact h.pass hreplacement rfl hbase rfl
  | eventMsg event =>
    cases event with
    | threadRolledBack numTurns => cases hitem
    | turnComplete turnId completedAt durationMs =>
      rw [ReplayScan.scanItem]
      apply h.pass_update rfl
      intro segment
      exact segment.identify_base (some turnId)
    | turnAborted turnId completedAt durationMs =>
      rw [ReplayScan.scanItem]
      split_ifs
      · exact h.pass rfl rfl rfl rfl
      · apply h.pass_update rfl
        intro segment
        exact segment.identify_base turnId
    | userMessage message =>
      rw [ReplayScan.scanItem]
      apply h.pass_update rfl
      intro segment
      rfl
    | turnStarted turnId startedAt =>
      rw [ReplayScan.scanItem]
      cases hactive : scan.activeSegment with
      | none => exact h.pass rfl rfl rfl rfl
      | some segment =>
        dsimp only
        split_ifs
        · exact h.finalize rfl hactive
        · exact h.pass rfl rfl rfl rfl
    | _ => exact h.pass rfl rfl rfl rfl

variable {older : List RolloutItem}

/-- Once a base is known, what lies further back does not matter. -/
theorem reach (h : Tracks items newer scan)
    (hbase : scan.baseReplacementHistory ≠ none) : Tracks items (older ++ newer) scan := by
  obtain ⟨p, hp⟩ := h.exists_newest (by simp [knownBase, hbase])
  have hnewest : newest carriedHistory (older ++ newer) = some p := newest_append_of_eq_some hp
  refine ⟨h.pending, by rw [h.base, hp, hnewest], fun hnone => ?_, fun history rest hsome => ?_⟩
  · simp [hnewest] at hnone
  · rw [hnewest, ← hp] at hsome
    have hreach := h.resumable history rest hsome
    exact ⟨hreach.1, hreach.2.trans (suffix_append older newer)⟩

theorem scanBack (holder : ∀ item ∈ older, isRollback item = false) (h : Tracks items newer scan) :
    Tracks items (older.reverse ++ newer) (scanBack prims older newer scan) := by
  induction older generalizing newer scan with
  | nil => exact h
  | cons item older ih =>
    have hitem : Tracks items (item :: newer) (scan.scanItem prims newer item) :=
      h.scanItem (holder item mem_cons_self)
    rw [reverse_cons, append_assoc, scanBack]
    split_ifs with hcomplete
    · exact hitem.reach hcomplete.1
    · exact ih (fun i hi => holder i (mem_cons_of_mem _ hi)) hitem

theorem initial (items : List RolloutItem) : Tracks items [] { rolloutSuffix := items } where
  pending := rfl
  base := rfl
  whole _ := rfl
  resumable := by
    intro history rest hsome
    cases hsome

end Tracks

theorem close_base {scan : ReplayScan} (hpending : scan.pendingRollbackTurns = 0) :
    scan.close.baseReplacementHistory = scan.knownBase := by
  unfold close
  cases hactive : scan.activeSegment with
  | none => simp [knownBase, hactive]
  | some segment => simp [finalizeActiveSegment, hpending, knownBase, hactive]

theorem close_suffix (scan : ReplayScan) : scan.close.rolloutSuffix = scan.rolloutSuffix := by
  unfold close finalizeActiveSegment
  cases scan.activeSegment with
  | none => rfl
  | some segment =>
    dsimp only
    split_ifs <;> rfl

theorem scanItem_suffix (prims : Primitives) (newer : List RolloutItem) (scan : ReplayScan)
    (item : RolloutItem) :
    (scan.scanItem prims newer item).rolloutSuffix = scan.rolloutSuffix ∨
      (scan.scanItem prims newer item).rolloutSuffix = newer := by
  cases item with
  | compacted compacted =>
    rw [scanItem]
    split_ifs
    · exact .inr rfl
    · exact .inl rfl
  | eventMsg event =>
    cases event with
    | turnAborted turnId completedAt durationMs =>
      rw [scanItem]
      split_ifs <;> exact .inl rfl
    | turnStarted turnId startedAt =>
      left
      rw [scanItem]
      cases scan.activeSegment with
      | none => rfl
      | some segment =>
        dsimp only [finalizeActiveSegment]
        split_ifs <;> rfl
    | _ => exact .inl rfl
  | _ => exact .inl rfl

/-- Only items of the rollout are replayed. -/
theorem scanBack_suffix_subset (prims : Primitives) {items older newer : List RolloutItem}
    {scan : ReplayScan} (hitems : older ⊆ items) (hnewer : newer ⊆ items)
    (hsuffix : scan.rolloutSuffix ⊆ items) :
    (scanBack prims older newer scan).rolloutSuffix ⊆ items := by
  induction older generalizing newer scan with
  | nil => exact hsuffix
  | cons item older ih =>
    have hitem : (scan.scanItem prims newer item).rolloutSuffix ⊆ items := by
      rcases scanItem_suffix prims newer scan item with heq | heq <;> rw [heq] <;> assumption
    obtain ⟨hhead, htail⟩ := cons_subset.mp hitems
    rw [scanBack]
    split_ifs
    · exact hitem
    · exact ih htail (cons_subset.mpr ⟨hhead, hnewer⟩) hitem

end ReplayScan

theorem scanRollout_suffix_subset (prims : Primitives) (rolloutItems : List RolloutItem) :
    (scanRollout prims rolloutItems).rolloutSuffix ⊆ rolloutItems := by
  rw [scanRollout, close_suffix]
  apply scanBack_suffix_subset prims
  · exact reverse_subset.mpr (Subset.refl rolloutItems)
  · exact nil_subset rolloutItems
  · exact Subset.refl rolloutItems

namespace ReplayScan

variable {prims : Primitives} {policy : TruncationPolicy}

theorem replay_items (scan : ReplayScan)
    (h : ∀ item ∈ scan.rolloutSuffix, isRollback item = false) :
    (scan.replay prims policy).history.items =
      scan.rolloutSuffix.foldl (fullReplayItem prims policy)
        (scan.baseReplacementHistory.getD []) := by
  unfold replay
  rw [foldl_replayItem_items _ h]
  cases scan.baseReplacementHistory <;> rfl

/-- The suffix and the base that the scan chose replay to the history of the whole rollout. -/
theorem Tracks.fullReplay_eq {items : List RolloutItem} {scan : ReplayScan}
    (h : Tracks items items scan) :
    scan.rolloutSuffix.foldl (fullReplayItem prims policy) (scan.knownBase.getD []) =
      fullReplay prims policy items := by
  cases hnewest : newest carriedHistory items with
  | none => rw [h.whole hnewest, h.base, hnewest]; rfl
  | some p =>
    obtain ⟨history, rest⟩ := p
    obtain ⟨hrest, hsuffix⟩ := h.resumable history rest hnewest
    rw [h.base, hnewest]
    exact foldl_resume fullReplayItem_of_carried hnewest hrest hsuffix []

end ReplayScan

variable (prims : Primitives) (policy : TruncationPolicy)

/-- Without rollbacks, the lazily reconstructed history is the one of the full replay. -/
theorem reconstruct_history_eq_fullReplay (rolloutItems : List RolloutItem)
    (h : ∀ item ∈ rolloutItems, isRollback item = false) :
    (reconstructHistoryFromRollout prims policy rolloutItems).history =
      fullReplay prims policy rolloutItems := by
  have htracks : Tracks rolloutItems rolloutItems
      (scanBack prims rolloutItems.reverse [] { rolloutSuffix := rolloutItems }) := by
    have hscan : Tracks rolloutItems (rolloutItems.reverse.reverse ++ [])
        (scanBack prims rolloutItems.reverse [] { rolloutSuffix := rolloutItems }) :=
      (Tracks.initial rolloutItems).scanBack (by simpa using h)
    rwa [reverse_reverse, append_nil] at hscan
  have hbase := close_base htracks.pending
  rw [reconstructHistoryFromRollout, replay_items]
  · rw [scanRollout, close_suffix, hbase]
    exact htracks.fullReplay_eq
  · intro item hitem
    exact h item (scanRollout_suffix_subset prims rolloutItems hitem)

/-- A turn that is compacted in the middle and goes on. -/
def compactedTurn : List RolloutItem :=
  [.eventMsg (.turnStarted ['t'] none), .responseItem (userText ['a']),
   .compacted ⟨['s'], some [userText ['b']]⟩, .responseItem (userText ['c']),
   .eventMsg (.turnComplete ['t'] none none)]

theorem reconstruct_history_eq_fullReplay_compactedTurn :
    (∀ item ∈ compactedTurn, isRollback item = false) ∧
    (reconstructHistoryFromRollout .bare (.bytes 0) compactedTurn).history =
      fullReplay .bare (.bytes 0) compactedTurn ∧
    fullReplay .bare (.bytes 0) compactedTurn = [userText ['b'], userText ['c']] :=
  ⟨by decide, reconstruct_history_eq_fullReplay .bare (.bytes 0) compactedTurn (by decide),
    by decide +kernel⟩

end CodexRs.Core
