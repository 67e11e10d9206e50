import CodexRs.Core.TurnBlocks

/-!
# The metadata of a resumed session

Rollbacks pop turns off the stack of the turns so far, and the turns that are left give the
metadata.
-/
namespace CodexRs.Core
open Text Protocol Utils Checkpoint UndoStack List Option ReplayScan TurnBlock TurnReferenceContextItem

/-- The context of a turn, unless it names another turn. -/
def ownContext (id : Str) : RolloutItem → Option TurnContextItem
  | .turnContext context => if context.turnId.all (· = id) then some context else none
  | _ => none

/-- What establishes the baseline of a turn or clears it. -/
inductive Baseline where
  | context (context : TurnContextItem)
  | compaction
deriving DecidableEq

def baselineItem (id : Str) : RolloutItem → Option Baseline
  | .compacted _ => some .compaction
  | item => (ownContext id item).map .context

def PreviousTurnSettings.ofContext (context : TurnContextItem) : PreviousTurnSettings :=
  ⟨context.model, context.realtimeActive⟩

section
variable (prims : Primitives)

def marksUserTurn : RolloutItem → Bool
  | .eventMsg (.userMessage _) => true
  | .responseItem item => isUserTurnBoundary prims item
  | _ => false

end

namespace TurnBlock
variable (prims : Primitives) (block : TurnBlock)

def isUserTurn : Bool := block.body.any (marksUserTurn prims)

def contexts : List TurnContextItem := block.body.filterMap (ownContext block.id)

def baselines : List Baseline := block.body.filterMap (baselineItem block.id)

def establishesSettings : Bool := block.isUserTurn prims && !block.contexts.isEmpty

/-- The settings of the earliest context. -/
def settings : Option PreviousTurnSettings :=
  block.contexts.head?.map PreviousTurnSettings.ofContext

def decidesReference : Bool :=
  if block.isUserTurn prims then !block.baselines.isEmpty
  else block.baselines.getLast? = some .compaction

/-- The last context if no compaction comes after it. -/
def reference : Option TurnContextItem :=
  match block.baselines.getLast? with
  | some (.context context) => some context
  | _ => none

end TurnBlock

section
variable (prims : Primitives)

/-- The turns that no rollback has dropped, newest first. -/
def survivingTurns (parts : List (RolloutPart TurnBlock)) : List TurnBlock :=
  survivors (isUserTurn prims) (parts.map RolloutPart.entry)

end

namespace TurnReferenceContextItem

/-- A baseline that is known to be absent differs from one that is not known. -/
def known : TurnReferenceContextItem → Option (Option TurnContextItem)
  | .neverSet => none
  | .cleared => some none
  | .latest context => some (some context)

def ofBaseline : Option Baseline → TurnReferenceContextItem
  | none => .neverSet
  | some .compaction => .cleared
  | some (.context context) => .latest context

theorem toOption_eq_join_known (reference : TurnReferenceContextItem) :
    reference.toOption = reference.known.join := by
  cases reference <;> rfl

theorem known_eq_none {reference : TurnReferenceContextItem} :
    reference.known = none ↔ reference = .neverSet := by
  cases reference <;> simp [known]

end TurnReferenceContextItem

section

/-- What the segment of a turn says about the items of the turn that were scanned so far. -/
structure Summarizes (prims : Primitives) (id : Str) (body : List RolloutItem)
    (segment : ActiveReplaySegment) : Prop where
  turnId : segment.turnId = some id
  counts : segment.countsAsUserTurn = body.any (marksUserTurn prims)
  settings : segment.previousTurnSettings =
    (body.filterMap (ownContext id)).head?.map PreviousTurnSettings.ofContext
  reference : segment.referenceContextItem =
    .ofBaseline (body.filterMap (baselineItem id)).getLast?

variable {prims : Primitives} {id : Str} {body : List RolloutItem} {segment : ActiveReplaySegment}

/-- The newest baseline stays, and an older one counts only if there is no newer one. -/
theorem ofBaseline_getLast?_cons (baseline : Baseline) (baselines : List Baseline) :
    ofBaseline (baseline :: baselines).getLast? =
      if ofBaseline baselines.getLast? = .neverSet then
        .ofBaseline (some baseline)
      else .ofBaseline baselines.getLast? := by
  rw [getLast?_cons]
  cases baselines.getLast? with
  | none => rfl
  | some newest => cases newest <;> rfl

/-- An item that is neither a context nor a compaction leaves the metadata alone. -/
theorem Summarizes.skip {item : RolloutItem} {segment' : ActiveReplaySegment}
    (h : Summarizes prims id body segment)
    (hcontext : ownContext id item = none) (hbaseline : baselineItem id item = none)
    (hturn : segment'.turnId = segment.turnId)
    (hcounts : segment'.countsAsUserTurn = (marksUserTurn prims item || segment.countsAsUserTurn))
    (hsettings : segment'.previousTurnSettings = segment.previousTurnSettings)
    (hreference : segment'.referenceContextItem = segment.referenceContextItem) :
    Summarizes prims id (item :: body) segment' where
  turnId := hturn.trans h.turnId
  counts := by rw [hcounts, h.counts, any_cons]
  settings := by rw [hsettings, h.settings, filterMap_cons_none hcontext]
  reference := by rw [hreference, h.reference, filterMap_cons_none hbaseline]

theorem Summarizes.absorb (h : Summarizes prims id body segment) (item : RolloutItem) :
    Summarizes prims id (item :: body) (segment.absorb prims item) := by
  cases item with
  | compacted compacted =>
    have hbaseline : baselineItem id (.compacted compacted) = some .compaction := rfl
    refine ⟨h.turnId, h.counts, h.settings, ?_⟩
    rw [filterMap_cons_some hbaseline, ofBaseline_getLast?_cons, ← h.reference]
    rfl
  | turnContext context =>
    rw [ActiveReplaySegment.absorb, ActiveReplaySegment.recordContext_of_turnId h.turnId]
    by_cases hown : context.turnId.all (· = id) = true
    · have hcontext : ownContext id (.turnContext context) = some context := if_pos hown
      have hbaseline : baselineItem id (.turnContext context) = some (.context context) := by
        simp [baselineItem, hcontext]
      rw [if_pos hown]
      refine ⟨h.turnId, h.counts, ?_, ?_⟩
      · rw [filterMap_cons_some hcontext]
        rfl
      · rw [filterMap_cons_some hbaseline, ofBaseline_getLast?_cons, ← h.reference]
        rfl
    · have hcontext : ownContext id (.turnContext context) = none := if_neg hown
      have hbaseline : baselineItem id (.turnContext context) = none := by
        simp [baselineItem, hcontext]
      rw [if_neg hown]
      exact h.skip hcontext hbaseline rfl (Bool.false_or _).symm rfl rfl
  | responseItem item => exact h.skip rfl rfl rfl (Bool.or_comm _ _) rfl rfl
  | sessionMeta => exact h.skip rfl rfl rfl (Bool.false_or _).symm rfl rfl
  | eventMsg event =>
    cases event with
    | userMessage message => exact h.skip rfl rfl rfl (Bool.true_or _).symm rfl rfl
    | _ => exact h.skip rfl rfl rfl (Bool.false_or _).symm rfl rfl

theorem foldr_absorb_summarizes (body : List RolloutItem) : Summarizes prims id body
      (body.foldr (ActiveReplaySegment.absorb prims) { turnId := some id }) := by
  induction body with
  | nil => exact ⟨rfl, rfl, rfl, rfl⟩
  | cons item body ih => exact ih.absorb item

variable (prims) (block : TurnBlock)

theorem segment_counts : (block.segment prims).countsAsUserTurn = block.isUserTurn prims :=
  (foldr_absorb_summarizes block.body).counts

theorem segment_settings : (block.segment prims).previousTurnSettings = block.settings :=
  (foldr_absorb_summarizes block.body).settings

theorem segment_reference :
    (block.segment prims).referenceContextItem = .ofBaseline block.baselines.getLast? :=
  (foldr_absorb_summarizes block.body).reference

end

section
variable (prims : Primitives) (turns : List TurnBlock)

/-- What turns say about the settings, the newest first. -/
def settingsOf : Option PreviousTurnSettings :=
  (turns.find? (establishesSettings prims)).bind settings

/-- What turns say about the baseline, the newest first; it may be known to be absent. -/
def referenceOf : Option (Option TurnContextItem) :=
  (turns.find? (decidesReference prims)).map reference

theorem settingsOf_cons (block : TurnBlock) (older : List TurnBlock) :
    settingsOf prims (block :: older) =
      (if block.isUserTurn prims then block.settings else none).or (settingsOf prims older) := by
  cases huser : block.isUserTurn prims <;> cases hcontexts : block.contexts <;>
    simp [settingsOf, establishesSettings, settings, huser, hcontexts]

theorem referenceOf_cons (block : TurnBlock) (older : List TurnBlock) :
    referenceOf prims (block :: older) =
      (if block.decidesReference prims then some block.reference else none).or
        (referenceOf prims older) := by
  cases hdecides : block.decidesReference prims <;> simp [referenceOf, hdecides]

theorem known_ofBaseline (block : TurnBlock) (h : block.decidesReference prims = true) :
    (ofBaseline block.baselines.getLast?).known = some block.reference := by
  unfold reference
  cases hlast : block.baselines.getLast? with
  | none =>
    rw [getLast?_eq_none_iff] at hlast
    simp [decidesReference, hlast] at h
  | some baseline => cases baseline <;> rfl

/-- A user turn without a baseline, and a turn of another kind whose last baseline is not a
compaction, decide nothing. -/
theorem decidesReference_iff (block : TurnBlock) :
    block.decidesReference prims = true ↔ ofBaseline block.baselines.getLast? ≠ .neverSet ∧
      (block.isUserTurn prims = true ∨ ofBaseline block.baselines.getLast? = .cleared) := by
  unfold decidesReference
  cases hlast : block.baselines.getLast? with
  | none =>
    rw [getLast?_eq_none_iff] at hlast
    simp [hlast, ofBaseline]
  | some baseline =>
    have hne : block.baselines ≠ [] := by
      intro hnil
      simp [hnil] at hlast
    cases baseline <;> simp [hne, ofBaseline]

variable {scan : ReplayScan} (block : TurnBlock)

theorem finalize_settings (hpending : scan.pendingRollbackTurns = 0) :
    (finalizeActiveSegment (block.segment prims) scan).previousTurnSettings =
      scan.previousTurnSettings.or (if block.isUserTurn prims then block.settings else none) := by
  simp only [finalizeActiveSegment, hpending, segment_counts, segment_settings]
  cases scan.previousTurnSettings <;> simp

theorem finalize_reference (hpending : scan.pendingRollbackTurns = 0) :
    (finalizeActiveSegment (block.segment prims) scan).referenceContextItem.known =
      scan.referenceContextItem.known.or
        (if block.decidesReference prims then some block.reference else none) := by
  simp only [finalizeActiveSegment, hpending, segment_counts, segment_reference,
    Nat.lt_irrefl, if_false]
  cases hreference : scan.referenceContextItem with
  | neverSet =>
    by_cases hdecides : block.decidesReference prims = true
    · have hboth := (decidesReference_iff prims block).mp hdecides
      rw [if_pos ⟨rfl, hboth.2⟩, if_pos hdecides, known_ofBaseline prims block hdecides]
      rfl
    · rw [if_neg hdecides]
      by_cases hsegment : block.isUserTurn prims = true ∨
          ofBaseline block.baselines.getLast? = .cleared
      · have hnever : ofBaseline block.baselines.getLast? = .neverSet := by
          by_contra hset
          exact hdecides ((decidesReference_iff prims block).mpr ⟨hset, hsegment⟩)
        simp [hnever]
      · simp [hsegment]
  | cleared => simp [known]
  | latest context => simp [known]

variable (segment : ActiveReplaySegment)

theorem finalize_active :
    (finalizeActiveSegment segment scan).activeSegment = scan.activeSegment := by
  unfold finalizeActiveSegment
  split_ifs <;> rfl

theorem finalize_pending_zero (hpending : scan.pendingRollbackTurns = 0) :
    (finalizeActiveSegment segment scan).pendingRollbackTurns = 0 := by
  simp [finalizeActiveSegment, hpending]

/-- A turn that a pending rollback drops. -/
theorem finalize_pending_succ {pending : ℕ} (hpending : scan.pendingRollbackTurns = pending + 1) :
    finalizeActiveSegment (block.segment prims) scan = { scan with
        pendingRollbackTurns := if block.isUserTurn prims then pending else pending + 1 } := by
  rw [finalizeActiveSegment, segment_counts, if_pos (by omega)]
  split_ifs
  · rw [hpending, Nat.add_sub_cancel]
  · rw [← hpending]

/-- A later state of the scan has the metadata of the earlier one, and for the rest that of
the turns that were kept in between. -/
structure Settled (kept : List TurnBlock) (scan final : ReplayScan) : Prop where
  closed : final.activeSegment = none
  settings : final.previousTurnSettings =
    scan.previousTurnSettings.or (settingsOf prims kept)
  reference : final.referenceContextItem.known =
    scan.referenceContextItem.known.or (referenceOf prims kept)

theorem Settled.refl (hactive : scan.activeSegment = none) : Settled prims [] scan scan :=
  ⟨hactive, or_none.symm, or_none.symm⟩

/-- Nothing older changes what is complete. -/
theorem Settled.of_complete (kept : List TurnBlock) (hactive : scan.activeSegment = none)
    (hcomplete : scan.Complete) : Settled prims kept scan scan := by
  obtain ⟨-, hsettings, hreference⟩ := hcomplete
  obtain ⟨settings, hsettings⟩ := ne_none_iff_exists'.mp hsettings
  obtain ⟨reference, hreference⟩ := ne_none_iff_exists'.mp
    (mt known_eq_none.mp hreference)
  refine ⟨hactive, ?_, ?_⟩
  · rw [hsettings, some_or]
  · rw [hreference, some_or]

variable {scan' final : ReplayScan} {kept : List TurnBlock}

variable {prims} in
theorem Settled.cons (h : Settled prims kept scan' final) (hsettings : scan'.previousTurnSettings =
      scan.previousTurnSettings.or (if block.isUserTurn prims then block.settings else none))
    (hreference : scan'.referenceContextItem.known = scan.referenceContextItem.known.or
        (if block.decidesReference prims then some block.reference else none)) :
    Settled prims (block :: kept) scan final where
  closed := h.closed
  settings := by rw [h.settings, hsettings, settingsOf_cons, Option.or_assoc]
  reference := by rw [h.reference, hreference, referenceOf_cons, Option.or_assoc]

variable {prims} in
theorem Settled.of_metadata (h : Settled prims kept scan' final)
    (hsettings : scan'.previousTurnSettings = scan.previousTurnSettings)
    (hreference : scan'.referenceContextItem = scan.referenceContextItem) :
    Settled prims kept scan final :=
  ⟨h.closed, hsettings ▸ h.settings, hreference ▸ h.reference⟩

/-- A turn between rollbacks: kept if none is pending, dropped otherwise. -/
theorem scanBack_turn_settled {older newer : List RolloutItem} {entries : List (Entry TurnBlock)}
    (hactive : scan.activeSegment = none) (hopen : ¬ scan.Complete)
    (holder : ∀ scan' : ReplayScan, scan'.activeSegment = none → ¬ scan'.Complete →
      Settled prims (keep (isUserTurn prims) scan'.pendingRollbackTurns entries) scan'
        (scanBack prims older (block.items ++ newer) scan')) :
    Settled prims (keep (isUserTurn prims) scan.pendingRollbackTurns (.push block :: entries)) scan
      (scanBack prims (block.items.reverse ++ older) newer scan) := by
  rw [scanBack_turn block older hactive hopen]
  set behind : ReplayScan := { scan with rolloutSuffix := _ }
  have hactive' : (finalizeActiveSegment (block.segment prims) behind).activeSegment = none := by
    rw [finalize_active]
    exact hactive
  refine Settled.of_metadata (?_ : Settled prims _ behind _) rfl rfl
  cases hpending : scan.pendingRollbackTurns with
  | zero =>
    have hzero : behind.pendingRollbackTurns = 0 := hpending
    have hrest := holder _ hactive'
    rw [finalize_pending_zero (block.segment prims) hzero] at hrest
    apply Settled.cons block _ (finalize_settings prims block hzero)
      (finalize_reference prims block hzero)
    dsimp only
    split_ifs with hcomplete
    · exact .of_complete prims _ hactive' hcomplete
    · exact hrest hcomplete
  | succ pending =>
    have hsucc : behind.pendingRollbackTurns = pending + 1 := hpending
    have hdropped := finalize_pending_succ prims block hsucc
    have hrest := holder _ hactive' (by rw [hdropped]; exact hopen)
    rw [hdropped] at hrest ⊢
    rw [if_neg (by exact hopen)]
    exact hrest.of_metadata rfl rfl

variable (parts : List (RolloutPart TurnBlock))

/-- The scan of the parts of a rollout, newest first, takes the metadata from the turns that
the rollbacks leave. -/
theorem scanBack_settled (scan : ReplayScan) (newer : List RolloutItem)
    (hactive : scan.activeSegment = none) (hopen : ¬ scan.Complete) :
    Settled prims (keep (isUserTurn prims) scan.pendingRollbackTurns (parts.map RolloutPart.entry))
      scan (scanBack prims (parts.flatMap (·.items.reverse)) newer scan) := by
  induction parts generalizing newer scan with
  | nil => exact .refl prims hactive
  | cons part parts ih =>
    rw [flatMap_cons, map_cons]
    cases part with
    | rolledBack numTurns =>
      rw [RolloutPart.items, reverse_singleton, singleton_append,
        scanBack_rolledBack numTurns _ hopen, RolloutPart.entry]
      have hrest := ih
        { scan with pendingRollbackTurns := scan.pendingRollbackTurns + numTurns.toNat }
        (.eventMsg (.threadRolledBack numTurns) :: newer) hactive hopen
      exact hrest.of_metadata rfl rfl
    | turn block =>
      exact scanBack_turn_settled prims block hactive hopen fun scan' => ih scan' _

theorem scanRollout_settled :
    Settled prims (survivingTurns prims parts) { rolloutSuffix := partItems parts }
      (scanRollout prims (partItems parts)) := by
  have hscan := scanBack_settled prims parts.reverse { rolloutSuffix := partItems parts } []
    rfl (by simp [Complete])
  rw [map_reverse, keep_zero_reverse] at hscan
  have hitems : (partItems parts).reverse = parts.reverse.flatMap (·.items.reverse) := by
    rw [partItems, reverse_flatMap]
    rfl
  have hclosed := hscan.closed
  rw [← hitems] at hscan hclosed
  rw [scanRollout, close, hclosed]
  exact hscan

end

section
variable {prims : Primitives} {policy : TruncationPolicy}

theorem replayItem_legacy (replay : Replay) {item : RolloutItem}
    (h : isLegacyCompaction item = false) :
    (replayItem prims policy replay item).sawLegacyCompactionWithoutReplacementHistory =
      replay.sawLegacyCompactionWithoutReplacementHistory := by
  cases item with
  | compacted compacted =>
    obtain ⟨message, _ | replacement⟩ := compacted
    · cases h
    · rfl
  | eventMsg event => cases event <;> rfl
  | _ => rfl

theorem foldl_replayItem_legacy {items : List RolloutItem} (h : CarriesHistories items)
    (replay : Replay) :
    (items.foldl (replayItem prims policy) replay).sawLegacyCompactionWithoutReplacementHistory =
      replay.sawLegacyCompactionWithoutReplacementHistory := by
  induction items generalizing replay with
  | nil => rfl
  | cons item items ih =>
    rw [foldl_cons, ih fun i hi => h i (mem_cons_of_mem _ hi),
      replayItem_legacy replay (h item mem_cons_self)]

theorem reconstruct_reference {rolloutItems : List RolloutItem}
    (h : CarriesHistories rolloutItems) :
    (reconstructHistoryFromRollout prims policy rolloutItems).referenceContextItem =
      (scanRollout prims rolloutItems).referenceContextItem.known.join := by
  have hsuffix : CarriesHistories (scanRollout prims rolloutItems).rolloutSuffix :=
    fun item hitem => h item (scanRollout_suffix_subset prims rolloutItems hitem)
  rw [← toOption_eq_join_known]
  simp [reconstructHistoryFromRollout, replay, foldl_replayItem_legacy hsuffix]

end

/-- The metadata of a resumed session comes from the newest surviving turns that have it. -/
theorem resume_metadata (prims : Primitives) (policy : TruncationPolicy)
    (parts : List (RolloutPart TurnBlock)) (hcarries : CarriesHistories (partItems parts)) :
    (reconstructHistoryFromRollout prims policy (partItems parts)).previousTurnSettings =
      ((survivingTurns prims parts).find? (TurnBlock.establishesSettings prims)).bind
        TurnBlock.settings ∧
    (reconstructHistoryFromRollout prims policy (partItems parts)).referenceContextItem =
      ((survivingTurns prims parts).find? (TurnBlock.decidesReference prims)).bind
        TurnBlock.reference := by
  have hsettled := scanRollout_settled prims parts
  constructor
  · exact hsettled.settings
  · rw [reconstruct_reference hcarries, hsettled.reference]
    rw [referenceOf]
    cases (survivingTurns prims parts).find? (decidesReference prims) <;> rfl

/-- A turn of the user with a context. -/
def userTurn (id contextId model : Str) : TurnBlock where
  id := id
  body := [.turnContext ⟨some contextId, model, none⟩,
    .eventMsg (.userMessage ⟨['h', 'i'], none, [], []⟩)]
  turnItems := forall_mem_cons.mpr ⟨rfl, forall_mem_singleton.mpr rfl⟩

def rolledBackTurn : List (RolloutPart TurnBlock) :=
  [.turn (userTurn ['a'] ['a'] ['m']), .turn (userTurn ['b'] ['b'] ['n']), .rolledBack 1]

theorem resume_metadata_rolledBackTurn :
    CarriesHistories (partItems rolledBackTurn) ∧
    ((reconstructHistoryFromRollout .bare (.bytes 0) (partItems rolledBackTurn)).previousTurnSettings =
        ((survivingTurns .bare rolledBackTurn).find? (TurnBlock.establishesSettings .bare)).bind
          TurnBlock.settings ∧
      (reconstructHistoryFromRollout .bare (.bytes 0)
          (partItems rolledBackTurn)).referenceContextItem =
        ((survivingTurns .bare rolledBackTurn).find? (TurnBlock.decidesReference .bare)).bind
          TurnBlock.reference) ∧
    (survivingTurns .bare rolledBackTurn).map TurnBlock.id = [['a']] :=
  ⟨by decide, resume_metadata .bare (.bytes 0) rolledBackTurn (by decide), by decide +kernel⟩

/-- The only context of the only turn names another turn, and is passed over. -/
theorem context_of_other_turn_ignored :
    partItems [.turn (userTurn ['a'] ['z'] ['m'])] =
      [.eventMsg (.turnStarted ['a'] none), .turnContext ⟨some ['z'], ['m'], none⟩,
        .eventMsg (.userMessage ⟨['h', 'i'], none, [], []⟩),
        .eventMsg (.turnComplete ['a'] none none)] ∧
    (reconstructHistoryFromRollout .bare (.bytes 0)
      (partItems [.turn (userTurn ['a'] ['z'] ['m'])])).previousTurnSettings = none ∧
    (reconstructHistoryFromRollout .bare (.bytes 0)
      (partItems [.turn (userTurn ['a'] ['z'] ['m'])])).referenceContextItem = none := by
  decide +kernel

end CodexRs.Core
