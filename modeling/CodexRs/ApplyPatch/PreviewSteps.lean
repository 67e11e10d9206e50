import CodexRs.ApplyPatch.Invocation
import CodexRs.Library.Overlay

/-!
# Hunks as steps on a map of files

On every lawful file system a hunk that is applied acts on the map of texts as the step
below, and a hunk that is previewed shows the change of that step.
-/
namespace CodexRs.ApplyPatch
open Text Files Overlay Option Hunk

/-- What a hunk does to which files, resolved, without the contents. -/
def Hunk.act (home : Option Str) (cwd : AbsolutePathBuf) (hunk : Hunk) : Act AbsolutePathBuf :=
  match hunk with
  | .addFile path _ => .put (.resolvePathAgainstBase home path cwd)
  | .deleteFile path => .del (.resolvePathAgainstBase home path cwd)
  | .updateFile path movePath _ =>
    .edit (.resolvePathAgainstBase home path cwd)
      (movePath.map (.resolvePathAgainstBase home · cwd))

def Hunk.step (home : Option Str) (cwd : AbsolutePathBuf) (hunk : Hunk) :
    Step AbsolutePathBuf Str :=
  let path := hunk.resolvePath home cwd
  match hunk with
  | .addFile _ contents => .put path contents
  | .deleteFile _ => .del path
  | .updateFile _ movePath chunks =>
    .edit path (movePath.map (.resolvePathAgainstBase home · cwd)) fun text =>
      (newText text path.display chunks).toOption

def ApplyPatchFileChange.change : ApplyPatchFileChange → Change AbsolutePathBuf Str
  | .add content => .put content
  | .delete _ => .del
  | .update _ movePath newContent => .edit movePath newContent

variable (changes : ChangeMap)

def ChangeMap.view : AbsolutePathBuf → Option (Change AbsolutePathBuf Str) :=
  fun path => (changes.lookup path).map ApplyPatchFileChange.change

theorem Hunk.act_step (home : Option Str) (cwd : AbsolutePathBuf) (hunk : Hunk) :
    (hunk.step home cwd).act = hunk.act home cwd := by
  cases hunk <;> rfl

theorem Hunk.source_step (home : Option Str) (cwd : AbsolutePathBuf) (hunk : Hunk) :
    (hunk.step home cwd).source = hunk.resolvePath home cwd := by
  cases hunk <;> rfl

theorem ChangeMap.view_insert (path : AbsolutePathBuf) (change : ApplyPatchFileChange) :
    ChangeMap.view (changes.insert path change) =
      Function.update changes.view path (some change.change) := by
  funext q
  by_cases h : q = path
  · subst q
    simp [ChangeMap.view]
  · rw [Function.update_of_ne h, ChangeMap.view, AList.lookup_insert_ne h]
    rfl

section
variable {σ : Type*} {fs : ExecutorFileSystem σ} {view : σ → FileView} {home : Option Str}
  {cwd path : AbsolutePathBuf} {s t : σ}

variable (hfs : fs.Lawful view)
include hfs

theorem view_createParent {r : Except IoError Unit}
    (h : createParent fs path s = (r, t)) : view t = view s := by
  unfold createParent at h
  cases hp : path.parent with
  | none =>
    rw [hp] at h
    cases h
    rfl
  | some parent =>
    rw [hp] at h
    exact hfs.createDirectory parent s r t h

theorem view_writeFileWithMissingParentRetry {contents : Str}
    (h : writeFileWithMissingParentRetry fs path contents s = (.ok (), t)) :
    view t = Function.update (view s) path (some contents) := by
  unfold writeFileWithMissingParentRetry at h
  rcases hw : fs.writeFile path contents s with ⟨e | _, s₁⟩
  · have hs₁ := hfs.write_error path contents s e s₁ hw
    by_cases he : e.kind = .notFound
    · rcases hp : createParent fs path s₁ with ⟨e₂ | _, s₂⟩
      · simp [hw, he, hp] at h
      · rcases hw₂ : fs.writeFile path contents s₂ with ⟨e₃ | _, s₃⟩
        · simp [hw, he, hp, hw₂] at h
        · simp only [hw, he, hp, hw₂, if_true, Prod.mk.injEq, true_and] at h
          rw [← h, hfs.write_ok path contents s₂ s₃ hw₂, view_createParent hfs hp, hs₁]
    · simp [hw, he] at h
  · simp only [hw, Prod.mk.injEq, true_and] at h
    rw [← h]
    exact hfs.write_ok path contents s s₁ hw

theorem view_removeFile (h : removeFile fs path s = (.ok (), t)) :
    (view s path).isSome ∧ view t = Function.update (view s) path none := by
  unfold removeFile at h
  cases hm : fs.getMetadata path s with
  | error e => simp [hm] at h
  | ok metadata =>
    cases hd : metadata.isDirectory with
    | true => simp [hm, hd] at h
    | false =>
      simp only [hm, hd] at h
      exact hfs.remove_ok path s t h

theorem bind_newText (path : AbsolutePathBuf) (chunks : List UpdateFileChunk) (s : σ) :
    ((view s path).bind fun text => (newText text path.display chunks).toOption) =
      (deriveNewContentsFromChunks fs path chunks s).toOption.map AppliedPatch.newContents := by
  rw [← hfs.toOption_read, deriveNewContentsFromChunks]
  cases fs.readFileText path s with
  | error e => rfl
  | ok original =>
    simp only [Except.toOption, bind_some]
    cases newText original path.display chunks <;> rfl

theorem view_applyUpdate {dest : Option AbsolutePathBuf}
    {chunks : List UpdateFileChunk} (h : applyUpdate fs path dest chunks s = (.ok (), t)) :
    (Step.edit path dest fun text => (newText text path.display chunks).toOption).run (view s) =
      some (view t) := by
  unfold applyUpdate at h
  cases hd : deriveNewContentsFromChunks fs path chunks s with
  | error e => simp [hd] at h
  | ok applied =>
    rw [Step.run, Step.change, bind_newText hfs, hd]
    cases dest with
    | none =>
      rcases hw : fs.writeFile path applied.newContents s with ⟨e | _, s₁⟩
      · simp [hd, hw] at h
      · simp only [hd, hw, Prod.mk.injEq, true_and] at h
        rw [← h, hfs.write_ok _ _ _ _ hw]
        rfl
    | some dest =>
      rcases hw : writeFileWithMissingParentRetry fs dest applied.newContents s with ⟨e | _, s₁⟩
      · simp [hd, hw] at h
      · rcases hr : removeFile fs path s₁ with ⟨e | _, s₂⟩
        · simp [hd, hw, hr] at h
        · simp only [hd, hw, hr, Prod.mk.injEq, true_and] at h
          rw [← h, (view_removeFile hfs hr).2, view_writeFileWithMissingParentRetry hfs hw]
          rfl

/-- A hunk that is applied acts on the map of texts as its step. -/
theorem applyHunk_step {hunk : Hunk} (h : applyHunk fs home cwd hunk s = (.ok (), t)) :
    (hunk.step home cwd).run (view s) = some (view t) := by
  cases hunk with
  | addFile path contents =>
    rw [view_writeFileWithMissingParentRetry hfs h]
    rfl
  | deleteFile path =>
    simp only [applyHunk, applyDelete] at h
    rcases hr : removeFile fs ((deleteFile path).resolvePath home cwd) s with ⟨e | _, s₁⟩
    · simp [hr] at h
    · simp only [hr, Prod.mk.injEq, true_and] at h
      obtain ⟨hsome, hview⟩ := view_removeFile hfs hr
      obtain ⟨text, htext⟩ := isSome_iff_exists.mp hsome
      rw [← h, hview]
      simp only [step, Step.run, Step.change, htext]
      rfl
  | updateFile path movePath chunks => exact view_applyUpdate hfs h

theorem applyHunks_run {hunks : List Hunk} {before after : AffectedPaths}
    (h : applyHunks fs home cwd before s hunks = (.ok after, t)) :
    run (view s) (hunks.map (step home cwd)) = some (view t) := by
  induction hunks generalizing before s with
  | nil =>
    cases h
    rfl
  | cons hunk hunks ih =>
    unfold applyHunks at h
    rcases ha : applyHunk fs home cwd hunk s with ⟨e | _, s₁⟩
    · simp [ha] at h
    · simp only [ha] at h
      rw [List.map_cons, run, List.foldlM_cons, applyHunk_step hfs ha]
      exact ih h

theorem applyHunksToFiles_run {hunks : List Hunk} {affected : AffectedPaths}
    (h : applyHunksToFiles fs home cwd hunks s = (.ok affected, t)) :
    run (view s) (hunks.map (step home cwd)) = some (view t) := by
  unfold applyHunksToFiles at h
  split_ifs at h
  · cases h
  · exact applyHunks_run hfs h

variable (diff : Str → Str → Str)

/-- A hunk can be previewed when its step has a change, and shows that change. -/
theorem change_step (hunk : Hunk) : (hunk.step home cwd).change (view s) =
      (previewHunk diff fs home cwd s hunk).toOption.map ApplyPatchFileChange.change := by
  cases hunk with
  | addFile path contents => rfl
  | deleteFile path =>
    simp only [step, Step.change, previewHunk, ← hfs.toOption_read]
    cases fs.readFileText ((deleteFile path).resolvePath home cwd) s <;> rfl
  | updateFile path movePath chunks =>
    simp only [step, Step.change, bind_newText hfs, previewHunk, unifiedDiffFromChunks]
    cases deriveNewContentsFromChunks fs
      ((updateFile path movePath chunks).resolvePath home cwd) chunks s <;> rfl

theorem foldlM_record_previewHunks (hunks : List Hunk) (changes : ChangeMap) :
    (hunks.map (step home cwd)).foldlM (Step.record (view s)) changes.view =
      (previewHunks diff fs home cwd s changes hunks).toOption.map ChangeMap.view := by
  induction hunks generalizing changes with
  | nil => rfl
  | cons hunk hunks ih =>
    rw [List.map_cons, List.foldlM_cons, Step.record, change_step hfs diff, source_step,
      previewHunks]
    cases previewHunk diff fs home cwd s hunk with
    | error e => rfl
    | ok change =>
      simp only [Except.toOption, map_some, bind_eq_bind, bind_some]
      rw [← ChangeMap.view_insert, ih]
      rfl

/-- The changes that are shown are the preview of the steps. -/
theorem preview_steps (hunks : List Hunk) : preview (view s) (hunks.map (step home cwd)) =
      (previewHunks diff fs home cwd s ∅ hunks).toOption.map ChangeMap.view :=
  foldlM_record_previewHunks hfs diff hunks ∅

end

variable {home : Option Str} {cwd : AbsolutePathBuf} {files : FileMap} {path : AbsolutePathBuf}

theorem removeFile_mapFileSystem {text : Str} (h : files.lookup path = some text) :
    removeFile mapFileSystem path files = (.ok (), files.erase path) := by
  simp [removeFile, mapFileSystem, h]

theorem exists_applyUpdate {chunks : List UpdateFileChunk} {new : Str}
    (dest : Option AbsolutePathBuf)
    (h : ((files.view path).bind fun text => (newText text path.display chunks).toOption) =
      some new) :
    ∃ t, applyUpdate mapFileSystem path dest chunks files = (.ok (), t) := by
  obtain ⟨text, htext, -⟩ := bind_eq_some_iff.mp h
  rw [bind_newText lawful_mapFileSystem] at h
  unfold applyUpdate
  cases hd : deriveNewContentsFromChunks mapFileSystem path chunks files with
  | error e => simp [hd, Except.toOption] at h
  | ok applied =>
    cases dest with
    | none => exact ⟨_, rfl⟩
    | some dest =>
      have hsource : ∃ text, (files.insert dest applied.newContents).lookup path = some text := by
        by_cases hp : path = dest
        · subst hp
          exact ⟨_, AList.lookup_insert _⟩
        · exact ⟨text, (AList.lookup_insert_ne hp).trans htext⟩
      obtain ⟨text', htext'⟩ := hsource
      have hwrite : writeFileWithMissingParentRetry mapFileSystem dest applied.newContents files =
          (.ok (), files.insert dest applied.newContents) := rfl
      simp only [hwrite, removeFile_mapFileSystem htext']
      exact ⟨_, rfl⟩

/-- On the plain map a hunk can be applied whenever its step has a change. -/
theorem exists_applyHunk {hunk : Hunk} {ch} (h : (hunk.step home cwd).change files.view = some ch) :
    ∃ t, applyHunk mapFileSystem home cwd hunk files = (.ok (), t) := by
  cases hunk with
  | addFile path contents => exact ⟨_, rfl⟩
  | deleteFile path =>
    obtain ⟨text, htext, -⟩ := map_eq_some_iff.mp h
    refine ⟨files.erase (resolvePath home cwd (.deleteFile path)), ?_⟩
    simp only [applyHunk, applyDelete, removeFile_mapFileSystem htext]
  | updateFile path movePath chunks =>
    obtain ⟨new, hnew, -⟩ := map_eq_some_iff.mp h
    exact exists_applyUpdate _ hnew

theorem exists_applyHunks {hunks : List Hunk} {m : FileView}
    (h : run files.view (hunks.map (step home cwd)) = some m) (before : AffectedPaths) :
    ∃ after t, applyHunks mapFileSystem home cwd before files hunks = (.ok after, t) := by
  induction hunks generalizing files before with
  | nil => exact ⟨before, files, rfl⟩
  | cons hunk hunks ih =>
    obtain ⟨ch, hch, hrest⟩ := run_cons h
    obtain ⟨t, ht⟩ := exists_applyHunk hch
    have hview : t.view = ch.write (hunk.step home cwd).source files.view := by
      have hrun := applyHunk_step lawful_mapFileSystem ht
      rw [Step.run, hch] at hrun
      exact (some_inj.mp hrun).symm
    rw [← hview] at hrest
    simp only [applyHunks, ht]
    exact ih hrest _

end CodexRs.ApplyPatch
