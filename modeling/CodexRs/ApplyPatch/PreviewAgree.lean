import CodexRs.ApplyPatch.MarkedPatch

/-!
# When a patch does what its preview shows

Whether the two agree for all contents depends only on which files the hunks name, and in which
order.
-/
namespace CodexRs.ApplyPatch
open Text Files Overlay FileMap MaybeApplyPatchVerified

/-- What the hunks of a patch do to which files. -/
def ApplyPatchArgs.plan (args : ApplyPatchArgs) (home : Option Str) (cwd : AbsolutePathBuf) :
    List (Act AbsolutePathBuf) :=
  args.hunks.map (Hunk.act home (effectiveCwd home cwd args.workdir))

/-- Where both succeed, the files are the initial ones overlaid with the previewed changes. -/
def PreviewAgrees {σ : Type*} (query : BashQuery) (diff : Str → Str → Str)
    (fs : ExecutorFileSystem σ) (view : σ → FileView) (home : Option Str) (cwd : AbsolutePathBuf)
    (argv : List Str) (s : σ) : Prop :=
  ∀ args action affected t, maybeParseApplyPatch query argv = .body args →
    maybeParseApplyPatchVerified query diff fs home cwd argv s = .body action →
    applyHunksToFiles fs home action.cwd args.hunks s = (.ok affected, t) →
    Overlaid (view s) action.changes.view (view t)

section
variable {σ : Type*} {query : BashQuery} {diff : Str → Str → Str} {fs : ExecutorFileSystem σ}
  {view : σ → FileView} {home : Option Str} {cwd : AbsolutePathBuf} {argv : List Str}
  {args : ApplyPatchArgs} {s : σ}

theorem verified_eq_body {action : ApplyPatchAction}
    (hargs : maybeParseApplyPatch query argv = .body args)
    (h : maybeParseApplyPatchVerified query diff fs home cwd argv s = .body action) :
    action.cwd = effectiveCwd home cwd args.workdir ∧
      previewHunks diff fs home action.cwd s ∅ args.hunks = .ok action.changes := by
  unfold maybeParseApplyPatchVerified at h
  split_ifs at h
  simp only [hargs] at h
  cases hp : previewHunks diff fs home (effectiveCwd home cwd args.workdir) s ∅ args.hunks with
  | error e => simp [hp] at h
  | ok changes =>
    simp only [hp, body.injEq] at h
    subst h
    exact ⟨rfl, hp⟩

theorem map_act_step (home : Option Str) (cwd : AbsolutePathBuf) (hunks : List Hunk) :
    (hunks.map (Hunk.step home cwd)).map Step.act = hunks.map (Hunk.act home cwd) := by
  rw [List.map_map]
  exact List.map_congr_left fun hunk _ => hunk.act_step home cwd

/-- A patch whose plan is safe, if it is feasible at all, does what its preview shows. -/
theorem previewAgrees_of_safe (hfs : fs.Lawful view)
    (hargs : maybeParseApplyPatch query argv = .body args)
    (hsafe : Feasible (args.plan home cwd) → Safe (args.plan home cwd)) :
    PreviewAgrees query diff fs view home cwd argv s := by
  intro args' action affected t hargs' hverified happly
  obtain rfl : args = args' := MaybeApplyPatch.body.inj (hargs.symm.trans hargs')
  obtain ⟨hcwd, hpreview⟩ := verified_eq_body hargs hverified
  have hrun := applyHunksToFiles_run hfs happly
  have hplan : (args.hunks.map (Hunk.step home action.cwd)).map Step.act = args.plan home cwd := by
    rw [map_act_step, hcwd]
    rfl
  have hchanges : preview (view s) (args.hunks.map (Hunk.step home action.cwd)) =
      some action.changes.view := by
    rw [preview_steps hfs diff, hpreview]
    rfl
  apply overlaid_of_safe _ hrun hchanges
  rw [hplan]
  apply hsafe
  rw [← hplan]
  exact feasible_of_run hrun

end

def groundMap (text : Str) : List AbsolutePathBuf → FileMap
  | [] => ∅
  | path :: paths => (groundMap text paths).insert path text

theorem view_groundMap (text : Str) (paths : List AbsolutePathBuf) :
    (groundMap text paths).view = ground text paths := by
  induction paths with
  | nil =>
    funext q
    simp [groundMap, view, ground]
  | cons path paths ih =>
    rw [groundMap, view_insert, ih]
    funext q
    by_cases h : q = path
    · subst q
      simp [ground]
    · simp [ground, h]

theorem isImplicitInvocation_direct (body : Str) :
    isImplicitInvocation ["apply_patch".toList, body] = false := rfl

theorem maybeParseApplyPatch_direct (query : BashQuery) {body : Str} {args : ApplyPatchArgs}
    (h : parsePatch body = .ok args) :
    maybeParseApplyPatch query ["apply_patch".toList, body] = .body args := by
  rw [maybeParseApplyPatch, if_pos (by decide), parseDirect, h]

/-- On the plain map a direct invocation is previewed and applied as its steps are. -/
theorem exists_direct (query : BashQuery) (diff : Str → Str → Str) {home : Option Str}
    {cwd : AbsolutePathBuf} {body patch : Str} {hunks : List Hunk} {files : FileMap} {m' : FileView}
    {changes} (hne : hunks ≠ []) (hparse : parsePatch body = .ok ⟨patch, hunks, none⟩)
    (hrun : run files.view (hunks.map (Hunk.step home cwd)) = some m')
    (hpreview : preview files.view (hunks.map (Hunk.step home cwd)) = some changes) :
    ∃ action affected t,
      maybeParseApplyPatchVerified query diff mapFileSystem home cwd ["apply_patch".toList, body]
        files = .body action ∧
      applyHunksToFiles mapFileSystem home action.cwd hunks files = (.ok affected, t) ∧
      action.changes.view = changes ∧ t.view = m' := by
  rw [preview_steps lawful_mapFileSystem diff] at hpreview
  obtain ⟨shown, hshown, rfl⟩ := Option.map_eq_some_iff.mp hpreview
  have hok : previewHunks diff mapFileSystem home cwd files ∅ hunks = .ok shown := by
    cases hp : previewHunks diff mapFileSystem home cwd files ∅ hunks with
    | error e => simp [hp, Except.toOption] at hshown
    | ok shown' => simpa [hp, Except.toOption] using hshown
  obtain ⟨affected, t, happly⟩ := exists_applyHunks hrun ⟨[], [], []⟩
  have happly' : applyHunksToFiles mapFileSystem home cwd hunks files = (.ok affected, t) := by
    rw [applyHunksToFiles, if_neg (by simpa using hne), happly]
  refine ⟨⟨shown, patch, cwd⟩, affected, t, ?_, happly', rfl, ?_⟩
  · rw [maybeParseApplyPatchVerified, isImplicitInvocation_direct,
      maybeParseApplyPatch_direct query hparse]
    simp only [Bool.false_eq_true, if_false, effectiveCwd, hok]
  · have hrun' := applyHunksToFiles_run lawful_mapFileSystem happly'
    exact Option.some_inj.mp (hrun'.symm.trans hrun)

/-- The preview agrees with the application exactly when the plan is safe or cannot be carried out.
-/
theorem previewAgrees_iff_safe (query : BashQuery) (diff : Str → Str → Str) (home : Option Str)
    (cwd : AbsolutePathBuf) {argv : List Str} {args : ApplyPatchArgs}
    (hargs : maybeParseApplyPatch query argv = .body args) :
    (∀ cwd' argv' args', maybeParseApplyPatch query argv' = .body args' →
      args'.plan home cwd' = args.plan home cwd →
      ∀ (σ : Type) (fs : ExecutorFileSystem σ) (view : σ → FileView), fs.Lawful view →
        ∀ s, PreviewAgrees query diff fs view home cwd' argv' s) ↔
      (Feasible (args.plan home cwd) → Safe (args.plan home cwd)) := by
  constructor
  · intro h hfeasible
    by_cases hempty : args.hunks = []
    · rw [ApplyPatchArgs.plan, hempty]
      trivial
    have hparse := parsePatch_markedDoc (headed_of_maybeParseApplyPatch hargs) 1
    have hargs' := maybeParseApplyPatch_direct query hparse
    have hne : (markedDoc 1 args.hunks).map HunkText.hunk ≠ [] := by
      cases hh : args.hunks with
      | nil => exact absurd hh hempty
      | cons hunk hunks => simp [markedDoc]
    apply safe_of_lifted markText_injective (lifts_markedDoc home _ 1 args.hunks) hfeasible
    rw [← view_groundMap]
    intro m' changes hrun hpreview
    obtain ⟨action, affected, t, hverified, happly, rfl, rfl⟩ :=
      exists_direct query diff hne hparse hrun hpreview
    exact h _ _ _ hargs' (act_markedDoc home _ 1 args.hunks) FileMap mapFileSystem view
      lawful_mapFileSystem _ _ action affected t hargs' hverified happly
  · intro hsafe cwd' argv' args' hargs' hplan σ fs view hfs s
    exact previewAgrees_of_safe hfs hargs' (hplan ▸ hsafe)

/-- No script is recognised. -/
def noScripts : BashQuery := fun _ => .ok []

def rootDir : AbsolutePathBuf := ⟨[], by simp⟩

def rootFile (name : String) : AbsolutePathBuf := .join none rootDir name.toList

/-- A patch that adds a file, deletes one, and renames one with an update. -/
def disjointArgv : List Str :=
  ["apply_patch".toList, renderText .plain
    [.addFile "a".toList "x\n".toList, .deleteFile "b".toList,
      .updateFile "c".toList (some "d".toList) [⟨none, [.remove ['u'], .add ['v']], false⟩]] true]

def disjointArgs : ApplyPatchArgs where
  patch := disjointArgv[1]!.dropLast
  hunks := [.addFile "a".toList "x\n".toList, .deleteFile "b".toList,
    .updateFile "c".toList (some "d".toList) [⟨none, [['u']], [['v']], false⟩]]
  workdir := none

def disjointFiles : FileMap :=
  ((∅ : FileMap).insert (rootFile "b") "w\n".toList).insert (rootFile "c") "u\n".toList

theorem previewAgrees_disjoint :
    maybeParseApplyPatch noScripts disjointArgv = .body disjointArgs ∧
      (applyHunksToFiles mapFileSystem none rootDir disjointArgs.hunks disjointFiles).1.isOk =
        true ∧
      PreviewAgrees noScripts (fun _ _ => []) mapFileSystem FileMap.view none rootDir disjointArgv
        disjointFiles := by
  have hargs : maybeParseApplyPatch noScripts disjointArgv = .body disjointArgs := by
    decide +kernel
  refine ⟨hargs, by decide +kernel, ?_⟩
  exact (previewAgrees_iff_safe noScripts (fun _ _ => []) none rootDir hargs).mpr
    (fun _ => by decide +kernel) rootDir disjointArgv disjointArgs hargs rfl FileMap mapFileSystem
    view lawful_mapFileSystem disjointFiles

/-- Two hunks that update different lines of one file. -/
def repeatedArgv : List Str :=
  ["apply_patch".toList, renderText .plain
    [.updateFile "a".toList none [⟨none, [.remove ['x'], .add ['X']], false⟩],
      .updateFile "a".toList none [⟨none, [.remove ['y'], .add ['Y']], false⟩]] true]

def repeatedArgs : ApplyPatchArgs where
  patch := repeatedArgv[1]!.dropLast
  hunks := [.updateFile "a".toList none [⟨none, [['x']], [['X']], false⟩],
    .updateFile "a".toList none [⟨none, [['y']], [['Y']], false⟩]]
  workdir := none

def repeatedFiles : FileMap := (∅ : FileMap).insert (rootFile "a") "x\ny\n".toList

/-- The change of a file that is shown to the user. -/
def MaybeApplyPatchVerified.shown (path : AbsolutePathBuf) :
    MaybeApplyPatchVerified → Option ApplyPatchFileChange
  | .body action => action.changes.lookup path
  | _ => none

/-- The preview shows the second hunk only, but both are applied. -/
theorem not_previewAgrees_repeated :
    ¬ PreviewAgrees noScripts (fun _ _ => []) mapFileSystem FileMap.view none rootDir repeatedArgv
      repeatedFiles := by
  intro h
  have hargs : maybeParseApplyPatch noScripts repeatedArgv = .body repeatedArgs := by
    decide +kernel
  have hshown : (maybeParseApplyPatchVerified noScripts (fun _ _ => []) mapFileSystem none rootDir
      repeatedArgv repeatedFiles).shown (rootFile "a") =
        some (.update [] none "x\nY\n".toList) := by decide +kernel
  have hok : (applyHunksToFiles mapFileSystem none rootDir repeatedArgs.hunks
      repeatedFiles).1.isOk = true := by decide +kernel
  have hfile : view (applyHunksToFiles mapFileSystem none rootDir repeatedArgs.hunks
      repeatedFiles).2 (rootFile "a") = some "X\nY\n".toList := by decide +kernel
  cases hv : maybeParseApplyPatchVerified noScripts (fun _ _ => []) mapFileSystem none rootDir
      repeatedArgv repeatedFiles with
  | body action =>
    rcases ha : applyHunksToFiles mapFileSystem none rootDir repeatedArgs.hunks repeatedFiles
      with ⟨e | affected, t⟩
    · rw [ha] at hok
      cases hok
    · rw [ha] at hfile
      rw [hv] at hshown
      have hcwd : action.cwd = rootDir := (verified_eq_body hargs hv).1
      have hoverlaid := h repeatedArgs action affected t hargs hv (hcwd ▸ ha)
      have hholds := hoverlaid.holds (rootFile "a") _ (congrArg (Option.map _) hshown)
      exact absurd (hfile.symm.trans hholds) (by decide)
  | shellParseError e => simp [hv, shown] at hshown
  | correctnessError e => simp [hv, shown] at hshown
  | notApplyPatch => simp [hv, shown] at hshown

end CodexRs.ApplyPatch
