import CodexRs.Files.Path
import Mathlib.Data.List.AList

/-!
# File systems

A file system is lawful for a view of its states as maps from paths to texts when its operations
act on the view as they do on a map; everything else is left open.
-/
namespace CodexRs.Files
open Text Function

inductive ErrorKind where
  | notFound
  | invalidInput
  | other
deriving DecidableEq

structure IoError where
  kind : ErrorKind
  message : Str
deriving DecidableEq

structure FileMetadata where
  isDirectory : Bool

/-- Operations that change the state return the state after them also when they fail. -/
structure ExecutorFileSystem (σ : Type*) where
  readFileText : AbsolutePathBuf → σ → Except IoError Str
  writeFile : AbsolutePathBuf → Str → σ → Except IoError Unit × σ
  /-- Creates missing parents as well. -/
  createDirectory : AbsolutePathBuf → σ → Except IoError Unit × σ
  getMetadata : AbsolutePathBuf → σ → Except IoError FileMetadata
  /-- Neither recursive nor forced. -/
  remove : AbsolutePathBuf → σ → Except IoError Unit × σ

abbrev FileView := AbsolutePathBuf → Option Str

/-- Operations that succeed act on the view as those of a map; others leave the texts alone. -/
structure ExecutorFileSystem.Lawful {σ : Type*} (fs : ExecutorFileSystem σ)
    (view : σ → FileView) : Prop where
  read_iff : ∀ path text s, fs.readFileText path s = .ok text ↔ view s path = some text
  write_ok : ∀ path text s t, fs.writeFile path text s = (.ok (), t) →
    view t = Function.update (view s) path (some text)
  write_error : ∀ path text s e t, fs.writeFile path text s = (.error e, t) → view t = view s
  createDirectory : ∀ path s r t, fs.createDirectory path s = (r, t) → view t = view s
  remove_ok : ∀ path s t, fs.remove path s = (.ok (), t) →
    (view s path).isSome ∧ view t = Function.update (view s) path none

theorem ExecutorFileSystem.Lawful.toOption_read {σ : Type*} {fs : ExecutorFileSystem σ}
    {view : σ → FileView} (hfs : fs.Lawful view) (path : AbsolutePathBuf) (s : σ) :
    (fs.readFileText path s).toOption = view s path := by
  ext text
  rw [← hfs.read_iff]
  cases fs.readFileText path s <;> simp [Except.toOption]

/-- A file system that is a finite map and has no directories of its own. -/
abbrev FileMap := AList fun _ : AbsolutePathBuf => Str

def notFound : IoError := ⟨.notFound, "No such file or directory (os error 2)".toList⟩

def mapFileSystem : ExecutorFileSystem FileMap where
  readFileText path files :=
    match files.lookup path with
    | some text => .ok text
    | none => .error notFound
  writeFile path text files := (.ok (), files.insert path text)
  createDirectory _ files := (.ok (), files)
  getMetadata path files :=
    match files.lookup path with
    | some _ => .ok ⟨false⟩
    | none => .error notFound
  remove path files :=
    match files.lookup path with
    | some _ => (.ok (), files.erase path)
    | none => (.error notFound, files)

variable (files : FileMap)

def FileMap.view : FileView := fun path => files.lookup path

variable (path : AbsolutePathBuf)

theorem FileMap.view_insert (text : Str) :
    FileMap.view (files.insert path text) = update files.view path (some text) := by
  funext q
  by_cases h : q = path
  · subst q
    simp [FileMap.view]
  · rw [update_of_ne h]
    exact AList.lookup_insert_ne h

theorem FileMap.view_erase : FileMap.view (files.erase path) = update files.view path none := by
  funext q
  by_cases h : q = path
  · subst q
    simp [FileMap.view]
  · rw [update_of_ne h]
    exact AList.lookup_erase_ne h

theorem lawful_mapFileSystem : mapFileSystem.Lawful FileMap.view where
  read_iff path text files := by
    simp only [mapFileSystem, FileMap.view]
    cases files.lookup path <;> simp
  write_ok path text files t h := by
    cases h
    exact files.view_insert path text
  write_error path text files e t h := by cases h
  createDirectory path files r t h := by
    cases h
    rfl
  remove_ok path files t h := by
    simp only [mapFileSystem] at h
    cases hl : files.lookup path with
    | none => simp [hl] at h
    | some text =>
      rw [hl] at h
      cases h
      exact ⟨by simp [FileMap.view, hl], files.view_erase path⟩

end CodexRs.Files
