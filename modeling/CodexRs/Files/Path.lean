import CodexRs.Library.Text

/-!
# Paths

A path that is absolute and normalized is the list of its components from the root. Another path
is read into components as it is spelled, without a look at the disk.
-/
namespace CodexRs.Files
open Text List

/-- A component that normalization leaves in a path. -/
def NormalComponent (c : Str) : Prop := c ≠ [] ∧ c ≠ ['.'] ∧ c ≠ ['.', '.'] ∧ '/' ∉ c

instance (c : Str) : Decidable (NormalComponent c) := inferInstanceAs (Decidable (_ ∧ _))

structure AbsolutePathBuf where
  components : List Str
  normal : ∀ c ∈ components, NormalComponent c
deriving DecidableEq

def pushComponent (stack : List Str) (component : Str) : List Str :=
  if component = [] ∨ component = ['.'] then stack
  else if component = ['.', '.'] then stack.dropLast
  else stack ++ [component]

/-- The components of a path pushed one after the other on those of a directory. -/
def normalizePath (stack : List Str) (path : Str) : List Str :=
  (path.splitOn '/').foldl pushComponent stack

variable (path : Str)

theorem normal_normalizePath {stack : List Str} (hs : ∀ c ∈ stack, NormalComponent c) :
    ∀ c ∈ normalizePath stack path, NormalComponent c := by
  have hfold : ∀ (parts : List Str) (stack : List Str), (∀ l ∈ parts, '/' ∉ l) →
      (∀ c ∈ stack, NormalComponent c) →
      ∀ c ∈ parts.foldl pushComponent stack, NormalComponent c := by
    intro parts
    induction parts with
    | nil => exact fun _ _ hs => hs
    | cons part parts ih =>
      intro stack hparts hs
      apply ih _ fun l hl => hparts l (by simp [hl])
      unfold pushComponent
      split_ifs with hskip hparent
      · exact hs
      · exact fun c hmem => hs c (dropLast_subset _ hmem)
      · exact forall_mem_append.mpr ⟨hs, forall_mem_singleton.mpr
          ⟨fun h => hskip (.inl h), fun h => hskip (.inr h), hparent, (hparts part (by simp))⟩⟩
  exact hfold _ stack (fun l hl => not_mem_of_mem_splitOn hl) hs

/-- The components of an absolute path as it is spelled; a parent directory is one of them. -/
def pathComponents : List Str :=
  (path.splitOn '/').filter fun component => component ≠ [] ∧ component ≠ ['.']

/-- `path` appended to `base` as a text; an absolute `path` replaces `base`. -/
def joinPath (base path : Str) : Str :=
  if startsWith path ['/'] then path
  else if base = [] ∨ base.getLast? = some '/' then base ++ path
  else base ++ '/' :: path

/-- A leading tilde stands for the home directory, if there is one. -/
def maybeExpandHomeDirectory (home : Option Str) (path : Str) : Str :=
  match home, stripPrefix ['~'] path with
  | some home, some [] => home
  | some home, some ('/' :: rest) => joinPath home (rest.dropWhile (· = '/'))
  | _, _ => path

theorem maybeExpandHomeDirectory_of_slash (home : Option Str) {path : Str}
    (h : startsWith path ['/'] = true) : maybeExpandHomeDirectory home path = path := by
  obtain ⟨rest, rfl⟩ := startsWith_iff.mp h
  cases home <;> rfl

def absolutizeFrom (base : AbsolutePathBuf) : AbsolutePathBuf where
  components := normalizePath (if startsWith path ['/'] then [] else base.components) path
  normal := by
    apply normal_normalizePath
    split_ifs
    · simp
    · exact base.normal

namespace AbsolutePathBuf

def resolvePathAgainstBase (home : Option Str) (path : Str) (base : AbsolutePathBuf) :
    AbsolutePathBuf :=
  absolutizeFrom (maybeExpandHomeDirectory home path) base

def join (home : Option Str) (base : AbsolutePathBuf) (path : Str) : AbsolutePathBuf :=
  resolvePathAgainstBase home path base

/-- The containing directory; the root has none. -/
def parent (path : AbsolutePathBuf) : Option AbsolutePathBuf :=
  if path.components = [] then none
  else some ⟨path.components.dropLast, fun c hc => path.normal c (List.dropLast_subset _ hc)⟩

def display (path : AbsolutePathBuf) : Str :=
  if path.components = [] then ['/'] else path.components.flatMap ('/' :: ·)

end AbsolutePathBuf

theorem foldl_pushComponent {components : List Str} (h : ∀ c ∈ components, NormalComponent c)
    (stack : List Str) : components.foldl pushComponent stack = stack ++ components := by
  induction components generalizing stack with
  | nil => simp
  | cons c components ih =>
    obtain ⟨hempty, hdot, hparent, -⟩ := h c (by simp)
    rw [foldl_cons, pushComponent, if_neg (by simp [hempty, hdot]), if_neg hparent,
      ih fun d hd => h d (by simp [hd])]
    simp

theorem splitOn_slashed (c : Str) (components : List Str) (hc : '/' ∉ c)
    (h : ∀ d ∈ components, '/' ∉ d) :
    (c ++ components.flatMap ('/' :: ·)).splitOn '/' = c :: components := by
  induction components generalizing c with
  | nil => simpa using splitOn_eq_singleton hc
  | cons d components ih =>
    rw [flatMap_cons, cons_append, splitOn_append_cons_self_of_not_mem hc,
      ih d (h d (by simp)) fun e he => h e (by simp [he])]

theorem normalizePath_display (path : AbsolutePathBuf) :
    normalizePath [] path.display = path.components := by
  unfold AbsolutePathBuf.display
  split_ifs with h
  · rw [h]
    rfl
  · have hsplit := splitOn_slashed [] path.components (by simp)
      fun c hc => (path.normal c hc).2.2.2
    rw [List.nil_append] at hsplit
    rw [normalizePath, hsplit]
    exact foldl_pushComponent path.normal []

/-- A relative path is resolved below the base, with parent directories cut off. -/
example : (absolutizeFrom "./b/../c".toList ⟨["a".toList], by decide⟩).components =
    ["a".toList, "c".toList] := by
  decide +kernel

inductive Component where
  | rootDir
  | curDir
  | parentDir
  | normal (name : Str)
  deriving DecidableEq

/-- What one piece between slashes stands for; an empty one and a dot stand for nothing. -/
def Component.read (piece : Str) : Option Component :=
  if piece = [] ∨ piece = ['.'] then none
  else if piece = ['.', '.'] then some .parentDir
  else some (.normal piece)

/-- A dot counts only at the beginning of a relative path. -/
def leadingComponents : List Component :=
  if path.head? = some '/' then [.rootDir]
  else if (path.splitOn '/').head? = some ['.'] then [.curDir]
  else []

def components : List Component :=
  leadingComponents path ++ (path.splitOn '/').filterMap Component.read

def Component.name : Component → Option Str
  | .normal name => some name
  | _ => none

def fileName : Option Str := (components path).getLast?.bind Component.name

variable (name : Str)

/-- A file name up to its last dot, or all of it if the only dot is in front. -/
def stemOf : Str :=
  let before := name.rdropWhile (· ≠ '.')
  if before = [] ∨ before = ['.'] then name else before.dropLast

def fileStem : Option Str := (fileName path).map stemOf

theorem Component.read_eq_normal {piece name : Str} (h : read piece = some (.normal name)) :
    piece = name ∧ name ≠ [] ∧ name ≠ ['.'] ∧ name ≠ ['.', '.'] := by
  unfold read at h
  split_ifs at h with hblank hparent
  · cases h
  · obtain ⟨hempty, hdot⟩ := not_or.mp hblank
    cases h
    exact ⟨rfl, hempty, hdot, hparent⟩

theorem normal_notMem_leadingComponents (path name : Str) :
    Component.normal name ∉ leadingComponents path := by
  unfold leadingComponents
  split_ifs <;> simp

theorem fileName_spec {path name : Str} (h : fileName path = some name) :
    name ∈ path.splitOn '/' ∧ Component.read name = some (.normal name) := by
  obtain ⟨last, hlast, hname⟩ := Option.bind_eq_some_iff.mp h
  cases last with
  | rootDir => cases hname
  | curDir => cases hname
  | parentDir => cases hname
  | normal name' =>
    cases hname
    rcases mem_append.mp (mem_of_getLast? hlast) with hlead | hrest
    · exact absurd hlead (normal_notMem_leadingComponents path _)
    · obtain ⟨piece, hpiece, hread⟩ := mem_filterMap.mp hrest
      obtain ⟨rfl, -⟩ := Component.read_eq_normal hread
      exact ⟨hpiece, hread⟩

theorem infix_of_mem_splitOn {path piece : Str} (h : piece ∈ path.splitOn '/') :
    piece <:+: path := by
  induction path generalizing piece with
  | nil =>
    rw [splitOn_nil, mem_singleton] at h
    exact h ▸ infix_rfl
  | cons c path ih =>
    rw [splitOn_cons_eq_if_modifyHead] at h
    split_ifs at h with hc
    · rcases mem_cons.mp h with rfl | h
      · exact List.nil_infix
      · exact (ih h).trans (suffix_cons c path).isInfix
    · cases hs : path.splitOn '/' with
      | nil => simp [hs] at h
      | cons first rest =>
        rw [hs] at h
        rcases mem_cons.mp h with rfl | h
        · have hfirst : first <+: path := by
            have hjoin : intercalate ['/'] (path.splitOn '/') = path := intercalate_splitOn '/'
            rw [hs] at hjoin
            cases rest with
            | nil => exact ⟨[], by simpa using hjoin⟩
            | cons second rest => exact ⟨_, by simpa using hjoin⟩
          exact ((prefix_cons_inj c).mpr hfirst).isInfix
        · exact (ih (hs ▸ mem_cons_of_mem first h)).trans (suffix_cons c path).isInfix

/-- What stands behind the stem of a name is nothing, or begins with a dot. -/
theorem stemOf_spec : stemOf name = name ∨ ∃ ext, name = stemOf name ++ '.' :: ext := by
  unfold stemOf
  dsimp only
  split_ifs with h
  · exact .inl rfl
  · right
    rw [not_or] at h
    have hlast := rdropWhile_last_not (· ≠ '.') name h.1
    refine ⟨name.rtakeWhile (· ≠ '.'), ?_⟩
    have hdot : name.rdropWhile (· ≠ '.') = (name.rdropWhile (· ≠ '.')).dropLast ++ ['.'] := by
      conv_lhs => rw [← dropLast_append_getLast h.1]
      simpa using hlast
    calc name = name.rdropWhile (· ≠ '.') ++ name.rtakeWhile (· ≠ '.') :=
          (rdropWhile_append_rtakeWhile ..).symm
      _ = _ := by
        conv_lhs => rw [hdot]
        simp

theorem stemOf_isPrefix : stemOf name <+: name := by
  rcases stemOf_spec name with h | ⟨ext, h⟩
  · exact ⟨[], by rw [h, append_nil]⟩
  · exact ⟨'.' :: ext, h.symm⟩

/-- A stem that is not the path itself is shorter than the path. -/
theorem length_fileStem_lt {path stem : Str} (h : fileStem path = some stem)
    (hne : components stem ≠ components path) : stem.length < path.length := by
  obtain ⟨name, hname, rfl⟩ := Option.map_eq_some_iff.mp h
  have hin : stemOf name <:+: path :=
    (stemOf_isPrefix name).isInfix.trans (infix_of_mem_splitOn (fileName_spec hname).1)
  refine lt_of_le_of_ne hin.length_le fun hlen => hne ?_
  rw [hin.eq_of_length hlen]

theorem fileName_eq_self {path name : Str} (hslash : '/' ∉ path) (h : fileName path = some name) :
    name = path := by
  have hpiece := (fileName_spec h).1
  rw [splitOn_eq_singleton hslash, mem_singleton] at hpiece
  exact hpiece

end CodexRs.Files
