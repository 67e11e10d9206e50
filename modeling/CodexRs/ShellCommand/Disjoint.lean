import CodexRs.ShellCommand.CommandSafety

/-!
# No command is both known safe and possibly dangerous

Both classifiers read a script with the same parser, except that the one for safe commands reads
the script `zsh` as `bash`.
-/
namespace CodexRs.ShellCommand
open Text Files List Option

variable {shell : Shell}

/-- The programs of which some invocation is known safe. -/
def safePrograms : List Str :=
  readOnlyPrograms ++ texts ["numfmt", "tac", "base64", "find", "rg", "git", "sed"]

theorem not_safe_of_fileName {cmd0 cmd : Str} {args : List Str} (hcmd : fileName cmd0 = some cmd)
    (hnot : cmd ∉ safePrograms) : isSafeToCallWithExec shell (cmd0 :: args) = false := by
  simp only [safePrograms, texts, map_cons, mem_append, mem_cons, not_or] at hnot
  simp only [isSafeToCallWithExec, executableNameLookupKey, hcmd, hnot, texts, map_cons, mem_cons,
    or_false, and_false, if_false]

def unixShells : List Str := texts ["zsh", "bash", "sh"]

def unixShellTypes : List (Option ShellType) :=
  [some .zsh, some .bash, some .sh]

/-- The name of a shell, or that and any number of extensions. -/
def ShellNamed (name : Str) : Prop := name.takeWhile (· ≠ '.') ∈ unixShells

theorem takeWhile_stemOf (name : Str) :
    (stemOf name).takeWhile (· ≠ '.') = name.takeWhile (· ≠ '.') := by
  rcases stemOf_spec name with h | ⟨ext, h⟩
  · rw [h]
  · conv_rhs => rw [h]
    rw [takeWhile_append]
    split_ifs with hall
    · rw [takeWhile_cons_of_neg (by simp), append_nil]
      exact IsPrefix.eq_of_length (List.takeWhile_prefix _) hall
    · rfl

/-- A path is taken for such a shell only by its file name. -/
theorem shellNamed_of_detectShellType {path : Str} (h : detectShellType path ∈ unixShellTypes) :
    ∃ name, fileName path = some name ∧ ShellNamed name := by
  fun_induction detectShellType path with
  | case1 path shellType hexact =>
    have hnames : ∀ entry ∈ shellNames, some entry.2 ∈ unixShellTypes →
        fileName entry.1 = some entry.1 ∧ entry.1.takeWhile (· ≠ '.') ∈ unixShells := by
      decide +kernel
    obtain ⟨before, behind, hsplit, -⟩ := lookup_eq_some_iff.mp hexact
    exact ⟨path, hnames (path, shellType) (by simp [hsplit]) h⟩
  | case2 path _ _ => exact absurd h (by decide)
  | case3 path _ stem hstem hne hlt ih =>
    obtain ⟨name, hname, rfl⟩ := map_eq_some_iff.mp hstem
    obtain ⟨name', hname', hnamed⟩ := ih h
    have hslash : '/' ∉ stemOf name := fun hmem =>
      not_mem_of_mem_splitOn (fileName_spec hname).1 ((stemOf_isPrefix name).subset hmem)
    rw [fileName_eq_self hslash hname', ShellNamed, takeWhile_stemOf] at hnamed
    exact ⟨name, hname, hnamed⟩
  | case4 path _ _ _ _ => exact absurd h (by decide)

theorem not_shellNamed_of_mem_safePrograms {cmd : Str} (h : cmd ∈ safePrograms) :
    ¬ ShellNamed cmd := by
  have hall : ∀ cmd ∈ safePrograms, cmd.takeWhile (· ≠ '.') ∉ unixShells := by decide +kernel
  exact hall cmd h

/-- The names of the shells begin with another letter than those of PowerShell. -/
theorem not_powershell_of_shellNamed {path name : Str} (hname : fileName path = some name)
    (h : ShellNamed name) : isPowershellExecutable path = false := by
  have hshells : ∀ base ∈ unixShells, (toAsciiLowercase base).head? ≠ some 'p' ∧ base ≠ [] := by
    decide +kernel
  have hpowershell : ∀ exe ∈ texts ["powershell", "powershell.exe", "pwsh", "pwsh.exe"],
      exe.head? = some 'p' := by decide +kernel
  rw [isPowershellExecutable, hname, getD_some, decide_eq_false_iff_not]
  intro hmem
  obtain ⟨hhead, hne⟩ := hshells _ h
  have hp := hpowershell _ hmem
  cases name with
  | nil => exact hne rfl
  | cons c name =>
    by_cases hc : c = '.'
    · rw [takeWhile_cons_of_neg (by simpa using hc)] at hne
      exact hne rfl
    · rw [takeWhile_cons_of_pos (by simpa using hc)] at hhead
      exact hhead hp

theorem isSafeCommandWindows_eq_false {exe : Str} {rest : List Str}
    (h : isPowershellExecutable exe = false) :
    isSafeCommandWindows shell (exe :: rest) = false := by
  simp [isSafeCommandWindows, tryParsePowershellCommandSequence, h]

variable {command : List Str}

/-- What `isDangerousToCallWithExec` needs of the first word. -/
theorem first_of_dangerous (h : isDangerousToCallWithExec command = true) :
    ∃ cmd0 ∈ texts ["rm", "sudo"], ∃ rest, command = cmd0 :: rest := by
  cases command with
  | nil => cases h
  | cons cmd0 rest =>
    refine ⟨cmd0, ?_, rest, rfl⟩
    by_contra hnot
    simp only [texts, map_cons, mem_cons, not_or] at hnot
    simp only [isDangerousToCallWithExec, hnot, if_false, Bool.false_eq_true] at h

theorem not_safe_of_dangerous (h : isDangerousToCallWithExec command = true) :
    isSafeToCallWithExec shell command = false := by
  obtain ⟨cmd0, hcmd0, rest, rfl⟩ := first_of_dangerous h
  have hnames : ∀ cmd0 ∈ texts ["rm", "sudo"], fileName cmd0 = some cmd0 ∧ cmd0 ∉ safePrograms := by
    decide +kernel
  exact not_safe_of_fileName (hnames cmd0 hcmd0).1 (hnames cmd0 hcmd0).2

theorem scriptIsSafe_eq_false {commands : List (List Str)}
    (h : commands.any isDangerousToCallWithExec = true) : scriptIsSafe shell commands = false := by
  obtain ⟨command, hmem, hdangerous⟩ := any_eq_true.mp h
  rw [← Bool.not_eq_true, scriptIsSafe, Bool.and_eq_true]
  intro hsafe
  have := all_eq_true.mp hsafe.2 command hmem
  rw [not_safe_of_dangerous hdangerous] at this
  cases this

/-- The script is parsed, and one of its commands is dangerous. -/
def readsDangerous (shell : Shell) (script : Str) : Bool :=
  (shell.parsePlainCommands script).any (·.any isDangerousToCallWithExec)

/-- The script is parsed into commands that are all known safe. -/
def readsSafe (shell : Shell) (script : Str) : Bool :=
  (shell.parsePlainCommands script).any (scriptIsSafe shell)

theorem readsSafe_eq_false {script : Str} (h : readsDangerous shell script = true) :
    readsSafe shell script = false := by
  unfold readsDangerous at h
  unfold readsSafe
  cases hparse : shell.parsePlainCommands script with
  | none => rfl
  | some commands =>
    rw [hparse] at h
    rw [any_some, scriptIsSafe_eq_false h]

/-- The script `zsh` is not read as a dangerous one while `bash` is read as a safe one. -/
def ScriptsAgree (shell : Shell) : Prop :=
  ¬ (readsDangerous shell "zsh".toList = true ∧ readsSafe shell "bash".toList = true)

instance (shell : Shell) : Decidable (ScriptsAgree shell) := inferInstanceAs (Decidable (¬ _))

theorem readsSafe_zshAsBash (hagree : ScriptsAgree shell) {script : Str}
    (h : readsDangerous shell script = true) : readsSafe shell (zshAsBash script) = false := by
  unfold zshAsBash
  split_ifs with hzsh
  · subst hzsh
    rw [← Bool.not_eq_true]
    exact fun hsafe => hagree ⟨h, hsafe⟩
  · exact readsSafe_eq_false h

theorem extractBashCommand_eq_some {path script : Str}
    (h : extractBashCommand command = some (path, script)) :
    ∃ flag ∈ texts ["-lc", "-c"], command = [path, flag, script] ∧
      detectShellType path ∈ unixShellTypes := by
  unfold extractBashCommand at h
  split at h
  · rename_i path' flag script'
    split_ifs at h with hnot
    rw [not_or, not_not, not_not] at hnot
    cases h
    exact ⟨flag, hnot.1, rfl, hnot.2⟩
  · cases h

theorem detectShellType_zshAsBash {path : Str} (h : detectShellType path ∈ unixShellTypes) :
    detectShellType (zshAsBash path) ∈ unixShellTypes := by
  unfold zshAsBash
  split_ifs
  · rw [detectShellType]
    decide
  · exact h

theorem parse_zshAsBash {path flag script : Str} (hflag : flag ∈ texts ["-lc", "-c"])
    (h : detectShellType path ∈ unixShellTypes) :
    parseShellLcPlainCommands shell ([path, flag, script].map zshAsBash) =
      shell.parsePlainCommands (zshAsBash script) := by
  have hkept : ∀ flag ∈ texts ["-lc", "-c"], zshAsBash flag = flag := by decide +kernel
  have hdetect := detectShellType_zshAsBash h
  simp only [map_cons, map_nil, parseShellLcPlainCommands, extractBashCommand, hkept flag hflag]
  rw [if_neg]
  · rfl
  · rw [not_or, not_not, not_not]
    exact ⟨hflag, hdetect⟩

variable {command : List Str}

theorem not_known_safe_of_exec (h : isDangerousToCallWithExec command = true) :
    isKnownSafeCommand shell command = false := by
  obtain ⟨cmd0, hcmd0, rest, rfl⟩ := first_of_dangerous h
  have hfirst : ∀ cmd0 ∈ texts ["rm", "sudo"], zshAsBash cmd0 = cmd0 ∧ fileName cmd0 = some cmd0 ∧
      isPowershellExecutable cmd0 = false ∧ cmd0.takeWhile (· ≠ '.') ∉ unixShells ∧
      cmd0 ∉ safePrograms := by decide +kernel
  obtain ⟨hkept, hname, hpowershell, hshell, hprogram⟩ := hfirst cmd0 hcmd0
  have hexec : isSafeToCallWithExec shell (cmd0 :: rest.map zshAsBash) = false :=
    not_safe_of_fileName hname hprogram
  have hnone : extractBashCommand (cmd0 :: rest.map zshAsBash) = none := by
    apply eq_none_iff_forall_ne_some.mpr
    rintro ⟨path, script⟩ hextract
    obtain ⟨flag, -, hcommand, hdetect⟩ := extractBashCommand_eq_some hextract
    obtain ⟨name, hname', hnamed⟩ := shellNamed_of_detectShellType hdetect
    cases (cons.inj hcommand).1
    rw [hname] at hname'
    cases hname'
    exact hshell hnamed
  simp [isKnownSafeCommand, hkept, isSafeCommandWindows_eq_false hpowershell, hexec,
    parseShellLcPlainCommands, hnone]

theorem not_known_safe_of_script (hagree : ScriptsAgree shell)
    (h : (parseShellLcPlainCommands shell command).any (·.any isDangerousToCallWithExec) = true) :
    isKnownSafeCommand shell command = false := by
  unfold parseShellLcPlainCommands at h
  cases hextract : extractBashCommand command with
  | none => simp [hextract] at h
  | some parts =>
    obtain ⟨flag, hflag, rfl, hdetect⟩ := extractBashCommand_eq_some hextract
    rw [hextract] at h
    have hsafe := readsSafe_zshAsBash hagree h
    obtain ⟨name, hname, hnamed⟩ :=
      shellNamed_of_detectShellType (detectShellType_zshAsBash hdetect)
    have hwindows : isSafeCommandWindows shell ([parts.1, flag, parts.2].map zshAsBash) = false :=
      isSafeCommandWindows_eq_false (not_powershell_of_shellNamed hname hnamed)
    have hexec : isSafeToCallWithExec shell ([parts.1, flag, parts.2].map zshAsBash) = false :=
      not_safe_of_fileName hname fun hcmd => not_shellNamed_of_mem_safePrograms hcmd hnamed
    unfold isKnownSafeCommand
    dsimp only
    rw [parse_zshAsBash hflag hdetect, hexec, Bool.or_false]
    rw [readsSafe] at hsafe
    rw [hsafe, Bool.or_false]
    exact hwindows

theorem not_known_safe_of_might_be_dangerous (hagree : ScriptsAgree shell)
    (h : commandMightBeDangerous shell command = true) :
    isKnownSafeCommand shell command = false := by
  rcases Bool.or_eq_true_iff.mp h with hexec | hscript
  · exact not_known_safe_of_exec hexec
  · exact not_known_safe_of_script hagree hscript

end CodexRs.ShellCommand
