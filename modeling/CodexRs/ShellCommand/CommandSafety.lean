import CodexRs.Files.Path

/-!
# Known safe and possibly dangerous commands

Both classifiers look into the script of a shell that is started with `-c`.
-/
namespace CodexRs.ShellCommand
open Text Files

/-- The parsers and the target the classifiers are compiled for, none of them Windows. -/
structure Shell where
  linux : Bool
  /-- The plain commands of a script, if it consists of nothing else. -/
  parsePlainCommands : Str → Option (List (List Str))
  /-- The first words of the only command of a script that has a here-document. -/
  parseHeredocCommand : Str → Option (List Str)
  /-- The commands of a PowerShell script, as the given executable parses it. -/
  parseWithPowershellAst : Str → Str → Option (List (List Str))

def texts (names : List String) : List Str := names.map String.toList

section

inductive ShellType where
  | zsh
  | bash
  | powerShell
  | sh
  | cmd
  deriving DecidableEq

def shellNames : List (Str × ShellType) :=
  [("zsh".toList, .zsh), ("sh".toList, .sh), ("cmd".toList, .cmd), ("bash".toList, .bash),
    ("pwsh".toList, .powerShell), ("powershell".toList, .powerShell)]

/-- A path that is not itself the name of a shell is asked for its stem. -/
def detectShellType (shellPath : Str) : Option ShellType :=
  match shellNames.lookup shellPath with
  | some shellType => some shellType
  | none =>
    match h : fileStem shellPath with
    | none => none
    | some shellName =>
      if hne : components shellName ≠ components shellPath then
        have := length_fileStem_lt h hne
        detectShellType shellName
      else none
termination_by shellPath.length

/-- The script of `bash -lc` and the like. -/
def extractBashCommand (command : List Str) : Option (Str × Str) :=
  match command with
  | [shell, flag, script] =>
    if flag ∉ texts ["-lc", "-c"] ∨
        detectShellType shell ∉ [some ShellType.zsh, some ShellType.bash, some ShellType.sh] then
      none
    else some (shell, script)
  | _ => none

variable (shell : Shell)

def parseShellLcPlainCommands (command : List Str) : Option (List (List Str)) :=
  (extractBashCommand command).bind fun parts => shell.parsePlainCommands parts.2

def parseShellLcSingleCommandPrefix (command : List Str) : Option (List Str) :=
  (extractBashCommand command).bind fun parts => shell.parseHeredocCommand parts.2

end

def isDangerousToCallWithExec : List Str → Bool
  | [] => false
  | cmd0 :: rest =>
    if cmd0 = "rm".toList then rest.head?.any (· ∈ texts ["-f", "-rf"])
    else if cmd0 = "sudo".toList then isDangerousToCallWithExec rest
    else false

def commandMightBeDangerous (shell : Shell) (command : List Str) : Bool :=
  isDangerousToCallWithExec command ||
    (parseShellLcPlainCommands shell command).any (·.any isDangerousToCallWithExec)

def executableNameLookupKey (raw : Str) : Option Str := fileName raw

section

def gitValueOptions : List Str :=
  texts ["-C", "-c", "--config-env", "--exec-path", "--git-dir", "--namespace", "--super-prefix",
    "--work-tree"]

def gitInlineValueOptions : List Str :=
  texts ["--config-env=", "--exec-path=", "--git-dir=", "--namespace=", "--super-prefix=",
    "--work-tree="]

variable (arg : Str)

def isGitGlobalOptionWithValue : Bool := arg ∈ gitValueOptions

def isGitGlobalOptionWithInlineValue : Bool :=
  gitInlineValueOptions.any (startsWith arg ·) ||
    ((startsWith arg "-C".toList || startsWith arg "-c".toList) && 2 < arg.length)

def gitGlobalOptionRequiresPrompt : Bool :=
  arg ∈ gitValueOptions ||
    (((startsWith arg "-C".toList || startsWith arg "-c".toList) && 2 < arg.length) ||
      gitInlineValueOptions.any (startsWith arg ·))

/-- The first word that is no option, if it is one of the subcommands, and the words behind it. -/
def firstGitSubcommand (subcommands : List Str) : List Str → Option (Str × List Str)
  | [] => none
  | arg :: rest =>
    if isGitGlobalOptionWithInlineValue arg then firstGitSubcommand subcommands rest
    else if isGitGlobalOptionWithValue arg then
      match rest with
      | [] => none
      | _ :: rest => firstGitSubcommand subcommands rest
    else if startsWith arg ['-'] then firstGitSubcommand subcommands rest
    else if arg ∈ subcommands then some (arg, rest)
    -- a later word is an argument of the subcommand that stands here
    else none

variable (command : List Str)

def findGitSubcommand (subcommands : List Str) : Option (Str × List Str) :=
  match command with
  | [] => none
  | cmd0 :: args =>
    if executableNameLookupKey cmd0 = some "git".toList then firstGitSubcommand subcommands args
    else none

/-- Reads the arguments of `git branch`, after which the flag says whether one asked for a list. -/
def readsBranchesOnly : List Str → Bool → Bool
  | [], sawReadOnlyFlag => sawReadOnlyFlag
  | arg :: args, _ =>
    if arg ∈ texts ["--list", "-l", "--show-current", "-a", "--all", "-r", "--remotes", "-v",
        "-vv", "--verbose"] then readsBranchesOnly args true
    else if startsWith arg "--format=".toList then readsBranchesOnly args true
    else false

def gitBranchIsReadOnly (branchArgs : List Str) : Bool :=
  branchArgs.isEmpty || readsBranchesOnly branchArgs false

def gitHasUnsafeGlobalOption : Bool :=
  command.tail.any gitGlobalOptionRequiresPrompt

def gitSubcommandArgsAreReadOnly (args : List Str) : Bool :=
  !args.any fun arg =>
    arg ∈ texts ["--output", "--ext-diff", "--textconv", "--exec", "--paginate"] ||
      startsWith arg "--output=".toList || startsWith arg "--exec=".toList

def isSafeGitCommand : Bool :=
  if gitHasUnsafeGlobalOption command then false
  else
    match findGitSubcommand command (texts ["status", "log", "diff", "show", "branch"]) with
    | none => false
    | some (subcommand, args) =>
      if subcommand ∈ texts ["status", "log", "diff", "show"] then
        gitSubcommandArgsAreReadOnly args
      else if subcommand = "branch".toList then
        gitSubcommandArgsAreReadOnly args && gitBranchIsReadOnly args
      else false

end

section

def isNumber (s : Str) : Bool := s ≠ [] && s.all Char.isDigit

/-- A line or a range of lines to print. -/
def isValidSedNArg (arg : Option Str) : Bool :=
  match arg with
  | none => false
  | some s =>
    if s.getLast? = some 'p' then
      match s.dropLast.splitOn ',' with
      | [num] => isNumber num
      | [a, b] => isNumber a && isNumber b
      | _ => false
    else false

variable (command : List Str)

def safeBase64 : Bool :=
  !command.tail.any fun arg =>
    arg ∈ texts ["-o", "--output"] || startsWith arg "--output=".toList ||
      (startsWith arg "-o".toList && arg ≠ "-o".toList)

def safeFind : Bool :=
  !command.any fun arg =>
    arg ∈ texts ["-exec", "-execdir", "-ok", "-okdir", "-delete", "-fls", "-fprint", "-fprint0",
      "-fprintf"]

/-- The options of ripgrep that run other programs. -/
def unsafeRipgrepOption (arg : Str) : Bool :=
  arg ∈ texts ["--search-zip", "-z"] ||
    (texts ["--pre", "--hostname-bin"]).any fun opt => arg = opt || startsWith arg (opt ++ ['='])

def safeSed : Bool :=
  command.length ≤ 4 && command[1]? = some "-n".toList && isValidSedNArg command[2]?

def readOnlyPrograms : List Str :=
  texts ["cat", "cd", "cut", "echo", "expr", "false", "grep", "head", "id", "ls", "nl", "paste",
    "pwd", "rev", "seq", "stat", "tail", "tr", "true", "uname", "uniq", "wc", "which", "whoami"]

def isSafeToCallWithExec (shell : Shell) (command : List Str) : Bool :=
  match command with
  | [] => false
  | cmd0 :: _ =>
    match executableNameLookupKey cmd0 with
    | none => false
    | some cmd =>
      if shell.linux ∧ cmd ∈ texts ["numfmt", "tac"] then true
      else if cmd ∈ readOnlyPrograms then true
      else if cmd = "base64".toList then safeBase64 command
      else if cmd = "find".toList then safeFind command
      else if cmd = "rg".toList then !command.any unsafeRipgrepOption
      else if cmd = "git".toList then isSafeGitCommand command
      else if cmd = "sed".toList then safeSed command
      else false

end

section

def isPowershellExecutable (exe : Str) : Bool :=
  toAsciiLowercase ((fileName exe).getD exe) ∈
    texts ["powershell", "powershell.exe", "pwsh", "pwsh.exe"]

def quoteArgument (arg : Str) : Str :=
  if arg = [] then "''".toList
  else if arg.all (!isWhitespace ·) then arg
  else '\'' :: arg.flatMap (fun c => if c = '\'' then "''".toList else [c]) ++ ['\'']

def joinArgumentsAsScript : List Str → Str
  | [] => []
  | first :: rest => first ++ rest.flatMap fun arg => ' ' :: quoteArgument arg

variable (shell : Shell)

def parsePowershellScript (executable script : Str) : Option (List (List Str)) :=
  shell.parseWithPowershellAst executable script

def parsePowershellInvocation (executable : Str) : List Str → Option (List (List Str))
  | [] => none
  | arg :: rest =>
    let lower := toAsciiLowercase arg
    if lower ∈ texts ["-command", "/command", "-c"] then
      match rest with
      | [script] => parsePowershellScript shell executable script
      | _ => none
    else if startsWith lower "-command:".toList || startsWith lower "/command:".toList then
      if rest ≠ [] then none
      else parsePowershellScript shell executable (arg.dropWhile (· ≠ ':')).tail
    else if lower ∈ texts ["-nologo", "-noprofile", "-noninteractive", "-mta", "-sta"] then
      parsePowershellInvocation executable rest
    else if lower ∈ texts ["-encodedcommand", "-ec", "-file", "/file", "-windowstyle",
        "-executionpolicy", "-workingdirectory"] then none
    else if startsWith lower ['-'] then none
    else parsePowershellScript shell executable (joinArgumentsAsScript (arg :: rest))

def tryParsePowershellCommandSequence (command : List Str) : Option (List (List Str)) :=
  match command with
  | [] => none
  | exe :: rest =>
    if isPowershellExecutable exe then parsePowershellInvocation shell exe rest else none

def isParen (c : Char) : Bool := c = '(' || c = ')'

/-- A word without the parentheses around it and the dashes in front, in lower case. -/
def innerWord (word : Str) : Str :=
  toAsciiLowercase (((word.dropWhile isParen).rdropWhile isParen).dropWhile (· = '-'))

def sideEffectingCmdlets : List Str :=
  texts ["set-content", "add-content", "out-file", "new-item", "remove-item", "move-item",
    "copy-item", "rename-item", "start-process", "stop-process"]

def readOnlyCmdlets : List Str :=
  texts ["echo", "write-output", "write-host", "dir", "ls", "get-childitem", "gci", "cat", "type",
    "gc", "get-content", "select-string", "sls", "findstr", "measure-object", "measure",
    "get-location", "gl", "pwd", "test-path", "tp", "resolve-path", "rvpa", "select-object",
    "select", "get-item"]

def isSafeRipgrep (words : List Str) : Bool :=
  !words.tail.any fun arg => unsafeRipgrepOption (toAsciiLowercase arg)

def isSafePowershellWords (words : List Str) : Bool :=
  match words with
  | [] => false
  | first :: _ =>
    if words.any (innerWord · ∈ sideEffectingCmdlets) then false
    else if innerWord first ∈ readOnlyCmdlets then true
    else if innerWord first = "git".toList then isSafeGitCommand words
    else if innerWord first = "rg".toList then isSafeRipgrep words
    else false

/-- Looks for PowerShell invocations only, but is asked on every target. -/
def isSafeCommandWindows (command : List Str) : Bool :=
  match tryParsePowershellCommandSequence shell command with
  | some commands => commands.all isSafePowershellWords
  | none => false

end

/-- Every word `zsh` is read as `bash`, wherever in the command it stands. -/
def zshAsBash (word : Str) : Str := if word = "zsh".toList then "bash".toList else word

/-- A script is known safe if it has commands and all of them are. -/
def scriptIsSafe (shell : Shell) (commands : List (List Str)) : Bool :=
  commands ≠ [] && commands.all (isSafeToCallWithExec shell)

def isKnownSafeCommand (shell : Shell) (command : List Str) : Bool :=
  let command := command.map zshAsBash
  isSafeCommandWindows shell command || isSafeToCallWithExec shell command ||
    (parseShellLcPlainCommands shell command).any (scriptIsSafe shell)

end CodexRs.ShellCommand
