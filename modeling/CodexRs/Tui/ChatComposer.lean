import CodexRs.Tui.PasteBurst
import CodexRs.Tui.TextArea

/-!
# Plain keys in the composer

The lowest key path, with Vim mode off. Popups are left out, since they do not change the text;
commands at the start of the text are marked as elements.
-/
namespace CodexRs.Tui
open CodexRs.Text CodexRs.Base64 CodexRs.ByteText

/-- With the path of an image that can be read for a pasted text, and the names of the commands. -/
structure ComposerConfig where
  windows : Bool
  imagePasteEnabled : Bool
  slashCommandsEnabled : Bool
  imagePath : Str → Option Str
  isKnownSlashName : Str → Bool

structure AttachedImage where
  placeholder : Str
  path : Str

structure ChatComposer where
  textarea : TextArea
  pasteBurst : PasteBurst
  disablePasteBurst : Bool
  isBashMode : Bool
  pendingPastes : List (Str × Str)
  attachedImages : List AttachedImage
  remoteImageUrls : List Str

/-- Keys without Ctrl or Alt. -/
inductive PlainKey
  | char (ch : Char)
  | enter
deriving DecidableEq

def largePasteCharThreshold : ℕ := 1000

/-- `\r\n` and then every `\r` left become `\n`. -/
def normalizeNewlines : Str → Str
  | [] => []
  | '\r' :: '\n' :: s => '\n' :: normalizeNewlines s
  | ch :: s => (if ch = '\r' then '\n' else ch) :: normalizeNewlines s

def digits (s : Str) : Option ℕ :=
  if s ≠ [] ∧ s.all Char.isDigit then
    some (s.foldl (fun n ch => n * 10 + (ch.toNat - '0'.toNat)) 0)
  else none

def parseUsize (s : Str) : Option ℕ :=
  ((stripPrefix ['+'] s).elim (digits s) digits).filter (· < 2 ^ 64)

def localImageLabelText (labelNumber : ℕ) : Str :=
  "[Image #".toList ++ labelNumber.repr.toList ++ "]".toList

/-- The name of a command, up to the first blank. -/
def parseSlashName (line : Str) : Option Str := do
  let stripped ← stripPrefix ['/'] line
  let name := stripped.takeWhile fun ch => !isWhitespace ch
  if name = [] then none else some name

namespace ChatComposer
variable (cfg : ComposerConfig) (composer : ChatComposer)

def slashCommandElementRange (firstLine : Str) : Option Span := do
  if composer.isBashMode then none
  let name ← parseSlashName firstLine
  if name.contains '/' then none
  let stop := 1 + utf8Length name
  -- the character behind the name is a blank, unless the line ends there
  if name.length + 1 = firstLine.length then none
  if cfg.isKnownSlashName name then some ⟨0, stop⟩ else none

def syncSlashCommandElements : ChatComposer :=
  if !cfg.slashCommandsEnabled then composer
  else
    let ta := composer.textarea
    let desired := composer.slashCommandElementRange cfg (ta.text.takeWhile (· ≠ '\n'))
    let commands := (ta.elements.map (·.range)).filter fun range =>
      (slice ta.text range.start range.stop).any fun payload => payload.head? = some '/'
    let stale := commands.filter fun range => desired ≠ some range
    let cleaned := stale.foldl TextArea.removeElementRange ta
    match desired with
    | some range =>
      if range ∈ commands then { composer with textarea := cleaned }
      else { composer with textarea := cleaned.addElementRange range }
    | none => { composer with textarea := cleaned }

def syncBashModeFromText : Option ChatComposer :=
  if !composer.isBashMode ∧ composer.textarea.text.head? = some '!' then do
    let ta ← composer.textarea.replaceRange ⟨0, 1⟩ []
    return { composer with textarea := ta, isBashMode := true }
  else some composer

def insertStr (text : Str) : Option ChatComposer := do
  let ta ← composer.textarea.insertStr text
  let synced ← { composer with textarea := ta }.syncBashModeFromText
  return synced.syncSlashCommandElements cfg

def nextLargePastePlaceholder (charCount : ℕ) : Str :=
  let base := "[Pasted Content ".toList ++ charCount.repr.toList ++ " chars]".toList
  let suffixOf := fun placeholder =>
    if placeholder = base then 1
    else ((stripPrefix (base ++ " #".toList) placeholder).bind parseUsize).getD 0
  let maxSuffix := (composer.pendingPastes.map fun paste => suffixOf paste.1).foldl max 0
  if maxSuffix = 0 then base else base ++ " #".toList ++ (maxSuffix + 1).repr.toList

def attachImage (path : Str) : Option ChatComposer := do
  let imageNumber := composer.remoteImageUrls.length + composer.attachedImages.length + 1
  let placeholder := localImageLabelText imageNumber
  let ta ← composer.textarea.insertElement placeholder
  return { composer with
    textarea := ta
    attachedImages := composer.attachedImages ++ [⟨placeholder, path⟩] }

variable (pasted : Str)

def imageOfPaste : Option Str :=
  if 1 < pasted.length ∧ cfg.imagePasteEnabled then cfg.imagePath pasted else none

def integratePaste : Option ChatComposer :=
  if largePasteCharThreshold < pasted.length then do
    let placeholder := composer.nextLargePastePlaceholder pasted.length
    let ta ← composer.textarea.insertElement placeholder
    return { composer with
      textarea := ta
      pendingPastes := composer.pendingPastes ++ [(placeholder, pasted)] }
  else
    match imageOfPaste cfg pasted with
    | some path => do
      let attached ← composer.attachImage path
      let ta ← attached.textarea.insertStr [' ']
      return { attached with textarea := ta }
    | none => composer.insertStr cfg pasted

def handlePaste : Option ChatComposer := do
  let integrated ← composer.integratePaste cfg (normalizeNewlines pasted)
  return { integrated with
    pasteBurst := PasteBurst.clearAfterExplicitPaste }.syncSlashCommandElements cfg

def handlePasteBurstFlush (now : ℕ) : Option ChatComposer :=
  let (burst, result) := composer.pasteBurst.flushIfDue cfg.windows now
  let flushed := { composer with pasteBurst := burst }
  match result with
  | .paste pasted => flushed.handlePaste cfg pasted
  | .typed ch => flushed.insertStr cfg [ch]
  | .none => some flushed

def flushBeforeModified : Option ChatComposer :=
  let (burst, out) := composer.pasteBurst.flushBeforeModifiedInput
  let flushed := { composer with pasteBurst := burst }
  match out with
  | some pasted => flushed.handlePaste cfg pasted
  | none => some flushed

variable (key : PlainKey)

/-- A plain key in the text area: control characters are not inserted. -/
def textareaInput : Option ChatComposer :=
  match key with
  | .enter => (composer.textarea.insertStr ['\n']).map fun ta => { composer with textarea := ta }
  | .char ch =>
    if ch.toNat < 32 ∨ ch.toNat = 127 then some composer
    else (composer.textarea.insertStr [ch]).map fun ta => { composer with textarea := ta }

/-- Rounds down to a boundary. -/
def clampToCharBoundary (text : Str) (pos : ℕ) : ℕ :=
  let p := min pos (utf8Length text)
  if p < utf8Length text ∧ isCharBoundary text p = false then prevCharBoundary text p else p

variable (ch : Char)

/-- Moves what was just typed from the text into the buffer, if that looks like a paste. -/
def beginBuffer (retroChars now : ℕ) : Option (ChatComposer × Bool) := do
  let cur := clampToCharBoundary composer.textarea.text composer.textarea.cursorPos
  let before ← slice composer.textarea.text 0 cur
  let (burst, grab) ← composer.pasteBurst.decideBeginBuffer now before retroChars
  match grab with
  | some grab =>
    let ta ← if grab.grabbed = [] then some composer.textarea
      else composer.textarea.replaceRange ⟨grab.startByte, cur⟩ []
    return ({ composer with textarea := ta, pasteBurst := burst.appendCharToBuffer ch now }, true)
  | none => return ({ composer with pasteBurst := burst }, false)

def contains (text part : Str) : Bool := text.tails.any fun rest => startsWith rest part

def retainPendingPastes : ChatComposer :=
  { composer with
    pendingPastes := composer.pendingPastes.filter fun paste =>
      contains composer.textarea.text paste.1 }

def insertNonAscii : Option ChatComposer := do
  let flushed ← composer.flushBeforeModified cfg
  let typed ← flushed.textareaInput (.char ch)
  return typed.retainPendingPastes

def handleNonAsciiChar (now : ℕ) : Option ChatComposer := do
  if composer.disablePasteBurst then
    let typed ← composer.textareaInput (.char ch)
    return typed.retainPendingPastes
  let (burst, appended) := composer.pasteBurst.tryAppendCharIfActive ch now
  if appended then return { composer with pasteBurst := burst }
  let flushed ← composer.flushBeforeModified cfg
  let (burst, decision) := flushed.pasteBurst.onPlainCharNoHold now
  let noted := { flushed with pasteBurst := burst }
  match decision with
  | some (.beginBuffer retroChars) =>
    let (begun, buffered) ← noted.beginBuffer ch retroChars now
    if buffered then return begun else begun.insertNonAscii cfg ch
  | some .bufferAppend =>
    return { noted with pasteBurst := noted.pasteBurst.appendCharToBuffer ch now }
  | _ => noted.insertNonAscii cfg ch

/-- What is left for keys the detection lets through. An insertion deletes no element, so
no placeholder has to be dropped. -/
def insertPlainKey : Option ChatComposer := do
  let typed ← composer.textareaInput key
  typed.syncBashModeFromText

def handlePlainChar (now : ℕ) : Option ChatComposer := do
  let (burst, decision) := composer.pasteBurst.onPlainChar ch now
  let noted := { composer with pasteBurst := burst }
  match decision with
  | .bufferAppend | .beginBufferFromPending =>
    return { noted with pasteBurst := noted.pasteBurst.appendCharToBuffer ch now }
  | .retainFirstChar => return noted
  | .beginBuffer retroChars =>
    let (begun, buffered) ← noted.beginBuffer ch retroChars now
    if buffered then return begun
    let flushed ← begun.flushBeforeModified cfg
    flushed.insertPlainKey (.char ch)

/-- The key itself, once what was due is flushed. -/
def handleKey (now : ℕ) : Option ChatComposer := do
  match key with
  | .enter =>
    let (burst, appended) := composer.pasteBurst.appendNewlineIfActive now
    if !composer.disablePasteBurst ∧ appended then return { composer with pasteBurst := burst }
    composer.insertPlainKey .enter
  | .char ch =>
    if composer.disablePasteBurst then
      let flushed ← composer.flushBeforeModified cfg
      flushed.insertPlainKey (.char ch)
    else if ch.toNat < 128 then composer.handlePlainChar cfg ch now
    else composer.handleNonAsciiChar cfg ch now

def handleInputBasicWithTime (now : ℕ) : Option ChatComposer := do
  let due ← composer.handlePasteBurstFlush cfg now
  due.handleKey cfg key now

/-- An empty draft with nothing attached, and the detection of pastes enabled. -/
def new : ChatComposer :=
  { textarea := TextArea.new, pasteBurst := PasteBurst.default, disablePasteBurst := false,
    isBashMode := false, pendingPastes := [], attachedImages := [], remoteImageUrls := [] }

end ChatComposer
end CodexRs.Tui
