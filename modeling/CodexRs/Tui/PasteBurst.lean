import CodexRs.Library.ByteText

/-!
# Detection of pastes in plain key events

Times are nanoseconds; a difference of times is zero if the later one comes first.
-/
namespace CodexRs.Tui
open CodexRs.Text CodexRs.Base64 CodexRs.ByteText

def millis (n : ℕ) : ℕ := n * 1000000

def pasteBurstMinChars : ℕ := 3
def pasteEnterSuppressWindow : ℕ := millis 120
def pasteBurstCharInterval : ℕ := millis 8

/-- Slower bursts have been seen on Windows. -/
def pasteBurstActiveIdleTimeout (windows : Bool) : ℕ := if windows then millis 60 else millis 8

structure PasteBurst where
  lastPlainCharTime : Option ℕ
  consecutivePlainCharBurst : ℕ
  burstWindowUntil : Option ℕ
  buffer : Str
  active : Bool
  pendingFirstChar : Option (Char × ℕ)

inductive CharDecision
  | beginBuffer (retroChars : ℕ)
  | bufferAppend
  | retainFirstChar
  | beginBufferFromPending

inductive FlushResult
  | paste (text : Str)
  | typed (ch : Char)
  | none

structure RetroGrab where
  startByte : ℕ
  grabbed : Str

/-- The byte position of the last `retroChars` characters. -/
def retroStartIndex (before : Str) (retroChars : ℕ) : ℕ :=
  if retroChars = 0 then utf8Length before
  else utf8Length (before.take (before.length - retroChars))

namespace PasteBurst

def default : PasteBurst :=
  { lastPlainCharTime := none, consecutivePlainCharBurst := 0, burstWindowUntil := none,
    buffer := [], active := false, pendingFirstChar := none }

variable (burst : PasteBurst)

def isActiveInternal : Bool := burst.active || !burst.buffer.isEmpty

def isActive : Bool := burst.isActiveInternal || burst.pendingFirstChar.isSome

variable (now : ℕ)

def extendWindow : PasteBurst :=
  { burst with burstWindowUntil := some (now + pasteEnterSuppressWindow) }

/-- The counter is a `u16` that saturates. -/
def notePlainChar : PasteBurst :=
  { burst with
    consecutivePlainCharBurst :=
      if burst.lastPlainCharTime.any fun prev => now - prev ≤ pasteBurstCharInterval then
        min (burst.consecutivePlainCharBurst + 1) (2 ^ 16 - 1)
      else 1
    lastPlainCharTime := some now }

/-- The held character, if it came within the interval before `now`. -/
def heldRecently : Option Char :=
  burst.pendingFirstChar.bind fun held =>
    if now - held.2 ≤ pasteBurstCharInterval then some held.1 else none

variable (ch : Char)

def onPlainChar (now : ℕ) : PasteBurst × CharDecision :=
  let noted := burst.notePlainChar now
  if noted.active then (noted.extendWindow now, .bufferAppend)
  else
    match noted.heldRecently now with
    | some held =>
      ({ noted with
          active := true
          pendingFirstChar := none
          buffer := noted.buffer ++ [held] }.extendWindow now, .beginBufferFromPending)
    | none =>
      if pasteBurstMinChars ≤ noted.consecutivePlainCharBurst then
        (noted, .beginBuffer (noted.consecutivePlainCharBurst - 1))
      else ({ noted with pendingFirstChar := some (ch, now) }, .retainFirstChar)

def onPlainCharNoHold : PasteBurst × Option CharDecision :=
  let noted := burst.notePlainChar now
  if noted.active then (noted.extendWindow now, some .bufferAppend)
  else if pasteBurstMinChars ≤ noted.consecutivePlainCharBurst then
    (noted, some (.beginBuffer (noted.consecutivePlainCharBurst - 1)))
  else (noted, none)

def timedOut (windows : Bool) (now : ℕ) : Bool :=
  let timeout :=
    if burst.isActiveInternal then pasteBurstActiveIdleTimeout windows else pasteBurstCharInterval
  burst.lastPlainCharTime.any fun t => timeout < now - t

def flushIfDue (windows : Bool) (now : ℕ) : PasteBurst × FlushResult :=
  if burst.timedOut windows now then
    if burst.isActiveInternal then
      ({ burst with active := false, buffer := [] }, .paste burst.buffer)
    else
      match burst.pendingFirstChar with
      | some (ch, _) => ({ burst with pendingFirstChar := none }, .typed ch)
      | none => (burst, .none)
  else (burst, .none)

def appendNewlineIfActive : PasteBurst × Bool :=
  if burst.isActive then
    ({ burst with buffer := burst.buffer ++ ['\n'] }.extendWindow now, true)
  else (burst, false)

def beginWithRetroGrabbed (grabbed : Str) (now : ℕ) : PasteBurst :=
  { burst with buffer := burst.buffer ++ grabbed, active := true }.extendWindow now

def appendCharToBuffer (now : ℕ) : PasteBurst :=
  { burst with buffer := burst.buffer ++ [ch] }.extendWindow now

def tryAppendCharIfActive (now : ℕ) : PasteBurst × Bool :=
  if burst.isActiveInternal then (burst.appendCharToBuffer ch now, true) else (burst, false)

/-- Text with a blank or of sixteen characters is taken for a paste. -/
def looksPastey (grabbed : Str) : Bool := grabbed.any isWhitespace || decide (16 ≤ grabbed.length)

def decideBeginBuffer (before : Str) (retroChars : ℕ) : Option (PasteBurst × Option RetroGrab) := do
  let startByte := retroStartIndex before retroChars
  let grabbed ← slice before startByte (utf8Length before)
  if looksPastey grabbed then
    return (burst.beginWithRetroGrabbed grabbed now, some ⟨startByte, grabbed⟩)
  else return (burst, none)

def flushBeforeModifiedInput : PasteBurst × Option Str :=
  if burst.isActive then
    ({ burst with active := false, buffer := [], pendingFirstChar := none },
      some (burst.buffer ++ (burst.pendingFirstChar.map (·.1)).toList))
  else (burst, none)

def clearAfterExplicitPaste : PasteBurst := default

end PasteBurst
end CodexRs.Tui
