import CodexRs.Library.Base64
import CodexRs.Protocol.Models

/-!
# Truncation of output

A beginning and an end are kept. Budgets are in bytes or in tokens of about four bytes.
-/
namespace CodexRs.Utils
open Text Protocol Base64

inductive TruncationPolicy where
  | bytes (limit : ℕ)
  | tokens (limit : ℕ)

def approxBytesPerToken : ℕ := 4

def approxTokenCount (text : Str) : ℕ :=
  (utf8Length text + (approxBytesPerToken - 1)) / approxBytesPerToken

def approxBytesForTokens (tokens : ℕ) : ℕ := tokens * approxBytesPerToken

def approxTokensFromByteCount (bytes : ℕ) : ℕ :=
  (bytes + (approxBytesPerToken - 1)) / approxBytesPerToken

namespace TruncationPolicy

def tokenBudget : TruncationPolicy → ℕ
  | bytes limit => approxTokensFromByteCount limit
  | tokens limit => limit

def byteBudget : TruncationPolicy → ℕ
  | bytes limit => limit
  | tokens limit => approxBytesForTokens limit

end TruncationPolicy

/-- The characters that end at a byte offset or before it. -/
def takeBytes : ℕ → Str → Str
  | _, [] => []
  | n, c :: s => if c.utf8Size ≤ n then c :: takeBytes (n - c.utf8Size) s else []

/-- The characters from a byte offset on. -/
def dropBytes : ℕ → Str → Str
  | _, [] => []
  | 0, s => s
  | n, c :: s => dropBytes (n - c.utf8Size) s

structure SplitState where
  idx : ℕ
  prefixEnd : ℕ
  suffixStart : ℕ
  removedChars : ℕ
  suffixStarted : Bool

def splitChar (beginningBytes tailStartTarget : ℕ) (s : SplitState) (ch : Char) : SplitState :=
  let charEnd := s.idx + ch.utf8Size
  let s' : SplitState :=
    if charEnd ≤ beginningBytes then { s with prefixEnd := charEnd }
    else if tailStartTarget ≤ s.idx then
      if s.suffixStarted then s else { s with suffixStart := s.idx, suffixStarted := true }
    else { s with removedChars := s.removedChars + 1 }
  { s' with idx := charEnd }

/-- The number of characters cut out, and what is kept before and behind them. -/
def splitString (s : Str) (beginningBytes endBytes : ℕ) : ℕ × Str × Str :=
  let len := utf8Length s
  let split := s.foldl (splitChar beginningBytes (len - endBytes)) ⟨0, 0, len, 0, false⟩
  let suffixStart := max split.suffixStart split.prefixEnd
  (split.removedChars, takeBytes split.prefixEnd s, dropBytes suffixStart s)

def splitBudget (budget : ℕ) : ℕ × ℕ := (budget / 2, budget - budget / 2)

def formatTruncationMarker (useTokens : Bool) (removedCount : ℕ) : Str :=
  '…' :: Nat.toDigits 10 removedCount ++
    (if useTokens then " tokens truncated…".toList else " chars truncated…".toList)

def removedUnits (useTokens : Bool) (removedBytes removedChars : ℕ) : ℕ :=
  if useTokens then approxTokensFromByteCount removedBytes else removedChars

def truncateWithByteEstimate (s : Str) (maxBytes : ℕ) (useTokens : Bool) : Str :=
  if s = [] then []
  else if maxBytes = 0 then
    formatTruncationMarker useTokens (removedUnits useTokens (utf8Length s) s.length)
  else if utf8Length s ≤ maxBytes then s
  else
    let (leftBudget, rightBudget) := splitBudget maxBytes
    let (removedChars, left, right) := splitString s leftBudget rightBudget
    left ++ formatTruncationMarker useTokens
      (removedUnits useTokens (utf8Length s - maxBytes) removedChars) ++ right

def truncateMiddleChars (s : Str) (maxBytes : ℕ) : Str := truncateWithByteEstimate s maxBytes false

/-- The truncated text, with the number of tokens it had if something was cut. -/
def truncateMiddleWithTokenBudget (s : Str) (maxTokens : ℕ) : Str × Option ℕ :=
  if s = [] then ([], none)
  else if 0 < maxTokens ∧ utf8Length s ≤ approxBytesForTokens maxTokens then (s, none)
  else
    let truncated := truncateWithByteEstimate s (approxBytesForTokens maxTokens) true
    if truncated = s then (truncated, none) else (truncated, some (approxTokenCount s))

def truncateText (content : Str) : TruncationPolicy → Str
  | .bytes limit => truncateMiddleChars content limit
  | .tokens limit => (truncateMiddleWithTokenBudget content limit).1

/-- A text over its budget loses its middle. -/
example : truncateText "abcdef".toList (.bytes 6) = "abcdef".toList ∧
    truncateText "abcdef".toList (.bytes 3) = "a…3 chars truncated…ef".toList := by
  decide +kernel

structure ItemsState where
  out : List FunctionCallOutputContentItem
  remainingBudget : ℕ
  omittedTextItems : ℕ

def truncateItem (policy : TruncationPolicy) (s : ItemsState) :
    FunctionCallOutputContentItem → ItemsState
  | .inputText text =>
    if s.remainingBudget = 0 then { s with omittedTextItems := s.omittedTextItems + 1 }
    else
      let cost := match policy with
        | .bytes _ => utf8Length text
        | .tokens _ => approxTokenCount text
      if cost ≤ s.remainingBudget then
        { s with out := s.out ++ [.inputText text], remainingBudget := s.remainingBudget - cost }
      else
        let snippet := truncateText text (match policy with
          | .bytes _ => .bytes s.remainingBudget
          | .tokens _ => .tokens s.remainingBudget)
        if snippet = [] then
          { s with omittedTextItems := s.omittedTextItems + 1, remainingBudget := 0 }
        else { s with out := s.out ++ [.inputText snippet], remainingBudget := 0 }
  | .inputImage imageUrl detail => { s with out := s.out ++ [.inputImage imageUrl detail] }

def truncateFunctionOutputItemsWithPolicy (items : List FunctionCallOutputContentItem)
    (policy : TruncationPolicy) : List FunctionCallOutputContentItem :=
  let budget := match policy with
    | .bytes _ => policy.byteBudget
    | .tokens _ => policy.tokenBudget
  let final := items.foldl (truncateItem policy) ⟨[], budget, 0⟩
  if 0 < final.omittedTextItems then
    final.out ++ [.inputText
      ("[omitted ".toList ++ Nat.toDigits 10 final.omittedTextItems ++ " text items ...]".toList)]
  else final.out

end CodexRs.Utils
