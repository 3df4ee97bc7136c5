import ChessStack.Library.Replace

/-!
# Scrubbing a text

Library `Log`. `scrubString` of `Chess-Backend/src/config/logSanitize.js`: four patterns, each
replaced everywhere in what the one before has left.
-/

namespace ChessStack.Log

open ChessStack.Library

/-- `"[REDACTED]"`, `logSanitize.js:8`. -/
def REDACTED : String := "[REDACTED]"

/-! ### Letters -/

/-- `\w`. -/
def isWord (c : Char) : Bool := c.isAlphanum || c == '_'

/-- The letter is there and is a `\w`. -/
def wordAt (c : Option Char) : Bool := c.any isWord

/-- `\b`, between the two. -/
def boundary (prev next : Option Char) : Bool := wordAt prev != wordAt next

/-- `\s`. -/
def isSpace (c : Char) : Bool :=
  c.toNat ∈ [9, 10, 11, 12, 13, 32, 0xa0, 0x1680, 0x2028, 0x2029, 0x202f, 0x205f, 0x3000, 0xfeff] ||
    (0x2000 ≤ c.toNat && c.toNat ≤ 0x200a)

/-- ``[^\s"'`]``. -/
def inUrl (c : Char) : Bool := !isSpace c && c.toNat ∉ [34, 39, 96]

/-- `[0-9A-Z]`. -/
def inKeyId (c : Char) : Bool := c.isDigit || c.isUpper

/-- `[A-Za-z0-9_-]`. -/
def inToken (c : Char) : Bool := isWord c || c == '-'

/-- `[A-Za-z0-9-]`. -/
def inSlack (c : Char) : Bool := c.isAlphanum || c == '-'

/-! ### The patterns -/

/-- `postgres(ql)?|mysql|mongodb(\+srv)?|redis(rediss)?`, the longer branch of an option first. -/
def schemes : List (List Char) :=
  ["postgresql", "postgres", "mysql", "mongodb+srv", "mongodb", "redisrediss", "redis"].map
    String.toList

/-- The text starts with the scheme, in any letter case, and `://`. -/
def startsScheme (scheme text : List Char) : Bool :=
  (text.take scheme.length).map Char.toLower == scheme &&
    (text.drop scheme.length).take 3 == "://".toList

/-- ``/\b(postgres(ql)?|mysql|mongodb(\+srv)?|redis(rediss)?):\/\/[^\s"'`]+/gi``, of which the
replacement `$1://[REDACTED]` keeps the scheme. -/
def urlPattern : Pattern Char := fun prev text ↦
  if wordAt prev then none
  else (schemes.find? fun scheme ↦ startsScheme scheme text &&
      (text.drop (scheme.length + 3)).head?.any inUrl).map fun scheme ↦
    { kept := scheme.length + 3
      hidden := ((text.drop (scheme.length + 3)).takeWhile inUrl).length
      mark := REDACTED.toList }

/-- `/\bAKIA[0-9A-Z]{16}\b/g`. -/
def keyIdPattern : Pattern Char := fun prev text ↦
  if !wordAt prev && text.take 4 == "AKIA".toList && 20 ≤ text.length &&
      ((text.drop 4).take 16).all inKeyId && !wordAt (text.drop 20).head? then
    some ⟨0, 20, "[REDACTED_AWS_KEY]".toList⟩
  else none

/-- A dot and at least eight letters of a token; their number. -/
def segment (text : List Char) : Option Nat :=
  match text with
  | '.' :: rest => if 8 ≤ (rest.takeWhile inToken).length then
      some ((rest.takeWhile inToken).length + 1) else none
  | _ => none

/-- `/\beyJ[A-Za-z0-9_-]{8,}\.[A-Za-z0-9_-]{8,}(\.[A-Za-z0-9_-]{8,})?/g`. -/
def jwtPattern : Pattern Char := fun prev text ↦
  if !wordAt prev && text.take 3 == "eyJ".toList then
    let first := ((text.drop 3).takeWhile inToken).length
    if 8 ≤ first then
      (segment (text.drop (3 + first))).map fun second ↦
        ⟨0, 3 + first + second + (segment (text.drop (3 + first + second))).getD 0,
          "[REDACTED_JWT]".toList⟩
    else none
  else none

/-- The longest match of `[A-Za-z0-9-]+\b`: `n` letters of the class are left to try. -/
def longestSlack (text : List Char) : Nat → Option Nat
  | 0 => none
  | n + 1 => if boundary text[n]? text[n + 1]? then some (n + 1) else longestSlack text n

/-- `/\bxox[baprs]-[A-Za-z0-9-]+\b/g`. -/
def slackPattern : Pattern Char := fun prev text ↦
  match wordAt prev, text with
  | false, 'x' :: 'o' :: 'x' :: c :: '-' :: rest =>
    if c ∈ ['b', 'a', 'p', 'r', 's'] then
      (longestSlack rest (rest.takeWhile inSlack).length).map fun n ↦ ⟨0, n + 5, REDACTED.toList⟩
    else none
  | _, _ => none

/-- `PATTERNS`, `logSanitize.js:14–24`. -/
def PATTERNS : List (Pattern Char) := [urlPattern, keyIdPattern, jwtPattern, slackPattern]

/-- The passes over a text. -/
def scrubText (text : List Char) : List Char :=
  PATTERNS.foldl (fun out re ↦ replaceAll re none 0 out) text

/-- A text settled for every pattern passes as it is. -/
theorem scrubText_of_settled {text : List Char} (h : ∀ re ∈ PATTERNS, Settled re none text) :
    scrubText text = text := by
  unfold scrubText
  generalize PATTERNS = patterns at h
  induction patterns with
  | nil => rfl
  | cons re patterns ih =>
    rw [List.foldl_cons, replaceAll_of_settled (h re List.mem_cons_self) 0, List.drop_zero]
    exact ih fun re' hre' ↦ h re' (List.mem_cons_of_mem re hre')

/-- `scrubString`, `logSanitize.js:28–35`. -/
def scrubString (text : String) : String := String.ofList (scrubText text.toList)

example : scrubString "at mysql://root:pw@db/chess, retry" = "at mysql://[REDACTED] retry" := by
  decide +kernel

end ChessStack.Log
