import ChessStack.Js.Text
import Mathlib.Data.List.TakeWhile

/-!
# The text format of a scrape

Library `Metrics`. The Prometheus text format as a scraper reads it: lines, of which those that start
with `#` are comments, and in the others a metric name, labels in braces with quoted values, and a
value, with blanks between them and perhaps a time stamp behind.
-/

namespace ChessStack.Metrics

open ChessStack.Js

/-- A line with a value. -/
structure Sample where
  name : Text
  labels : List (Text × Text)
  value : Text
  deriving DecidableEq

/-! ### The reader -/

/-- A blank or a tab. -/
def isBlank (c : UInt16) : Bool := c == 0x20 || c == 0x09

/-- A Latin letter. -/
def isLetter (c : UInt16) : Bool := (0x61 ≤ c && c ≤ 0x7a) || (0x41 ≤ c && c ≤ 0x5a)

/-- A digit. -/
def isDigit (c : UInt16) : Bool := 0x30 ≤ c && c ≤ 0x39

/-- `[a-zA-Z_]`, the first letter of a label name. -/
def labelStart (c : UInt16) : Bool := isLetter c || c == 0x5f

/-- `[a-zA-Z0-9_]`. -/
def labelPart (c : UInt16) : Bool := labelStart c || isDigit c

/-- `[a-zA-Z_:]`, the first letter of a metric name. -/
def nameStart (c : UInt16) : Bool := labelStart c || c == 0x3a

/-- `[a-zA-Z0-9_:]`. -/
def namePart (c : UInt16) : Bool := nameStart c || isDigit c

/-- The text after its blanks. -/
def skipBlanks (t : Text) : Text := t.dropWhile isBlank

/-- A name with its first letter from one class and the others from another. -/
def takeName (start part : UInt16 → Bool) : Text → Option (Text × Text)
  | [] => none
  | c :: rest => if start c then some (c :: rest.takeWhile part, rest.dropWhile part) else none

/-- The unit that has to be next. -/
def expect (c : UInt16) : Text → Option Text
  | [] => none
  | d :: rest => if d = c then some rest else none

/-- A label value behind its first quotation mark. -/
def readValue : Text → Option (Text × Text)
  | [] => none
  | c :: rest =>
    if c = 0x22 then some ([], rest)
    else if c = 0x5c then
      match rest with
      | [] => none
      | e :: rest =>
        if e = 0x5c ∨ e = 0x22 then (readValue rest).map fun x ↦ (e :: x.1, x.2)
        else if e = 0x6e then (readValue rest).map fun x ↦ (0x0a :: x.1, x.2)
        else none
    else (readValue rest).map fun x ↦ (c :: x.1, x.2)

/-- One label and the text behind it. -/
def readLabel (t : Text) : Option ((Text × Text) × Text) := do
  let (name, t) ← takeName labelStart labelPart t
  let t ← expect 0x3d (skipBlanks t)
  let t ← expect 0x22 (skipBlanks t)
  let (value, t) ← readValue t
  some ((name, value), t)

/-- Labels, of which there are at most `n`, and the closing brace. -/
def readLabels : Nat → Text → Option (List (Text × Text) × Text)
  | 0, _ => none
  | n + 1, t =>
    match expect 0x7d (skipBlanks t) with
    | some rest => some ([], rest)
    | none => do
      let (label, t) ← readLabel (skipBlanks t)
      match expect 0x2c (skipBlanks t) with
      | some rest => (readLabels n rest).map fun x ↦ (label :: x.1, x.2)
      | none => (expect 0x7d (skipBlanks t)).map fun rest ↦ ([label], rest)

/-- A value, and a time stamp or nothing behind it. -/
def readEnd (t : Text) : Option Text :=
  let value := t.takeWhile (!isBlank ·)
  let stamp := skipBlanks (t.dropWhile (!isBlank ·))
  if value ≠ [] ∧ skipBlanks (stamp.dropWhile (!isBlank ·)) = [] then some value else none

/-- The sample of a line. -/
def readSample (t : Text) : Option Sample := do
  let (name, t) ← takeName nameStart namePart t
  let (labels, t) ← match expect 0x7b (skipBlanks t) with
    | some rest => readLabels (rest.length + 1) rest
    | none => some ([], t)
  let value ← readEnd (skipBlanks t)
  some ⟨name, labels, value⟩

/-- A line: nothing for a comment or an empty line. -/
def readLine (line : Text) : Option (List Sample) :=
  match skipBlanks line with
  | [] => some []
  | c :: rest => if c = 0x23 then some [] else (readSample (c :: rest)).map ([·])

/-- The samples of lines. -/
def readLines : List Text → Option (List Sample)
  | [] => some []
  | line :: lines => do
    let samples ← readLine line
    let more ← readLines lines
    some (samples ++ more)

/-- The samples of an exposition. -/
def readExposition (t : Text) : Option (List Sample) := readLines (t.splitOn 0x0a)

example : readExposition (text "# TYPE a counter\na\x7bb=\"x\\\"y\",\x7d 3 17\n") =
    some [⟨text "a", [(text "b", text "x\"y")], text "3"⟩] := by
  decide +kernel

end ChessStack.Metrics
