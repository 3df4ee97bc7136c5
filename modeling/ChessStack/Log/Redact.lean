import ChessStack.Log.Scrub
import Mathlib.Data.List.Forall2

/-!
# Redacting a record

Library `Log`. `redact` of `Chess-Backend/src/config/logSanitize.js` over a graph of JavaScript
objects, with sharing and cycles. The set of objects seen is passed from one visit to the next; an
exception is caught by the visit it is thrown in, and what was seen stays seen.
-/

namespace ChessStack.Log

/-! ### Values -/

/-- What is neither a string nor an object. -/
inductive Prim where
  | undefined
  | null
  | bool (b : Bool)
  | num (text : String)
  | bigint (text : String)
  | symbol (id : Nat)
  | function (id : Nat)
  deriving DecidableEq, Repr

/-- A value; an object is told by its reference. -/
inductive Value where
  | prim (p : Prim)
  | str (s : String)
  | ref (r : Nat)
  deriving DecidableEq, Repr

/-- What an object is an instance of, other than arrays and errors. -/
inductive Class where
  | plain
  | date (time : Int)
  | other (name : String)
  deriving DecidableEq, Repr

/-- An object: its own enumerable fields in order and its symbol-keyed fields, the items of an
array, of which some may be missing, or what an error answers for the three fields read. -/
inductive Obj where
  | object (cls : Class) (fields symbols : List (String × Value))
  | array (items : List (Option Value))
  | error (name message stack : Value)
  deriving DecidableEq, Repr

/-- The objects of a record by reference. -/
abbrev Heap := Nat → Obj

/-- A result. An object is told by the assignments made to it, `raw` is one that was there before. -/
inductive Out where
  | prim (p : Prim)
  | str (s : String)
  | raw (r : Nat)
  | array (items : List (Option Out))
  | object (fields symbols : List (String × Out))

/-! ### The code -/

/-- The text occurs in the other one. -/
def occursIn (needle text : List Char) : Bool := text.tails.any needle.isPrefixOf

/-- `SENSITIVE_KEY_RE.test(key)`, `logSanitize.js:10`. -/
def sensitiveKey (key : String) : Bool :=
  let text := key.toList.map Char.toLower
  text == "auth".toList ||
    ["password", "passwd", "secret", "token", "cookie", "authorization", "jwt", "session", "apikey",
      "api-key", "api_key", "privatekey", "private-key", "private_key", "credential", "set-cookie",
      "email"].any fun word ↦ occursIn word.toList text

/-- The values `||` replaces. -/
def Prim.falsy : Prim → Bool
  | .undefined | .null => true
  | .bool b => !b
  | .num text => text ∈ ["0", "-0", "NaN"]
  | .bigint text => text == "0"
  | .symbol _ | .function _ => false

/-- `scrubString(v || "")`; `none` where `v` has no `replace` and it throws. -/
def scrubOr : Value → Option String
  | .str s => some (scrubString s)
  | .prim p => if p.falsy then some (scrubString "") else none
  | .ref _ => none

/-- The visits of a list, one after the other. -/
def visitAll {α β : Type} (visit : α → List Nat → β × List Nat) :
    List α → List Nat → List β × List Nat
  | [], seen => ([], seen)
  | a :: as, seen =>
    let first := visit a seen
    let rest := visitAll visit as first.2
    (first.1 :: rest.1, rest.2)

/-- An item of an array; `map` passes over one that is missing. -/
def visitItem (visit : Value → List Nat → Out × List Nat) (item : Option Value) (seen : List Nat) :
    Option Out × List Nat :=
  match item with
  | some v => (some (visit v seen).1, (visit v seen).2)
  | none => (none, seen)

/-- One entry of an object, `logSanitize.js:49–50`. -/
def visitField (visit : Value → List Nat → Out × List Nat) (field : String × Value)
    (seen : List Nat) : (String × Out) × List Nat :=
  if sensitiveKey field.1 then ((field.1, .str REDACTED), seen)
  else ((field.1, (visit field.2 seen).1), (visit field.2 seen).2)

/-- A value as it is. -/
def Value.out : Value → Out
  | .prim p => .prim p
  | .str s => .str s
  | .ref r => .raw r

/-- The message and the stack of an error, scrubbed. -/
def errorTexts (message stack : Value) : Option (String × String) :=
  match scrubOr message, scrubOr stack with
  | some message, some stack => some (message, stack)
  | _, _ => none

/-- The result for an error, `logSanitize.js:44–46`. -/
def formatError (name message stack : Value) : Out :=
  match errorTexts message stack with
  | some (message, stack) =>
    .object [("name", name.out), ("message", .str message), ("stack", .str stack)] []
  | none => .str REDACTED

/-- `redact(value, depth, seen)`, with `11 - depth` levels left, `logSanitize.js:37–56`. -/
def redactAt (h : Heap) : Nat → Value → List Nat → Out × List Nat
  | 0, _, seen => (.str REDACTED, seen)
  | _ + 1, .str s, seen => (.str (scrubString s), seen)
  | _ + 1, .prim p, seen => (.prim p, seen)
  | n + 1, .ref r, seen =>
    if r ∈ seen then (.str "[CIRCULAR]", seen)
    else
      match h r with
      | .error name message stack => (formatError name message stack, seen ++ [r])
      | .array items =>
        let visited := visitAll (visitItem (redactAt h n)) items (seen ++ [r])
        (.array visited.1, visited.2)
      | .object _ fields _ =>
        let visited := visitAll (visitField (redactAt h n)) fields (seen ++ [r])
        (.object visited.1 [], visited.2)

/-- `redact(value)`. -/
def redact (h : Heap) (v : Value) : Out := (redactAt h 11 v []).1

section Spec

variable {h : Heap} {n r : Nat} {seen : List Nat}

/-- An object that was seen is circular. -/
theorem redactAt_seen (hr : r ∈ seen) :
    redactAt h (n + 1) (.ref r) seen = (.str "[CIRCULAR]", seen) := by
  simp only [redactAt, if_pos hr]

/-- An error is formatted. -/
theorem redactAt_error {name message stack : Value} (hr : r ∉ seen)
    (hobj : h r = .error name message stack) :
    redactAt h (n + 1) (.ref r) seen = (formatError name message stack, seen ++ [r]) := by
  simp only [redactAt, if_neg hr, hobj]

/-- The items of an array are visited in order. -/
theorem redactAt_array {items : List (Option Value)} (hr : r ∉ seen) (hobj : h r = .array items) :
    redactAt h (n + 1) (.ref r) seen =
      (.array (visitAll (visitItem (redactAt h n)) items (seen ++ [r])).1,
        (visitAll (visitItem (redactAt h n)) items (seen ++ [r])).2) := by
  simp only [redactAt, if_neg hr, hobj]

/-- The fields of an object are visited in order, its symbols not at all. -/
theorem redactAt_object {cls : Class} {fields symbols : List (String × Value)} (hr : r ∉ seen)
    (hobj : h r = .object cls fields symbols) :
    redactAt h (n + 1) (.ref r) seen =
      (.object (visitAll (visitField (redactAt h n)) fields (seen ++ [r])).1 [],
        (visitAll (visitField (redactAt h n)) fields (seen ++ [r])).2) := by
  simp only [redactAt, if_neg hr, hobj]

end Spec

end ChessStack.Log
