import Mathlib.Data.List.Basic

/-!
# JSON values and their coercions

Library `Js`. What a client can put into a packet, and the JavaScript coercions the handlers of
`Chess-Backend/src/socket/gameSocket.js` apply to it. `none` is `undefined` throughout. A value
that comes from JSON has no function-valued property, so an object has a primitive conversion
exactly when `toString` is not among its own keys.
-/

namespace ChessStack.Js

/-- A parsed JSON value. A number is carried by the text `String` gives it. -/
inductive Json where
  | null
  | bool (b : Bool)
  | num (text : String)
  | str (s : String)
  | arr (items : List Json)
  | obj (fields : List (String × Json))

/-- `v?.name`, and `v.name` on a value that is neither `null` nor `undefined`. -/
def field (v : Option Json) (name : String) : Option Json :=
  match v with
  | some (.obj fields) => (fields.find? fun f ↦ f.1 == name).map Prod.snd
  | _ => none

mutual

/-- `String(v)`; `none` when it throws a `TypeError`. -/
def Json.toStr : Json → Option String
  | .null => some "null"
  | .bool b => some (if b then "true" else "false")
  | .num text => some text
  | .str s => some s
  | .arr items => joinItems items
  | .obj fields => if fields.any (fun f ↦ f.1 == "toString") then none else some "[object Object]"

/-- `items.join(",")`, in which `null` counts as the empty string. -/
def joinItems : List Json → Option String
  | [] => some ""
  | [item] => item.joinItem
  | item :: items =>
    match item.joinItem, joinItems items with
    | some s, some rest => some (s ++ "," ++ rest)
    | _, _ => none

/-- One item of a `join`. -/
def Json.joinItem : Json → Option String
  | .null => some ""
  | .bool b => some (if b then "true" else "false")
  | .num text => some text
  | .str s => some s
  | .arr items => joinItems items
  | .obj fields => if fields.any (fun f ↦ f.1 == "toString") then none else some "[object Object]"

end

/-- The values `||` replaces. -/
def falsy : Option Json → Bool
  | none => true
  | some .null => true
  | some (.bool b) => !b
  | some (.num text) => text == "0"
  | some (.str s) => s == ""
  | some _ => false

/-- `String(v || "")`. -/
def stringOr (v : Option Json) : Option String :=
  match v with
  | some j => if falsy v then some "" else j.toStr
  | none => some ""

end ChessStack.Js
