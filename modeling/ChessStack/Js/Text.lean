import Mathlib.Data.List.Basic

/-!
# Strings by code units

Library `Js`. JavaScript strings as the lists of their UTF-16 units, any of which may stand alone,
and `JSON.stringify` of a string with the reader of what it prints.
-/

namespace ChessStack.Js

/-- What is said of all letters of a text is decided letter by letter. -/
instance (priority := high) decidableLetters {l : List Char} {P : Char → Prop}
    [DecidablePred P] : Decidable (∀ c ∈ l, P c) := List.decidableBAll P l

/-- A string: its UTF-16 code units. -/
abbrev Text := List UInt16

/-- The units of an ASCII literal. -/
def text (s : String) : Text := s.toList.map fun c ↦ UInt16.ofNat c.toNat

/-- The first half of a surrogate pair. -/
def isHighSurrogate (c : UInt16) : Bool := 0xd800 ≤ c && c < 0xdc00

/-- The second half of a surrogate pair. -/
def isLowSurrogate (c : UInt16) : Bool := 0xdc00 ≤ c && c < 0xe000

/-! ### `JSON.stringify` -/

/-- A hexadecimal digit. -/
def hexDigitUnit (n : Nat) : UInt16 := UInt16.ofNat (if n < 10 then 48 + n else 87 + n)

/-- `\u` and four digits. -/
def unicodeEscape (c : UInt16) : Text :=
  [0x5c, 0x75, hexDigitUnit (c.toNat / 4096), hexDigitUnit (c.toNat / 256 % 16),
    hexDigitUnit (c.toNat / 16 % 16), hexDigitUnit (c.toNat % 16)]

/-- A unit in a JSON string, of which a surrogate stands alone. -/
def quoteUnit (c : UInt16) : Text :=
  if c = 0x08 then [0x5c, 0x62]
  else if c = 0x09 then [0x5c, 0x74]
  else if c = 0x0a then [0x5c, 0x6e]
  else if c = 0x0c then [0x5c, 0x66]
  else if c = 0x0d then [0x5c, 0x72]
  else if c = 0x22 ∨ c = 0x5c then [0x5c, c]
  else if c < 0x20 ∨ isHighSurrogate c ∨ isLowSurrogate c then unicodeEscape c
  else [c]

/-- What `JSON.stringify` puts between the quotes. -/
def quoteBody : Text → Text
  | [] => []
  | [c] => quoteUnit c
  | c :: d :: rest =>
    if isHighSurrogate c && isLowSurrogate d then c :: d :: quoteBody rest
    else quoteUnit c ++ quoteBody (d :: rest)

/-- `JSON.stringify` of a string. -/
def jsonString (t : Text) : Text := 0x22 :: (quoteBody t ++ [0x22])

example : jsonString (text "a\"b\\c\n") = text "\"a\\\"b\\\\c\\n\"" := by decide +kernel

/-! ### Reading it back -/

/-- The value of a hexadecimal digit. -/
def hexUnitValue (c : UInt16) : Nat := if c.toNat < 58 then c.toNat - 48 else c.toNat - 87

/-- The unit a two-letter escape stands for. -/
def unescapeUnit (e : UInt16) : UInt16 :=
  if e = 0x62 then 0x08 else if e = 0x74 then 0x09 else if e = 0x6e then 0x0a
  else if e = 0x66 then 0x0c else if e = 0x72 then 0x0d else e

/-- A JSON string behind its first quotation mark, and what comes behind its last. -/
def readBody : Text → Option (Text × Text)
  | [] => none
  | c :: rest =>
    if c = 0x22 then some ([], rest)
    else if c = 0x5c then
      match rest with
      | [] => none
      | e :: rest =>
        if e = 0x75 then
          match rest with
          | p :: q :: r :: s :: rest => (readBody rest).map fun x ↦
            (UInt16.ofNat (4096 * hexUnitValue p + 256 * hexUnitValue q + 16 * hexUnitValue r +
              hexUnitValue s) :: x.1, x.2)
          | _ => none
        else (readBody rest).map fun x ↦ (unescapeUnit e :: x.1, x.2)
    else (readBody rest).map fun x ↦ (c :: x.1, x.2)

private theorem hexUnitValue_digit : ∀ n < 16, hexUnitValue (hexDigitUnit n) = n := by decide

variable {c : UInt16} {rest : Text}

private theorem readBody_plain (hquote : c ≠ 0x22) (hbackslash : c ≠ 0x5c) :
    readBody (c :: rest) = (readBody rest).map fun x ↦ (c :: x.1, x.2) := by
  rw [readBody.eq_def]
  simp only [if_neg hquote, if_neg hbackslash]

private theorem readBody_escape {e : UInt16} (he : e ≠ 0x75) :
    readBody (0x5c :: e :: rest) = (readBody rest).map fun x ↦ (unescapeUnit e :: x.1, x.2) := by
  rw [readBody.eq_def]
  have hquote : (0x5c : UInt16) ≠ 0x22 := by decide
  simp only [if_neg hquote, if_neg he, if_true]

private theorem readBody_unicodeEscape (c : UInt16) (rest : Text) :
    readBody (unicodeEscape c ++ rest) = (readBody rest).map fun x ↦ (c :: x.1, x.2) := by
  have hc := c.toNat_lt
  have hvalue : UInt16.ofNat (4096 * (c.toNat / 4096) + 256 * (c.toNat / 256 % 16) +
      16 * (c.toNat / 16 % 16) + c.toNat % 16) = c := by
    rw [show 4096 * (c.toNat / 4096) + 256 * (c.toNat / 256 % 16) + 16 * (c.toNat / 16 % 16) +
      c.toNat % 16 = c.toNat by omega]
    exact UInt16.ofNat_toNat
  have hquote : (0x5c : UInt16) ≠ 0x22 := by decide
  rw [unicodeEscape, List.cons_append, readBody.eq_def]
  simp only [List.cons_append, List.nil_append, if_neg hquote, if_true,
    hexUnitValue_digit _ (show c.toNat / 4096 < 16 by omega),
    hexUnitValue_digit _ (show c.toNat / 256 % 16 < 16 by omega),
    hexUnitValue_digit _ (show c.toNat / 16 % 16 < 16 by omega),
    hexUnitValue_digit _ (show c.toNat % 16 < 16 by omega), hvalue]

private theorem readBody_quoteUnit (c : UInt16) (rest : Text) :
    readBody (quoteUnit c ++ rest) = (readBody rest).map fun x ↦ (c :: x.1, x.2) := by
  unfold quoteUnit
  split_ifs with h8 h9 ha hc hd hmark hcode
  · subst h8
    exact readBody_escape (by decide)
  · subst h9
    exact readBody_escape (by decide)
  · subst ha
    exact readBody_escape (by decide)
  · subst hc
    exact readBody_escape (by decide)
  · subst hd
    exact readBody_escape (by decide)
  · obtain rfl | rfl := hmark
    · exact readBody_escape (by decide)
    · exact readBody_escape (by decide)
  · exact readBody_unicodeEscape c rest
  · exact readBody_plain (fun h ↦ hmark (.inl h)) fun h ↦ hmark (.inr h)

private theorem readBody_surrogate (h : isHighSurrogate c = true ∨ isLowSurrogate c = true)
    (rest : Text) :
    readBody (c :: rest) = (readBody rest).map fun x ↦ (c :: x.1, x.2) := by
  apply readBody_plain
  · rintro rfl
    revert h
    decide
  · rintro rfl
    revert h
    decide

/-- What `JSON.stringify` prints is read back, whatever follows it. -/
theorem readBody_quoteBody (t rest : Text) :
    readBody (quoteBody t ++ 0x22 :: rest) = some (t, rest) := by
  fun_induction quoteBody t with
  | case1 =>
    rw [List.nil_append, readBody.eq_def]
    simp
  | case2 c =>
    rw [readBody_quoteUnit, readBody.eq_def]
    simp
  | case3 c d tail hpair ih =>
    rw [Bool.and_eq_true] at hpair
    rw [List.cons_append, List.cons_append, readBody_surrogate (.inl hpair.1),
      readBody_surrogate (.inr hpair.2), ih]
    rfl
  | case4 c d tail _ ih =>
    rw [List.append_assoc, readBody_quoteUnit, ih]
    rfl

/-- Where a JSON string ends is told by itself. -/
theorem jsonString_append_inj {t t' rest rest' : Text}
    (h : jsonString t ++ rest = jsonString t' ++ rest') : t = t' ∧ rest = rest' := by
  simp only [jsonString, List.cons_append, List.append_assoc, List.nil_append] at h
  have hread := congrArg readBody (List.cons.inj h).2
  rw [readBody_quoteBody, readBody_quoteBody] at hread
  simpa using hread

end ChessStack.Js
