/-
# Reading JSON

A strict reader: it accepts what the grammar of JSON generates and nothing else, with white space
between the parts. Each reader takes its part off the front of the text and gives it with the rest.
-/
import SharedLog.Json
import SharedLog.Text.Numeral

namespace SharedLog.Json

open Text

/-! ## Parts -/

/-- Whether a character is white space between parts. -/
def isGap (c : Char) : Bool := c = ' ' ∨ c = '\n' ∨ c = '\t' ∨ c = '\r'

/-- A text without the white space in front. -/
def skipGap (cs : List Char) : List Char := cs.dropWhile isGap

/-- The element that an escape by code stands for, before halves are put together. -/
def Glyph.ofCode (n : Nat) : Glyph :=
  if 0xD800 ≤ n ∧ n < 0xE000 then lone (UInt16.ofNat n) else char (Char.ofNat n)

/-- The character that a short escape stands for. -/
def shortEscape? (c : Char) : Option Char :=
  match c with
  | '"' => some '"'
  | '\\' => some '\\'
  | '/' => some '/'
  | 'b' => some (Char.ofNat 0x08)
  | 'f' => some (Char.ofNat 0x0C)
  | 'n' => some '\n'
  | 'r' => some '\r'
  | 't' => some '\t'
  | _ => none

/-- The elements of a string up to its closing quotation mark, each half of a pair on its own. -/
def halves? : List Char → Option (List Glyph × List Char)
  | [] => none
  | '"' :: rest => some ([], rest)
  | '\\' :: 'u' :: a :: b :: c :: d :: rest => do
    let n ← Hex.number? [a, b, c, d]
    let (s, rest) ← halves? rest
    some (Glyph.ofCode n :: s, rest)
  | '\\' :: c :: rest => do
    let c ← shortEscape? c
    let (s, rest) ← halves? rest
    some (.char c :: s, rest)
  | c :: rest => do
    let (s, rest) ← halves? rest
    some ((if c.toNat < 0x20 then .control c else .char c) :: s, rest)

/-- The character of a surrogate pair, if the two halves are one. -/
def pair? (high low : UInt16) : Option Char :=
  if high < 0xDC00 ∧ 0xDC00 ≤ low then
    some (Char.ofNat ((high.toNat - 0xD800) * 0x400 + (low.toNat - 0xDC00) + 0x10000))
  else none

/-- The elements with matching halves put together. -/
def joinHalves : List Glyph → List Glyph
  | .lone high :: .lone low :: rest =>
    match pair? high low with
    | some c => .char c :: joinHalves rest
    | none => .lone high :: joinHalves (.lone low :: rest)
  | g :: rest => g :: joinHalves rest
  | [] => []

/-- A string after its opening quotation mark. -/
def readString? (cs : List Char) : Option (List Glyph × List Char) :=
  (halves? cs).map fun (s, rest) => (joinHalves s, rest)

/-- The digits in front of a text, at least one. -/
def readDigits? (cs : List Char) : Option (List Char × List Char) :=
  let digits := cs.takeWhile Numeral.isDigit
  if digits = [] then none else some (digits, cs.drop digits.length)

/-- The fraction of a number, and whether there is one. -/
def readFraction? (cs : List Char) : Option (Bool × List Char) :=
  match cs with
  | '.' :: rest => (readDigits? rest).map fun (_, rest) => (true, rest)
  | _ => some (false, cs)

/-- The exponent of a number, and whether there is one. -/
def readExponent? (cs : List Char) : Option (Bool × List Char) :=
  let exponent (cs : List Char) := (readDigits? cs).map fun (_, rest) => (true, rest)
  match cs with
  | 'e' :: '+' :: rest | 'E' :: '+' :: rest | 'e' :: '-' :: rest | 'E' :: '-' :: rest =>
    exponent rest
  | 'e' :: rest | 'E' :: rest => exponent rest
  | _ => some (false, cs)

/-- A number. Its digits have no zero in front. -/
def readNumber? (cs : List Char) : Option (Json × List Char) := do
  let (negative, cs) := match cs with
    | '-' :: rest => (true, rest)
    | _ => (false, cs)
  let (digits, cs) ← readDigits? cs
  if digits.head? = some '0' ∧ digits.length ≠ 1 then none
  let (fraction, cs) ← readFraction? cs
  let (exponent, cs) ← readExponent? cs
  let plain := !negative && !fraction && !exponent
  some (number (if plain then some (Numeral.value digits) else none), cs)

/-- A given word with the document it stands for. -/
def readWord? (word : List Char) (j : Json) (cs : List Char) : Option (Json × List Char) :=
  if cs.take word.length = word then some (j, cs.drop word.length) else none

/-! ## Documents

The number bounds the nesting and the lengths of lists; twice the length of the text is enough. -/

mutual

/-- A document. -/
def readValue? : Nat → List Char → Option (Json × List Char)
  | 0, _ => none
  | n + 1, cs =>
    match skipGap cs with
    | '"' :: rest => (readString? rest).map fun (s, rest) => (string s, rest)
    | '[' :: rest =>
      match skipGap rest with
      | ']' :: rest => some (array [], rest)
      | _ => (readItems? n rest).map fun (items, rest) => (array items, rest)
    | '\x7b' :: rest =>
      match skipGap rest with
      | '\x7d' :: rest => some (object [], rest)
      | _ => (readMembers? n rest).map fun (members, rest) => (object members, rest)
    | 'n' :: rest => readWord? ['u', 'l', 'l'] null rest
    | 't' :: rest => readWord? ['r', 'u', 'e'] (bool true) rest
    | 'f' :: rest => readWord? ['a', 'l', 's', 'e'] (bool false) rest
    | cs => readNumber? cs

/-- The items of an array, at least one, with the closing bracket. -/
def readItems? : Nat → List Char → Option (List Json × List Char)
  | 0, _ => none
  | n + 1, cs => do
    let (item, cs) ← readValue? n cs
    match skipGap cs with
    | ',' :: rest =>
      let (items, rest) ← readItems? n rest
      some (item :: items, rest)
    | ']' :: rest => some ([item], rest)
    | _ => none

/-- The members of an object, at least one, with the closing brace. -/
def readMembers? : Nat → List Char → Option (List (List Glyph × Json) × List Char)
  | 0, _ => none
  | n + 1, cs =>
    match skipGap cs with
    | '"' :: rest => do
      let (name, rest) ← readString? rest
      match skipGap rest with
      | ':' :: rest =>
        let (value, rest) ← readValue? n rest
        match skipGap rest with
        | ',' :: rest =>
          let (members, rest) ← readMembers? n rest
          some ((name, value) :: members, rest)
        | '\x7d' :: rest => some ([(name, value)], rest)
        | _ => none
      | _ => none
    | _ => none

end

/-- The document that a whole text is. -/
def ofChars? (cs : List Char) : Option Json :=
  match readValue? (2 * cs.length + 2) cs with
  | some (j, rest) => if skipGap rest = [] then some j else none
  | none => none

end SharedLog.Json
