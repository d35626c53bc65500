/-
# JSON documents

A JSON document as it stands in a text. Strings keep what a strict reader must know of them: a
control character that stands unescaped, and half of a surrogate pair that stands alone. Neither is
part of a text, but a string read as bytes may hold both, and a string that is skipped may hold the
latter. Of a number only one thing matters: which natural number it is, if it is written as one.
-/
import SharedLog.Text.Hex

namespace SharedLog

/-- One element of a JSON string. -/
inductive Json.Glyph
  /-- A character, as it is or escaped. -/
  | char (c : Char)
  /-- A control character that is not escaped. -/
  | control (c : Char)
  /-- An escaped half of a surrogate pair without its other half. -/
  | lone (half : UInt16)
deriving DecidableEq

/-- A JSON document. -/
inductive Json
  | null
  | bool (value : Bool)
  /-- A number, and the natural number that its digits write if there is nothing else to it. -/
  | number (natural? : Option Nat)
  | string (glyphs : List Json.Glyph)
  | array (items : List Json)
  /-- The members in the order of the text, a name possibly more than once. -/
  | object (members : List (List Json.Glyph × Json))

namespace Json

/-! ## Strings -/

/-- The elements of a text. -/
def glyphs (text : String) : List Glyph := text.toList.map .char

/-- The string document with the given text. -/
def ofText (text : String) : Json := string (glyphs text)

/-- The character, if the element is part of a text. -/
def Glyph.char? : Glyph → Option Char
  | char c => some c
  | control _ | lone _ => none

/-- The text of a string, if it is one. -/
def text? (s : List Glyph) : Option String := (s.mapM Glyph.char?).map String.ofList

/-- Three bytes that stand for half of a surrogate pair, formed as for any other code point. -/
def halfBytes (half : UInt16) : List UInt8 :=
  let n := half.toNat
  [UInt8.ofNat (0xE0 + n / 0x1000), UInt8.ofNat (0x80 + n / 0x40 % 0x40),
    UInt8.ofNat (0x80 + n % 0x40)]

/-- The UTF-8 bytes of an element. -/
def Glyph.bytes : Glyph → List UInt8
  | char c | control c => (String.singleton c).toUTF8.toList
  | lone half => halfBytes half

/-- The bytes of a string. -/
def bytes (s : List Glyph) : List UInt8 := s.flatMap Glyph.bytes

/-- Whether a string may be skipped unread: all its control characters are escaped. -/
def isSkippable (s : List Glyph) : Bool :=
  s.all fun
    | .control _ => false
    | _ => true

/-! ## Documents -/

mutual

/-- Whether a document may be skipped unread. -/
def canSkip : Json → Bool
  | null | bool _ | number _ => true
  | string s => isSkippable s
  | array items => canSkipItems items
  | object members => canSkipMembers members

/-- Whether all items may be skipped unread. -/
def canSkipItems : List Json → Bool
  | [] => true
  | item :: rest => item.canSkip && canSkipItems rest

/-- Whether all members may be skipped unread. -/
def canSkipMembers : List (List Glyph × Json) → Bool
  | [] => true
  | (name, value) :: rest => isSkippable name && value.canSkip && canSkipMembers rest

end

/-- The natural number of a document, if it is one below `bound`. -/
def natural? (bound : Nat) : Json → Option Nat
  | number (some n) => if n < bound then some n else none
  | _ => none

/-- The truth value of a document. -/
def bool? : Json → Option Bool
  | bool b => some b
  | _ => none

/-- The text of a document. -/
def string? : Json → Option String
  | string s => text? s
  | _ => none

/-- The items of a document. -/
def array? : Json → Option (List Json)
  | array items => some items
  | _ => none

/-- What a document says where nothing may be said. -/
def optional? {α : Type} (read : Json → Option α) : Json → Option (Option α)
  | null => some none
  | j => (read j).map some

/-- The members of a document, with the texts of their names. -/
def object? : Json → Option (List (String × Json))
  | object members => members.mapM fun (name, value) => (text? name).map (·, value)
  | _ => none

/-- The value of the only member of that name. Two members of one name are an error. -/
def member? (members : List (String × Json)) (name : String) : Option (Option Json) :=
  match members.filter (·.1 = name) with
  | [] => some none
  | [(_, value)] => some (some value)
  | _ => none

/-- The fields of a record in the order of their names: the members of an object, of which some may
be missing and others are skipped, or the items of an array, which must be as many as the names. -/
def fields? (names : List String) : Json → Option (List (Option Json))
  | array items => if items.length = names.length then some (items.map some) else none
  | j => do
    let members ← j.object?
    if members.all fun (name, value) => names.contains name || value.canSkip then
      names.mapM (member? members)
    else none

/-- The name and the content of a choice: a text alone, or an object with one member. -/
def choice? : Json → Option (String × Option Json)
  | string s => (text? s).map (·, none)
  | object [(name, value)] => (text? name).map (·, some value)
  | _ => none

/-- Whether the content of a choice is none, or nothing said. -/
def isVoid : Option Json → Bool
  | none | some null => true
  | _ => false

end Json

end SharedLog
