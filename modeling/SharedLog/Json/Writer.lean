/-
# Writing JSON

Documents are written without white space. In strings, quotation marks, backslashes and control
characters are escaped, by their short escapes where there are such; all else stands as it is.
-/
import SharedLog.Json

namespace SharedLog.Json

open Text

/-- An escape by code: four hexadecimal digits. -/
def codeEscape (n : Nat) : List Char := '\\' :: 'u' :: Hex.digits 4 n

/-- One character of a string. -/
def escapeChar (c : Char) : List Char :=
  match c with
  | '"' => ['\\', '"']
  | '\\' => ['\\', '\\']
  | '\n' => ['\\', 'n']
  | '\r' => ['\\', 'r']
  | '\t' => ['\\', 't']
  | c =>
    if c.toNat = 0x08 then ['\\', 'b']
    else if c.toNat = 0x0C then ['\\', 'f']
    else if c.toNat < 0x20 then codeEscape c.toNat
    else [c]

/-- One element of a string. -/
def Glyph.render : Glyph → List Char
  | char c => escapeChar c
  | control c => [c]
  | lone half => codeEscape half.toNat

/-- A string between quotation marks. -/
def renderString (s : List Glyph) : List Char := '"' :: s.flatMap Glyph.render ++ ['"']

mutual

/-- The characters of a document. A number that is no natural one is written as such a number. -/
def render : Json → List Char
  | null => ['n', 'u', 'l', 'l']
  | bool true => ['t', 'r', 'u', 'e']
  | bool false => ['f', 'a', 'l', 's', 'e']
  | number (some n) => Nat.toDigits 10 n
  | number none => ['-', '0']
  | string s => renderString s
  | array items => '[' :: renderItems items ++ [']']
  | object members => '\x7b' :: renderMembers members ++ ['\x7d']

/-- The items of an array with commas between them. -/
def renderItems : List Json → List Char
  | [] => []
  | [item] => item.render
  | item :: rest => item.render ++ ',' :: renderItems rest

/-- The members of an object with commas between them. -/
def renderMembers : List (List Glyph × Json) → List Char
  | [] => []
  | [(name, value)] => renderString name ++ ':' :: value.render
  | (name, value) :: rest => renderString name ++ ':' :: value.render ++ ',' :: renderMembers rest

end

end SharedLog.Json
