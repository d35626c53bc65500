/-
# Decimal numerals

Natural numbers written in ASCII digits: their value, and the reading of a whole text that must
be a number of a given range.
-/
namespace SharedLog.Text.Numeral

/-- Whether a character is an ASCII digit. -/
def isDigit (c : Char) : Bool := '0' ≤ c ∧ c ≤ '9'

/-- The value of an ASCII digit. -/
def digitValue (c : Char) : Nat := c.toNat - '0'.toNat

/-- The number that a list of digits writes. -/
def value (digits : List Char) : Nat := digits.foldl (fun n c => 10 * n + digitValue c) 0

/-- The number that a whole text writes: an optional plus sign and at least one digit, with the
value below `bound`. -/
def ofText? (bound : Nat) (text : String) : Option Nat :=
  let digits := match text.toList with
    | '+' :: rest => rest
    | cs => cs
  if digits ≠ [] ∧ digits.all isDigit ∧ value digits < bound then some (value digits) else none

/-- A number in at least `width` digits, with zeros in front. -/
def padded (width n : Nat) : List Char :=
  let digits := Nat.toDigits 10 n
  List.replicate (width - digits.length) '0' ++ digits

end SharedLog.Text.Numeral
