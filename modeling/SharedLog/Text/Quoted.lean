/-
# Quoted text

A text between quotation marks, as it appears in descriptions. Quotation marks and backslashes are
escaped, and so is every character that would not stand on its own between the marks: one that is
not printable, and one that joins the character before it.
-/
import SharedLog.Text.ExtendingMark
import SharedLog.Text.Hex
import SharedLog.Text.Printable

namespace SharedLog.Text

/-- One character of a quoted text. -/
def quotedChar (c : Char) : List Char :=
  if c = '"' ∨ c = '\\' then ['\\', c]
  else if c = '\n' then ['\\', 'n']
  else if c = '\r' then ['\\', 'r']
  else if c = '\t' then ['\\', 't']
  else if c = Char.ofNat 0 then ['\\', '0']
  else if isExtendingMark c ∨ ¬ isPrintable c then
    '\\' :: 'u' :: '\x7b' :: Nat.toDigits 16 c.toNat ++ ['\x7d']
  else [c]

/-- A text between quotation marks. -/
def quoted (text : String) : String :=
  String.ofList ('"' :: text.toList.flatMap quotedChar ++ ['"'])

end SharedLog.Text
