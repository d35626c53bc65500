/-
# Kinds of hole-fill policies

A configuration names the kind of its policy by a word, in any letter case and with white space
around it.
-/
import SharedLog.Text.Blank

namespace SharedLog

/-- A kind of hole-fill policy. -/
inductive HoleFillKind
  | immediate
  | fixed
  | backoff
deriving DecidableEq

namespace HoleFillKind

/-- The word for a kind. -/
def text : HoleFillKind → String
  | immediate => "immediate"
  | fixed => "fixed"
  | backoff => "backoff"

/-- A word without the white space around it and with ASCII letters in lower case. -/
def normalize (word : String) : String :=
  String.ofList ((Text.trim word.toList).map Char.toLower)

/-- The kind that a word names, or why it names none. -/
def ofText (word : String) : Except String HoleFillKind :=
  let name := normalize word
  if name = immediate.text then .ok immediate
  else if name = fixed.text then .ok fixed
  else if name = backoff.text then .ok backoff
  else .error s!"unknown hole fill policy: {name}"

end HoleFillKind

end SharedLog
