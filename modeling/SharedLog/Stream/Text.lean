/-
# The text of a stream id

An id is written as lower-case hexadecimal digits in groups of 8, 4, 4, 4 and 12, joined by
hyphens. It is read in either case from that form, from the same form in braces or behind
`urn:uuid:`, and from the 32 digits alone.
-/
import SharedLog.Stream.Id
import SharedLog.Text.Hex

namespace SharedLog.StreamId

open Text

/-- The lengths of the groups of digits. -/
def groupLengths : List Nat := [8, 4, 4, 4, 12]

/-- The digits cut into groups with a hyphen between two groups. -/
def hyphenate : List Nat → List Char → List Char
  | [], _ => []
  | [n], cs => cs.take n
  | n :: ns, cs => cs.take n ++ '-' :: hyphenate ns (cs.drop n)

/-- The digits of hyphenated groups of the given lengths. -/
def dehyphenate? : List Nat → List Char → Option (List Char)
  | [], cs => if cs = [] then some [] else none
  | [n], cs => if cs.length = n then some cs else none
  | n :: ns, cs =>
    match cs.drop n with
    | '-' :: rest => (dehyphenate? ns rest).map (cs.take n ++ ·)
    | _ => none

/-- The characters of an id's text. -/
def chars (s : StreamId) : List Char := hyphenate groupLengths (Hex.digits 32 s.val)

/-- The text of an id. -/
def text (s : StreamId) : String := String.ofList s.chars

instance : ToString StreamId := ⟨text⟩

/-- What comes before the hyphenated form in a uniform resource name. -/
def resourceName : List Char := ['u', 'r', 'n', ':', 'u', 'u', 'i', 'd', ':']

/-- The id written by exactly 32 digits. -/
def ofDigits? (cs : List Char) : Option StreamId :=
  if cs.length = 32 then (Hex.number? cs).bind ofNat? else none

/-- The id written by hyphenated groups of digits. -/
def ofHyphenated? (cs : List Char) : Option StreamId :=
  (dehyphenate? groupLengths cs).bind ofDigits?

/-- The hyphenated form inside braces or behind the scheme of a resource name, if the text is one
of these. -/
def unwrap? (cs : List Char) : Option (List Char) :=
  if (cs.take resourceName.length).map Char.toLower = resourceName then
    some (cs.drop resourceName.length)
  else if cs.head? = some '\x7b' ∧ cs.getLast? = some '\x7d' then some (cs.drop 1).dropLast
  else none

/-- The id that a list of characters writes in one of the accepted forms. -/
def ofChars? (cs : List Char) : Option StreamId :=
  match unwrap? cs with
  | some inner => ofHyphenated? inner
  | none => (ofDigits? cs).or (ofHyphenated? cs)

/-- The id that a text writes in one of the accepted forms. -/
def ofText? (text : String) : Option StreamId := ofChars? text.toList

end SharedLog.StreamId
