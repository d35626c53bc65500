/-
# The text of a timestamp

A timestamp is written as RFC 3339 has it: date, `T`, time of day and `Z`, with no fraction or one
of 3, 6 or 9 digits, whichever is the shortest exact one. A year outside 0 to 9999 has a sign.

Reading is laxer. Numbers may lack their leading zeros and have white space before them, date and
time may be joined by `T`, `t` or one blank, the fraction may have any number of digits of which
nine count, and the moment may be given by its distance from universal time. A year
without a sign has at most four digits.
-/
import SharedLog.Timestamp
import SharedLog.Text.Blank
import SharedLog.Text.Numeral

namespace SharedLog.Timestamp

open Text

/-! ## Writing -/

/-- The year in at least four digits, with a sign outside 0 to 9999. -/
def yearChars (year : Int) : List Char :=
  if 0 ≤ year ∧ year ≤ 9999 then Numeral.padded 4 year.toNat
  else (if year < 0 then '-' else '+') :: Numeral.padded 4 year.natAbs

/-- The shortest exact fraction of 0, 3, 6 or 9 digits, with its point. -/
def fractionChars (nanos : Nat) : List Char :=
  if nanos = 0 then []
  else if nanos % 1_000_000 = 0 then '.' :: Numeral.padded 3 (nanos / 1_000_000)
  else if nanos % 1_000 = 0 then '.' :: Numeral.padded 6 (nanos / 1_000)
  else '.' :: Numeral.padded 9 nanos

/-- The characters of a timestamp's text. -/
def chars (t : Timestamp) : List Char :=
  yearChars t.date.year ++ '-' :: Numeral.padded 2 t.date.month ++ '-' ::
    Numeral.padded 2 t.date.day ++ 'T' :: Numeral.padded 2 t.hour ++ ':' ::
    Numeral.padded 2 t.minute ++ ':' :: Numeral.padded 2 t.second ++ fractionChars t.nanos ++ ['Z']

/-- The text of a timestamp. -/
def text (t : Timestamp) : String := String.ofList t.chars

/-! ## Reading

Each reader takes its part off the front and gives what it says with the rest of the text. -/

/-- A number of at most `width` digits, white space allowed in front. -/
def number? (width : Nat) (cs : List Char) : Option (Nat × List Char) :=
  let cs := trimStart cs
  let digits := (cs.take width).takeWhile Numeral.isDigit
  if digits = [] then none else some (Numeral.value digits, cs.drop digits.length)

/-- A year: a sign and any number of digits, or at most four digits. -/
def year? (cs : List Char) : Option (Int × List Char) :=
  let unbounded (rest : List Char) : Option (Nat × List Char) :=
    match rest with
    | c :: _ => if Numeral.isDigit c then number? rest.length rest else none
    | [] => none
  match trimStart cs with
  | '-' :: rest => (unbounded rest).map fun (n, rest) => (-(n : Int), rest)
  | '+' :: rest => (unbounded rest).map fun (n, rest) => ((n : Int), rest)
  | rest => (number? 4 rest).map fun (n, rest) => ((n : Int), rest)

/-- A given character, white space allowed in front. -/
def mark? (c : Char) (cs : List Char) : Option (List Char) :=
  match trimStart cs with
  | d :: rest => if d = c then some rest else none
  | [] => none

/-- The nanoseconds of a fraction: nine digits count, more are skipped. Without a point there are
none. -/
def fraction? (cs : List Char) : Option (Nat × List Char) :=
  match cs with
  | '.' :: rest =>
    let digits := rest.takeWhile Numeral.isDigit
    let kept := digits.take 9
    if digits = [] then none
    else some (Numeral.value (kept ++ List.replicate (9 - kept.length) '0'),
      rest.drop digits.length)
  | _ => some (0, cs)

/-- Exactly two digits. -/
def twoDigits? (cs : List Char) : Option (Nat × List Char) :=
  match cs with
  | a :: b :: rest =>
    if Numeral.isDigit a ∧ Numeral.isDigit b then some (Numeral.value [a, b], rest) else none
  | _ => none

/-- A distance from universal time in minutes: `Z`, `UTC` in any letter case, or a sign, two digits
of hours and two digits of minutes below sixty, which colons and white space may keep apart. -/
def offset? (cs : List Char) : Option (Int × List Char) :=
  let signed (sign : Int) (cs : List Char) : Option (Int × List Char) := do
    let (hours, cs) ← twoDigits? cs
    let (minutes, cs) ← twoDigits? (cs.dropWhile fun c => c = ':' ∨ isBlank c)
    if hours < 24 ∧ minutes < 60 then some (sign * (60 * hours + minutes : Nat), cs) else none
  if (cs.take 3).map Char.toLower = ['u', 't', 'c'] then some (0, cs.drop 3)
  else match cs with
    | 'Z' :: rest | 'z' :: rest => some (0, rest)
    | '+' :: rest => signed 1 rest
    | '-' :: rest | '−' :: rest => signed (-1) rest
    | _ => none

/-- The years that dates are kept for. -/
def inCalendar (d : Date) : Bool := -262143 ≤ d.year ∧ d.year ≤ 262142

/-- The moment that a whole text names. -/
def ofChars? (cs : List Char) : Option Timestamp := do
  let (year, cs) ← year? cs
  let (month, cs) ← number? 2 (← mark? '-' cs)
  let (day, cs) ← number? 2 (← mark? '-' cs)
  let cs ← match cs with
    | 'T' :: rest | 't' :: rest | ' ' :: rest => some rest
    | _ => none
  let (hour, cs) ← number? 2 cs
  let (minute, cs) ← number? 2 (← mark? ':' cs)
  let (second, cs) ← number? 2 (← mark? ':' cs)
  let (nanos, cs) ← fraction? cs
  let (offset, cs) ← offset? (trimStart cs)
  let date ← Date.of? year month day
  let civil ← of? date hour minute second nanos
  let t := civil.minusMinutes offset
  if trimStart cs = [] ∧ inCalendar date ∧ inCalendar t.date then some t else none

/-- The moment that a text names. -/
def ofText? (text : String) : Option Timestamp := ofChars? text.toList

end SharedLog.Timestamp
