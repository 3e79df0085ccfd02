import MailCampaign.Instant.Basic
import MailCampaign.Text.Blank
import MailCampaign.Text.Numeral

/-!
# Instants as text

An instant is written in UTC, with no fraction when there is none and otherwise with three, six or
nine digits. It is read from a date, a time of day and an offset; blanks may stand before each number
and around the marks between them, and digits of a fraction past the ninth are dropped. The 60th
second of a minute is a leap second.
-/

namespace MailCampaign

/-! ## Writing -/

/-- The year with four digits, and outside 0 to 9999 with a sign. -/
def yearText (y : Int) : List Char :=
  if 0 ≤ y ∧ y ≤ 9999 then padded 4 y.toNat
  else (if y < 0 then '-' else '+') :: padded 4 y.natAbs

/-- The fraction of a second, in the fewest of three, six or nine digits that lose nothing. -/
def fractionText (nanos : Nat) : List Char :=
  if nanos = 0 then []
  else if nanos % 1000000 = 0 then '.' :: padded 3 (nanos / 1000000)
  else if nanos % 1000 = 0 then '.' :: padded 6 (nanos / 1000)
  else '.' :: padded 9 nanos

/-- The characters of an instant in UTC. -/
def Instant.chars (t : Instant) : List Char :=
  let date := Date.ofDays (t.seconds / 86400)
  let second := (t.seconds % 86400).toNat
  let leap := t.nanos / 1000000000
  yearText date.year ++ '-' :: padded 2 date.month ++ '-' :: padded 2 date.day ++
    'T' :: padded 2 (second / 3600) ++ ':' :: padded 2 (second / 60 % 60) ++
    ':' :: padded 2 (second % 60 + leap) ++ fractionText (t.nanos % 1000000000) ++ ['Z']

def Instant.text (t : Instant) : String := String.ofList t.chars

/-! ## Reading -/

/-- Reads a number of at most `most` digits, and what follows it. -/
def readNumber? (most : Nat) (cs : List Char) : Option (Nat × List Char) :=
  let ds := (cs.take most).takeWhile isDigit
  if ds = [] then none else some (digitsValue ds, cs.drop ds.length)

/-- Reads a number of any length, and what follows it. -/
def readLongNumber? (cs : List Char) : Option (Nat × List Char) := readNumber? cs.length cs

/-- Reads one character. -/
def readChar? (c : Char) : List Char → Option (List Char)
  | [] => none
  | d :: rest => if d = c then some rest else none

/-- Reads a year: four digits, or any number of them after a sign. -/
def readYear? (cs : List Char) : Option (Int × List Char) :=
  match skipBlanks cs with
  | '-' :: rest => (readLongNumber? rest).map fun (n, r) => (-(n : Int), r)
  | '+' :: rest => (readLongNumber? rest).map fun (n, r) => ((n : Int), r)
  | rest => (readNumber? 4 rest).map fun (n, r) => ((n : Int), r)

/-- Reads a number of at most two digits between two bounds, with blanks before it. -/
def readPart? (least greatest : Nat) (cs : List Char) : Option (Nat × List Char) := do
  let (n, rest) ← readNumber? 2 (skipBlanks cs)
  if least ≤ n ∧ n ≤ greatest then some (n, rest) else none

/-- Reads a mark between two parts, with blanks before it. -/
def readMark? (c : Char) (cs : List Char) : Option (List Char) := readChar? c (skipBlanks cs)

/-- Reads a date. -/
def readDate? (cs : List Char) : Option (Date × List Char) := do
  let (year, cs) ← readYear? cs
  let cs ← readMark? '-' cs
  let (month, cs) ← readPart? 1 12 cs
  let cs ← readMark? '-' cs
  let (day, cs) ← readPart? 1 31 cs
  some (⟨year, month, day⟩, cs)

/-- Reads the fraction of a second in nanoseconds. -/
def readFraction? : List Char → Option (Nat × List Char)
  | '.' :: rest =>
    let ds := (rest.take 9).takeWhile isDigit
    if ds = [] then none
    else some (digitsValue ds * Nat.pow 10 (9 - ds.length), rest.dropWhile isDigit)
  | rest => some (0, rest)

/-- Reads a time of day in seconds and nanoseconds. -/
def readTime? (cs : List Char) : Option (Nat × Nat × List Char) := do
  let (hour, cs) ← readPart? 0 23 cs
  let cs ← readMark? ':' cs
  let (minute, cs) ← readPart? 0 59 cs
  let cs ← readMark? ':' cs
  let (second, cs) ← readPart? 0 60 cs
  let (nanos, cs) ← readFraction? cs
  let leap := second / 60
  some (hour * 3600 + minute * 60 + (second - leap), nanos + leap * 1000000000, cs)

/-- Reads two digits. -/
def readTwoDigits? : List Char → Option (Nat × List Char)
  | a :: b :: rest => do
    let x ← digit? a
    let y ← digit? b
    some (10 * x + y, rest)
  | _ => none

/-- Reads an offset from UTC in seconds: a sign, two digits of hours and two of minutes, with any
colons and blanks between them. -/
def readOffset? (cs : List Char) : Option (Int × List Char) := do
  let (sign, cs) ← match cs with
    | '+' :: rest => some ((1 : Int), rest)
    | '-' :: rest => some (-1, rest)
    | '\u2212' :: rest => some (-1, rest)
    | _ => none
  let (hours, cs) ← readTwoDigits? cs
  let (minutes, cs) ← readTwoDigits? (cs.dropWhile fun c => c == ':' || isBlank c)
  if minutes ≤ 59 then some (sign * (hours * 3600 + minutes * 60), cs) else none

/-- Reads the zone after a time of day: the letter Z, the name UTC or an offset. -/
def readZone? (cs : List Char) : Option (Int × List Char) :=
  if (cs.take 3).map lowerAscii = ['u', 't', 'c'] then some (0, cs.drop 3)
  else
    match cs with
    | 'Z' :: rest => some (0, rest)
    | 'z' :: rest => some (0, rest)
    | _ => readOffset? cs

/-- Reads an instant from characters. -/
def Instant.ofChars? (cs : List Char) : Option Instant := do
  let (date, cs) ← readDate? cs
  let cs ← match cs with
    | 'T' :: rest => some rest
    | 't' :: rest => some rest
    | ' ' :: rest => some rest
    | _ => none
  let (second, nanos, cs) ← readTime? cs
  let (offset, cs) ← readZone? (skipBlanks cs)
  let here ← Instant.make? (date.toDays * 86400 + second) nanos
  if skipBlanks cs = [] ∧ date.Real ∧ -86400 < offset ∧ offset < 86400 then
    Instant.make? (here.seconds - offset) here.nanos
  else none

/-- Reads an instant. -/
def Instant.ofText? (s : String) : Option Instant := Instant.ofChars? s.toList

end MailCampaign
