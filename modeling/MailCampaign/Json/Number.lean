import MailCampaign.Json.Source
import MailCampaign.Number.Double

/-!
# Numbers of JSON texts

A whole number that fits 64 bits is exact. Any other number has a significand of 64 bits: of its
digits the first that fit, the others counting only by their number. It has a value when that
significand times the power of ten, each rounded to binary floating point, does not come out
infinite.
-/

namespace MailCampaign.Json

/-- Adds digits to a significand as long as it stays below 2 ^ 64; the second part is the number of
digits left out. -/
def addDigits : Nat → List Char → Nat × Nat
  | s, [] => (s, 0)
  | s, c :: rest =>
    if readDigit s c < UInt64.size then addDigits (readDigit s c) rest else (s, rest.length + 1)

/-- Whether a significand times a power of ten has a value in binary floating point. -/
def hasValue (significand : Nat) (exponent : Int) : Bool :=
  if significand = 0 ∨ exponent < 0 then true
  else if 308 < exponent then false
  else ((Double.ofRatio false significand 1).times (.ofDecimal false 1 exponent)).isFinite

/-- A number with a significand and an exponent. -/
def realSource (negative : Bool) (significand : Nat) (exponent : Int) : Source :=
  if hasValue significand exponent then
    .real (if negative then -significand else significand) exponent
  else .unreadable

/-- A number of whole digits alone. A zero with a sign is no integer. -/
def wholeSource (negative : Bool) (digits : List Char) : Source :=
  let (s, left) := addDigits 0 digits
  if left ≠ 0 then realSource negative s left
  else if !negative then .int s
  else if s = 0 ∨ 0x8000000000000000 < s then .real (-s) 0
  else .int (-s)

/-- A number with digits before the point, digits after it and an exponent. -/
def pointSource (negative : Bool) (digits fraction : List Char) (exponent : Int) : Source :=
  let (s, left) := addDigits 0 digits
  let (s, leftAfter) := addDigits s fraction
  realSource negative s (exponent + left - (fraction.length - leftAfter : Nat))

/-- The value of an exponent that is there. -/
def exponent? : List Char → Option Int
  | c :: rest =>
    if c = 'e' ∨ c = 'E' then
      match rest with
      | '-' :: ds => (natOfDigits? ds).map fun n => -(n : Int)
      | '+' :: ds => (natOfDigits? ds).map fun n => (n : Int)
      | ds => (natOfDigits? ds).map fun n => (n : Int)
    else none
  | [] => none

/-- Reads a number without its sign. Of two digits before the point the first is not zero. -/
def magnitude? (negative : Bool) (cs : List Char) : Option Source :=
  let whole := cs.takeWhile isDigit
  if whole = [] ∨ (whole.head? = some '0' ∧ whole ≠ ['0']) then none
  else
    match cs.dropWhile isDigit with
    | [] => some (wholeSource negative whole)
    | '.' :: rest =>
      let fraction := rest.takeWhile isDigit
      if fraction = [] then none
      else
        match rest.dropWhile isDigit with
        | [] => some (pointSource negative whole fraction 0)
        | rest => (exponent? rest).map (pointSource negative whole fraction)
    | rest => (exponent? rest).map (pointSource negative whole [])

/-- Reads a number. -/
def number? : List Char → Option Source
  | '-' :: cs => magnitude? true cs
  | cs => magnitude? false cs

/-- Whether a number goes on with a character; its characters so far stand last first. -/
def extendsNumber (cs : List Char) (c : Char) : Bool :=
  let afterDigit := cs.head?.any isDigit
  let isMark (d : Char) : Bool := d == 'e' || d == 'E'
  if isDigit c then true
  else if c == '.' then afterDigit && cs.all fun d => isDigit d || d == '-'
  else if isMark c then afterDigit && !cs.any isMark
  else (c == '+' || c == '-') && cs.head?.any isMark

end MailCampaign.Json
