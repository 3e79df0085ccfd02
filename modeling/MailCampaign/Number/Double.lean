import MailCampaign.Text.Ascii
import MailCampaign.Text.Numeral

/-!
# Binary floating point numbers

Numbers of 53 bits, read exactly from decimal text and written with as few digits as tell them apart
from their neighbours.
-/

namespace MailCampaign

/-- A 64-bit binary floating point number. -/
inductive Double where
  /-- The mantissa times two to the exponent. -/
  | finite (negative : Bool) (mantissa : Nat) (exponent : Int)
  | infinite (negative : Bool)
  | nan
deriving DecidableEq

namespace Double

/-! ## Rounding -/

/-- The quotient of two numbers, rounded to the nearest, and to the even one of two. -/
def roundedQuotient (a b : Nat) : Nat :=
  let q := a / b
  let r := a % b
  if 2 * r < b then q else if b < 2 * r then q + 1 else q + q % 2

/-- Two numbers with the ratio `a / (b * 2 ^ e)`. -/
def scaled (a b : Nat) (e : Int) : Nat × Nat := (a <<< (-e).toNat, b <<< e.toNat)

/-- The exponent with which a positive ratio has a mantissa of 53 bits, but not below the least
exponent. -/
def exponentFor (a b : Nat) : Int :=
  let e : Int := (Nat.log2 a : Int) - Nat.log2 b - 53
  let (x, y) := scaled a b e
  max (if 0x20000000000000 ≤ x / y then e + 1 else e) (-1074)

/-- The number with a mantissa of at most 53 bits, or one more that rounding has carried into. -/
def normal (negative : Bool) (mantissa : Nat) (exponent : Int) : Double :=
  if mantissa = 0x20000000000000 then bounded negative 0x10000000000000 (exponent + 1)
  else bounded negative mantissa exponent
where
  /-- The number with a mantissa of at most 53 bits, or infinity when it is out of range. -/
  bounded (negative : Bool) (mantissa : Nat) (exponent : Int) : Double :=
    if 1 <<< (1024 - exponent).toNat ≤ mantissa then .infinite negative
    else .finite negative mantissa exponent

/-- The number nearest to a ratio. -/
def ofRatio (negative : Bool) (a b : Nat) : Double :=
  if a = 0 then .finite negative 0 0
  else
    let e := exponentFor a b
    let (x, y) := scaled a b e
    normal negative (roundedQuotient x y) e

/-- The number nearest to a decimal with a mantissa of some digits. -/
def ofDecimal (negative : Bool) (mantissa : Nat) (exponent : Int) : Double :=
  let digits : Int := (numeral mantissa).length
  if mantissa = 0 ∨ digits + exponent < -400 then .finite negative 0 0
  else if 400 < digits + exponent then .infinite negative
  else ofRatio negative (mantissa * Nat.pow 10 exponent.toNat) (Nat.pow 10 (-exponent).toNat)

/-! ## Multiplying -/

/-- The number nearest to the product of two numbers without their signs. -/
def times : Double → Double → Double
  | .finite _ m e, .finite _ n f =>
    ofRatio false ((m * n) <<< (e + f).toNat) (1 <<< (-(e + f)).toNat)
  | .nan, _ => .nan
  | _, .nan => .nan
  | _, _ => .infinite false

/-- Whether a number is finite. -/
def isFinite : Double → Bool
  | .finite _ _ _ => true
  | _ => false

/-! ## Reading -/

/-- A sign and what follows it. -/
def sign : List Char → Bool × List Char
  | '-' :: rest => (true, rest)
  | '+' :: rest => (false, rest)
  | cs => (false, cs)

/-- The digits at the start and what follows them. -/
def leadingDigits (cs : List Char) : List Char × List Char :=
  (cs.takeWhile isDigit, cs.dropWhile isDigit)

/-- The value of an exponent, or zero without one. -/
def exponent? : List Char → Option Int
  | [] => some 0
  | c :: rest =>
    if lowerAscii c = 'e' then
      let (negative, digits) := sign rest
      (natOfDigits? digits).map fun n => if negative then -n else n
    else none

/-- Reads a number without a sign. -/
def magnitude? (negative : Bool) (cs : List Char) : Option Double := do
  let (whole, rest) := leadingDigits cs
  let (fraction, rest) := match rest with
    | '.' :: rest => leadingDigits rest
    | rest => ([], rest)
  if whole = [] ∧ fraction = [] then none
  else
    let exponent ← exponent? rest
    some (ofDecimal negative (digitsValue (whole ++ fraction)) (exponent - fraction.length))

/-- Reads a number. -/
def ofText? (s : String) : Option Double :=
  let (negative, cs) := sign s.toList
  let word := String.ofList (cs.map lowerAscii)
  if word = "inf" ∨ word = "infinity" then some (.infinite negative)
  else if word = "nan" then some .nan
  else magnitude? negative cs

/-! ## Writing -/

/-- The number of digits before the point of a ratio; negative when zeros follow the point. -/
def magnitudeOf (a b : Nat) : Int :=
  if b ≤ a then (numeral (a / b)).length
  else 1 - ((numeral ((b + a - 1) / a - 1)).length : Int)

/-- The decimal of at most `n` digits that tells a number apart from its neighbours, when there is
one; the nearer of two, and the greater of two that are equally near. -/
def decimalOf? (d : Double) (a b n : Nat) : Option (Nat × Int) :=
  let e := magnitudeOf a b - n
  let (x, y) := (a * Nat.pow 10 (-e).toNat, b * Nat.pow 10 e.toNat)
  let low := x / y
  let fits (c : Nat) : Bool := ofDecimal false c e = d
  let found := match fits low, fits (low + 1) with
    | true, true => some (if 2 * (x % y) < y then low else low + 1)
    | true, false => some low
    | false, true => some (low + 1)
    | false, false => none
  found.map fun c => if c = Nat.pow 10 n then (c / 10, e + 1) else (c, e)

/-- The shortest decimal that tells a positive number apart from its neighbours. -/
def shortest (mantissa : Nat) (exponent : Int) : Nat × Int :=
  let a := mantissa <<< exponent.toNat
  let b := 1 <<< (-exponent).toNat
  ((List.range 17).findSome? fun n =>
    decimalOf? (ofRatio false a b) a b (n + 1)).getD (mantissa, 0)

/-- A decimal without an exponent. -/
def plainText (mantissa : Nat) (exponent : Int) : List Char :=
  let digits := numeral mantissa
  if 0 ≤ exponent then digits ++ List.replicate exponent.toNat '0'
  else
    let places := (-exponent).toNat
    let filled := List.replicate (places + 1 - digits.length) '0' ++ digits
    filled.take (filled.length - places) ++ '.' :: filled.drop (filled.length - places)

def text : Double → String
  | .nan => "NaN"
  | .infinite negative => if negative then "-inf" else "inf"
  | .finite negative mantissa exponent =>
    let digits := if mantissa = 0 then ['0'] else
      let (m, e) := shortest mantissa exponent
      plainText m e
    String.ofList (if negative then '-' :: digits else digits)

/-! ## Conversions -/

/-- Whether a number differs from zero. -/
def nonzero : Double → Bool
  | .finite _ mantissa _ => mantissa != 0
  | _ => true

/-- The nearest natural number below a bound; halves are rounded up. -/
def toNatBelow (bound : Nat) : Double → Nat
  | .finite false mantissa exponent =>
    let n := if 0 ≤ exponent then mantissa <<< exponent.toNat
      else (mantissa + 1 <<< ((-exponent).toNat - 1)) >>> (-exponent).toNat
    min n (bound - 1)
  | .infinite false => bound - 1
  | _ => 0

end Double

end MailCampaign
