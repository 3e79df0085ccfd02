import MailCampaign.Text.Ascii
import MailCampaign.Text.Utf8

/-!
# Encodings of addresses

Percent signs with two hexadecimal digits stand for bytes, in paths and in queries; in a query a
plus stands for a blank as well.
-/

namespace MailCampaign.Http

/-- The code of `%`. -/
def percent : UInt8 := 37

/-- The value of a hexadecimal digit given by its code. -/
def hexByte? (b : UInt8) : Option Nat := hexDigit? (Char.ofNat b.toNat)

/-- The byte of an escape. -/
def escaped? (b high low : UInt8) : Option UInt8 :=
  if b = percent then do some (UInt8.ofNat (16 * (← hexByte? high) + (← hexByte? low))) else none

/-- The bytes with escapes replaced; what is no escape stays as it is. -/
def unescape : List UInt8 → List UInt8
  | b :: high :: low :: rest =>
    match escaped? b high low with
    | some byte => byte :: unescape rest
    | none => b :: unescape (high :: low :: rest)
  | few => few

/-- A part of a path without its escapes, when it is a text. -/
def pathText? (s : String) : Option String := Utf8.text? (unescape (Utf8.bytes s))

/-- The pieces of a list between separators. -/
def splitOn {α : Type} [DecidableEq α] (sep : α) : List α → List (List α)
  | [] => [[]]
  | a :: rest =>
    if a = sep then [] :: splitOn sep rest
    else
      match splitOn sep rest with
      | [] => [[a]]
      | piece :: more => (a :: piece) :: more

/-- What comes before the first of a separator, and what comes after it. -/
def cutAt {α : Type} [DecidableEq α] (sep : α) (l : List α) : List α × List α :=
  (l.takeWhile (· != sep), (l.dropWhile (· != sep)).drop 1)

/-- A name or a value of a form. -/
def formText (cs : List Char) : String :=
  Utf8.lenientText (unescape (Utf8.bytes (String.ofList (cs.map fun c => if c = '+' then ' ' else c))))

/-- The names and values of a form. -/
def formFields (s : String) : List (String × String) :=
  ((splitOn '&' s.toList).filter (· ≠ [])).map fun piece =>
    let (name, value) := cutAt '=' piece
    (formText name, formText value)

end MailCampaign.Http
