import MailCampaign.Text.Ascii

/-!
# Media types

A media type is a type and a subtype, after a slash, of token characters, perhaps with parameters
after semicolons. The subtype may end in a suffix after a plus sign. The case of letters does not
matter. A text that is no media type in every part, its parameters included, is none at all.
-/

namespace MailCampaign.Http

/-- A media type without its parameters. -/
structure MediaType where
  main : String
  /-- The subtype without its suffix. -/
  sub : String
  suffix : Option String
deriving DecidableEq

namespace MediaType

/-- A character of a token. -/
def isTokenChar (c : Char) : Bool :=
  c.isAlphanum || "!#$%&'*+-.^_|~".toList.contains c || c.toNat == 96

/-- A character between quotes. -/
def isQuotedChar (c : Char) : Bool := ' ' ≤ c && c != '\x7f'

/-- What follows a quoted value: the first character is part of it, and a quote after that ends it. -/
def afterQuoted? : List Char → Option (List Char)
  | [] => none
  | c :: rest =>
    match rest.dropWhile (· != '"') with
    | _ :: more =>
      if isQuotedChar c ∧ (rest.takeWhile (· != '"')).all isQuotedChar then some more else none
    | [] => none

/-- What follows the semicolon after a parameter, where blanks may stand before it. -/
def afterBlanks? (cs : List Char) : Option (List Char) :=
  match cs.dropWhile (· == ' ') with
  | [] => some []
  | ';' :: rest => some rest
  | _ => none

/-- What follows the value of a parameter and its semicolon. A value without quotes may be empty at
the end of the text alone. -/
def afterValue? : List Char → Option (List Char)
  | '"' :: rest => (afterQuoted? rest).bind afterBlanks?
  | cs =>
    match cs.dropWhile isTokenChar with
    | [] => some []
    | ';' :: rest => if cs.takeWhile isTokenChar = [] then none else some rest
    | _ => none

/-- What follows a parameter and its semicolon. -/
def afterParameter? (cs : List Char) : Option (List Char) :=
  match cs.dropWhile isTokenChar with
  | '=' :: rest => if cs.takeWhile isTokenChar = [] then none else afterValue? rest
  | _ => none

/-- Whether a text is a list of parameters, at most that many. -/
def areParameters : Nat → List Char → Bool
  | 0, cs => cs.isEmpty
  | n + 1, cs =>
    match cs.dropWhile (· == ' ') with
    | [] => true
    | cs =>
      match afterParameter? cs with
      | some rest => areParameters n rest
      | none => false

/-- The type with a subtype; the last plus sign that is not its first character starts a suffix. -/
def ofNames (main sub : List Char) : MediaType :=
  let lower (cs : List Char) : String := String.ofList (cs.map lowerAscii)
  match sub with
  | [] => ⟨lower main, "", none⟩
  | c :: rest =>
    if rest.contains '+' then
      let back := rest.reverse
      ⟨lower main, lower (c :: ((back.dropWhile (· != '+')).drop 1).reverse),
        some (lower (back.takeWhile (· != '+')).reverse)⟩
    else ⟨lower main, lower sub, none⟩

/-- Reads a media type. -/
def ofText? (s : String) : Option MediaType :=
  let cs := s.toList
  match cs.takeWhile isTokenChar, cs.dropWhile isTokenChar with
  | main@(_ :: _), '/' :: rest =>
    let sub := rest.takeWhile isTokenChar
    match rest.dropWhile isTokenChar with
    | [] => some (ofNames main sub)
    | ';' :: parameters =>
      if sub ≠ [] ∧ areParameters parameters.length parameters then some (ofNames main sub)
      else none
    | _ => none
  | _, _ => none

/-- Whether a media type is JSON or built on it. -/
def isJson (t : MediaType) : Bool :=
  t.main == "application" && (t.sub == "json" || t.suffix == some "json")

example : (ofText? "application/vnd.api+json; a=\"b c\"").map isJson = some true := by
  decide +kernel
example : ofText? "application/json ; charset=utf-8" = none := by decide +kernel
example : ofText? "application/json; charset" = none := by decide +kernel

end MediaType

end MailCampaign.Http
