import MailCampaign.Json.Number

/-!
# Tokens of JSON texts

A text is cut into marks, literals and what is neither. The cut is a fold over the characters whose
state is the literal being read, so it never looks back. Strings are collected as code points, where
an escape may leave half of a surrogate pair; the halves are joined when the string ends. Between
the characters there may be pieces that are none, where the text comes from bytes that are not UTF-8.
-/

namespace MailCampaign.Json

/-- A token of a JSON text. -/
inductive Token where
  | openArr
  | closeArr
  | openObj
  | closeObj
  | comma
  | colon
  /-- A string literal with its text, unless it has none. -/
  | string (s : Option String)
  /-- Another literal. -/
  | literal (j : Source)
  /-- Characters that no token starts with, or a literal that is not well formed. -/
  | stray

/-- What the characters read last belong to. -/
inductive Within where
  /-- No literal. -/
  | gap
  /-- A word: the characters that it lacks, and its value. -/
  | word (rest : List Char) (j : Source)
  /-- A number; its characters, last first. -/
  | number (chars : List Char)
  /-- A string; its code points, last first. -/
  | string (points : List Nat)
  /-- A string, after a backslash. -/
  | escape (points : List Nat)
  /-- A string, inside a four-digit escape: the digits still missing and the value so far. -/
  | code (points : List Nat) (missing value : Nat)

/-! ## Literals -/

/-- Blanks between tokens. -/
def isSpace (c : Char) : Bool := c == ' ' || c == '\n' || c == '\t' || c == '\r'

/-- The mark that a character is. -/
def mark? : Char → Option Token
  | '[' => some .openArr
  | ']' => some .closeArr
  | '\x7b' => some .openObj
  | '\x7d' => some .closeObj
  | ',' => some .comma
  | ':' => some .colon
  | _ => none

/-- The word that starts with a character: the characters after it, and its value. -/
def word? : Char → Option (List Char × Source)
  | 'n' => some (['u', 'l', 'l'], .null)
  | 't' => some (['r', 'u', 'e'], .bool true)
  | 'f' => some (['a', 'l', 's', 'e'], .bool false)
  | _ => none

/-- The first half of a surrogate pair. -/
def highHalf (p : Nat) : Bool := 0xD800 ≤ p && p < 0xDC00

/-- The second half of a surrogate pair. -/
def lowHalf (p : Nat) : Bool := 0xDC00 ≤ p && p < 0xE000

/-- The number that stands among code points for a piece that is no character. -/
def noPoint : Nat := 0x110000

/-- The characters of code points whose surrogate halves come in pairs. -/
def joinHalves? : List Nat → Option (List Char)
  | [] => some []
  | p :: rest =>
    if highHalf p then
      match rest with
      | q :: rest =>
        if lowHalf q then
          (joinHalves? rest).map (Char.ofNat (0x10000 + (p - 0xD800) * 0x400 + (q - 0xDC00)) :: ·)
        else none
      | [] => none
    else if lowHalf p || noPoint ≤ p then none
    else (joinHalves? rest).map (Char.ofNat p :: ·)

/-- The token of a string literal with these code points. -/
def stringToken (points : List Nat) : Token := .string ((joinHalves? points).map String.ofList)

/-- The code point that a one-letter escape stands for. -/
def escaped? : Char → Option Nat
  | '"' => some 34
  | '\\' => some 92
  | '/' => some 47
  | 'b' => some 8
  | 'f' => some 12
  | 'n' => some 10
  | 'r' => some 13
  | 't' => some 9
  | _ => none

/-- The token of a number without quotes. -/
def numberToken (cs : List Char) : Token :=
  match number? cs with
  | some j => .literal j
  | none => .stray

/-! ## Cutting -/

/-- The tokens found so far, last first, and where the next character stands. -/
structure Cut where
  tokens : List Token
  within : Within

/-- Takes a character that stands in no literal. -/
def Cut.outside (tokens : List Token) (c : Char) : Cut :=
  if isSpace c then ⟨tokens, .gap⟩
  else if c = '"' then ⟨tokens, .string []⟩
  else if c = '-' ∨ isDigit c then ⟨tokens, .number [c]⟩
  else
    match mark? c, word? c with
    | some t, _ => ⟨t :: tokens, .gap⟩
    | none, some (rest, j) => ⟨tokens, .word rest j⟩
    | none, none => ⟨.stray :: tokens, .gap⟩

/-- Takes the next character. A word ends with its last character, and a number before the first
character that cannot belong to it. -/
def Cut.next (cut : Cut) (c : Char) : Cut :=
  match cut.within with
  | .gap => Cut.outside cut.tokens c
  | .word rest j =>
    if rest = [c] then ⟨.literal j :: cut.tokens, .gap⟩
    else if rest.head? = some c then ⟨cut.tokens, .word rest.tail j⟩
    else ⟨.stray :: cut.tokens, .gap⟩
  | .number cs =>
    if extendsNumber cs c then ⟨cut.tokens, .number (c :: cs)⟩
    else Cut.outside (numberToken cs.reverse :: cut.tokens) c
  | .string points =>
    if c = '"' then ⟨stringToken points.reverse :: cut.tokens, .gap⟩
    else if c = '\\' then ⟨cut.tokens, .escape points⟩
    else if c.toNat < 32 then ⟨.stray :: cut.tokens, .gap⟩
    else ⟨cut.tokens, .string (c.toNat :: points)⟩
  | .escape points =>
    if c = 'u' then ⟨cut.tokens, .code points 4 0⟩
    else
      match escaped? c with
      | some p => ⟨cut.tokens, .string (p :: points)⟩
      | none => ⟨.stray :: cut.tokens, .gap⟩
  | .code points missing value =>
    match hexDigit? c with
    | none => ⟨.stray :: cut.tokens, .gap⟩
    | some d =>
      if missing ≤ 1 then ⟨cut.tokens, .string ((16 * value + d) :: points)⟩
      else ⟨cut.tokens, .code points (missing - 1) (16 * value + d)⟩

/-- The tokens of the characters taken, in order. -/
def Cut.finish (cut : Cut) : List Token :=
  match cut.within with
  | .gap => cut.tokens.reverse
  | .number cs => (numberToken cs.reverse :: cut.tokens).reverse
  | _ => (.stray :: cut.tokens).reverse

/-- Takes a piece that is no character, which may stand in strings alone. -/
def Cut.skip (cut : Cut) : Cut :=
  match cut.within with
  | .string points => ⟨cut.tokens, .string (noPoint :: points)⟩
  | .number cs => ⟨.stray :: numberToken cs.reverse :: cut.tokens, .gap⟩
  | _ => ⟨.stray :: cut.tokens, .gap⟩

/-- Takes the next character or piece. -/
def Cut.take (cut : Cut) : Option Char → Cut
  | some c => cut.next c
  | none => cut.skip

/-- The tokens of a text in characters and pieces. -/
def tokens (cs : List (Option Char)) : List Token := (cs.foldl Cut.take ⟨[], .gap⟩).finish

end MailCampaign.Json
