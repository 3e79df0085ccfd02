import MailCampaign.Json.Basic

/-!
# Texts of values

A value is written without blanks. In a string the quote, the backslash and the control characters
below the space are escaped, the common ones by a letter; everything else stands for itself, so no
written value holds a line break.
-/

namespace MailCampaign.Json

/-- A character of a string literal. -/
def charText (c : Char) : List Char :=
  if c = '"' then ['\\', '"']
  else if c = '\\' then ['\\', '\\']
  else if c.toNat = 8 then ['\\', 'b']
  else if c.toNat = 12 then ['\\', 'f']
  else if c = '\n' then ['\\', 'n']
  else if c = '\r' then ['\\', 'r']
  else if c = '\t' then ['\\', 't']
  else if c.toNat < 32 then ['\\', 'u', '0', '0', hexChar (c.toNat / 16), hexChar c.toNat]
  else [c]

/-- A string literal. -/
def strText (s : String) : List Char := '"' :: (s.toList.flatMap charText ++ ['"'])

mutual
/-- The characters of a value. -/
def chars : Json → List Char
  | .null => ['n', 'u', 'l', 'l']
  | .bool true => ['t', 'r', 'u', 'e']
  | .bool false => ['f', 'a', 'l', 's', 'e']
  | .int n => intNumeral n
  | .real m e => intNumeral m ++ 'e' :: intNumeral e
  | .str s => strText s
  | .arr items => '[' :: (itemsText items ++ [']'])
  | .obj fields => '\x7b' :: (fieldsText fields ++ ['\x7d'])

/-- Values with commas between them. -/
def itemsText : List Json → List Char
  | [] => []
  | [j] => j.chars
  | j :: rest => j.chars ++ ',' :: itemsText rest

/-- Fields with commas between them. -/
def fieldsText : List (String × Json) → List Char
  | [] => []
  | [(k, j)] => strText k ++ ':' :: j.chars
  | (k, j) :: rest => strText k ++ ':' :: (j.chars ++ ',' :: fieldsText rest)
end

def text (j : Json) : String := String.ofList j.chars

end MailCampaign.Json
