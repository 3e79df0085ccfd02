/-!
# UTF-8

Texts as bytes and back. Bytes that are no text are cut into characters and into pieces between
them: each is the longest that could still have become a character. A lenient reader puts a
replacement character in the place of each such piece.
-/

namespace MailCampaign.Utf8

/-- The bytes of a text. -/
def bytes (s : String) : List UInt8 := s.toUTF8.toList

/-- The text of bytes, when they are UTF-8. -/
def text? (b : List UInt8) : Option String := String.fromUTF8? ⟨b.toArray⟩

/-- The second bytes that may follow a first byte of a character of three or four bytes. -/
def secondRange (first : Nat) : Nat × Nat :=
  if first = 0xE0 then (0xA0, 0xBF)
  else if first = 0xED then (0x80, 0x9F)
  else if first = 0xF0 then (0x90, 0xBF)
  else if first = 0xF4 then (0x80, 0x8F)
  else (0x80, 0xBF)

/-- Whether a byte may follow a first byte. -/
def follows (first second : Nat) : Bool :=
  (secondRange first).1 ≤ second && second ≤ (secondRange first).2

/-- Whether a byte goes on a character. -/
def continues (b : Nat) : Bool := 0x80 ≤ b && b ≤ 0xBF

/-- The number of bytes after a first byte, when it is one. -/
def expected? (first : Nat) : Option Nat :=
  if first < 0x80 then some 0
  else if 0xC2 ≤ first ∧ first ≤ 0xDF then some 1
  else if 0xE0 ≤ first ∧ first ≤ 0xEF then some 2
  else if 0xF0 ≤ first ∧ first ≤ 0xF4 then some 3
  else none

/-- Reads up to a number of further bytes onto a code point; the second part is false when some are
missing. -/
def gather : Nat → Nat → List UInt8 → Nat × Bool × List UInt8
  | 0, acc, bs => (acc, true, bs)
  | _ + 1, acc, [] => (acc, false, [])
  | n + 1, acc, b :: bs =>
    if continues b.toNat then gather n (acc * 64 + b.toNat % 64) bs else (acc, false, b :: bs)

/-- The bits that a first byte gives to the code point. -/
def firstBits (first count : Nat) : Nat :=
  match count with
  | 0 => first
  | 1 => first % 32
  | 2 => first % 16
  | _ => first % 8

/-- Reads one character, or a piece that is none, after its first byte. -/
def readAfter (first : Nat) (bs : List UInt8) : Option Char × List UInt8 :=
  match expected? first with
  | none => (none, bs)
  | some count =>
    if 0 < count && !bs.head?.any (fun b => follows first b.toNat) then (none, bs)
    else
      match gather count (firstBits first count) bs with
      | (point, true, rest) => (some (Char.ofNat point), rest)
      | (_, false, rest) => (none, rest)

/-- Reads at most a number of characters and pieces. -/
def readPieces : Nat → List UInt8 → List (Option Char)
  | 0, _ => []
  | _ + 1, [] => []
  | n + 1, b :: bs =>
    let (c, rest) := readAfter b.toNat bs
    c :: readPieces n rest

/-- The characters of bytes, with nothing in the place of each piece that is none. -/
def pieces (b : List UInt8) : List (Option Char) := readPieces b.length b

/-- The text of bytes, with replacements for what is not UTF-8. -/
def lenientText (b : List UInt8) : String :=
  String.ofList ((pieces b).map fun c => c.getD '\ufffd')

end MailCampaign.Utf8
