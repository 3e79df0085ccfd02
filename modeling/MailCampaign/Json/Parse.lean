import MailCampaign.Json.Token
import MailCampaign.Text.Utf8

/-!
# Reading the tokens of a text

The tokens of a text drive a machine whose state is the stack of open containers. The machine reads
each token once. Where the text breaks off, the open containers are closed around that place, so
that a reader still sees everything before it in its order.
-/

namespace MailCampaign

namespace Json

/-- An open container: its members so far, last first. -/
inductive Frame where
  | arr (items : List Source)
  /-- The fields so far and the name of the field whose value is being read. -/
  | obj (fields : List (Option String × Source)) (name : Option String)

/-- What may follow. -/
inductive Expect where
  | value
  /-- A value, or the end of the array just opened. -/
  | firstItem
  /-- A name, or the end of the object just opened. -/
  | firstName
  | name
  | colon
  /-- A comma, or the end of the container. -/
  | more

/-- Adds a member to an open container. -/
def Frame.add (j : Source) : Frame → Frame
  | .arr items => .arr (j :: items)
  | .obj fields name => .obj ((name, j) :: fields) none

/-- The container, closed. -/
def Frame.close : Frame → Source
  | .arr items => .arr items.reverse
  | .obj fields _ => .obj fields.reverse

/-- Closes every open container around a value. -/
def enclose (j : Source) : List Frame → Source
  | [] => j
  | f :: stack => enclose (f.add j).close stack

/-- What is left when the text breaks off. -/
def breakOff (stack : List Frame) : Source × List Token := (enclose .torn stack, [])

/-- Reads one value; the open containers are innermost first. Also gives the tokens after it. -/
def parse : List Token → List Frame → Expect → Source × List Token
  | [], stack, _ => breakOff stack
  | .string s :: rest, stack, expect =>
    match expect, stack with
    | .value, [] | .firstItem, [] => (ofString s, rest)
    | .value, f :: stack | .firstItem, f :: stack => parse rest (f.add (ofString s) :: stack) .more
    | .firstName, .obj fields _ :: stack | .name, .obj fields _ :: stack =>
      parse rest (.obj fields s :: stack) .colon
    | _, stack => breakOff stack
  | .literal j :: rest, stack, expect =>
    match expect, stack with
    | .value, [] | .firstItem, [] => (j, rest)
    | .value, f :: stack | .firstItem, f :: stack => parse rest (f.add j :: stack) .more
    | _, stack => breakOff stack
  | .openArr :: rest, stack, expect =>
    match expect with
    | .value | .firstItem => parse rest (.arr [] :: stack) .firstItem
    | _ => breakOff stack
  | .openObj :: rest, stack, expect =>
    match expect with
    | .value | .firstItem => parse rest (.obj [] none :: stack) .firstName
    | _ => breakOff stack
  | .closeArr :: rest, stack, expect =>
    match expect, stack with
    | .firstItem, f :: outer | .more, f@(.arr _) :: outer =>
      match outer with
      | [] => (f.close, rest)
      | g :: outer => parse rest (g.add f.close :: outer) .more
    | _, stack => breakOff stack
  | .closeObj :: rest, stack, expect =>
    match expect, stack with
    | .firstName, f :: outer | .more, f@(.obj _ _) :: outer =>
      match outer with
      | [] => (f.close, rest)
      | g :: outer => parse rest (g.add f.close :: outer) .more
    | _, stack => breakOff stack
  | .comma :: rest, stack, expect =>
    match expect, stack with
    | .more, .arr items :: outer => parse rest (.arr items :: outer) .value
    | .more, .obj fields name :: outer => parse rest (.obj fields name :: outer) .name
    | _, stack => breakOff stack
  | .colon :: rest, stack, expect =>
    match expect with
    | .colon => parse rest stack .value
    | _ => breakOff stack
  | .stray :: _, stack, _ => breakOff stack
where
  /-- A string literal with its text, unless it has none. -/
  ofString : Option String → Source
    | some s => .str s
    | none => .unreadable

end Json

namespace Source

/-- What the start of a text in characters and pieces holds, and whether other text follows it. -/
def ofPieces (cs : List (Option Char)) : Source × Bool :=
  let (j, rest) := Json.parse (Json.tokens cs) [] .value
  (j, !rest.isEmpty)

/-- What the start of a text holds, and whether other text follows it. -/
def ofText (s : String) : Source × Bool := ofPieces (s.toList.map some)

/-- What the start of bytes holds, and whether other bytes follow it. Bytes that are not UTF-8 may
stand in string literals, which have no value then. -/
def ofBytes (b : List UInt8) : Source × Bool := ofPieces (Utf8.pieces b)

end Source

end MailCampaign
