import MailCampaign.Json.Parse
import MailCampaign.Table

/-!
# Reading typed values

A decoder turns what a text holds into a value of a type, or says whether the text was malformed or
the value had the wrong shape. A text is read from its start, and reading ends with the first fault.
Unknown fields are passed over, a known field may occur once, and a record may also be an array of
its fields in their order.
-/

namespace MailCampaign

/-- Why a text is not the text of a value. -/
inductive ReadFault where
  /-- The text is no JSON text, or holds a literal without a value where one is needed. -/
  | malformed
  /-- The JSON value has the wrong shape. -/
  | mistyped
deriving DecidableEq, Repr

/-- A value that was read, or the fault that ended the reading. -/
inductive Reading (α : Type) where
  | value (a : α)
  | fault (e : ReadFault)

namespace Reading

variable {α β : Type}

/-- Goes on with the value that was read. -/
def andThen (a : Reading α) (f : α → Reading β) : Reading β :=
  match a with
  | .value a => f a
  | .fault e => .fault e

instance : Monad Reading where
  pure := .value
  bind := andThen

/-- The value, if one was read. -/
def toOption : Reading α → Option α
  | .value a => some a
  | .fault _ => none

/-- A value that has to exist. -/
def ofOption (e : ReadFault) : Option α → Reading α
  | some a => .value a
  | none => .fault e

@[simp] theorem map_value (f : α → β) (a : α) : f <$> (Reading.value a) = .value (f a) := rfl

@[simp] theorem seq_value (f : α → β) (a : α) :
    (Reading.value f) <*> (Reading.value a) = .value (f a) := rfl

@[simp] theorem value_bind (a : α) (f : α → Reading β) : Reading.value a >>= f = f a := rfl

@[simp] theorem fault_bind (e : ReadFault) (f : α → Reading β) :
    Reading.fault e >>= f = .fault e := rfl

end Reading

namespace Json

/-- Where a value comes from. -/
inductive Place where
  /-- A text in which that many more containers may be opened inside one another. -/
  | text (room : Nat)
  /-- A value in memory. -/
  | memory
  /-- The fields of a tagged record, kept until the tag is known. -/
  | buffer

/-- The start of a text: at most 127 containers may be open at a time. -/
def Place.start : Place := .text 127

/-- Whether no text is read any more. -/
def Place.kept : Place → Bool
  | .text _ => false
  | .memory | .buffer => true

/-- The fault of something that should not be there: while a text is read it is no JSON text of the
type, afterwards a wrong shape. -/
def Place.excess (p : Place) : ReadFault := if p.kept then .mistyped else .malformed

/-- Reads a type from what a text holds. -/
abbrev Decoder (α : Type) := Place → Source → Reading α

namespace Decoder

variable {α β : Type}

/-- The fault of a value of another kind than expected. -/
def unexpected : Source → ReadFault
  | .unreadable => .malformed
  | .torn => .malformed
  | _ => .mistyped

/-- Opens a container. -/
def enter (p : Place) (inside : Place → Reading α) : Reading α :=
  match p with
  | .text 0 => .fault .malformed
  | .text (room + 1) => inside (.text room)
  | p => inside p

/-- A string. -/
def string : Decoder String
  | _, .str s => .value s
  | _, j => .fault (unexpected j)

/-- A Boolean. -/
def bool : Decoder Bool
  | _, .bool b => .value b
  | _, j => .fault (unexpected j)

/-- A natural number below a bound. -/
def natBelow (bound : Nat) : Decoder Nat
  | _, .int n => if 0 ≤ n ∧ n < bound then .value n.toNat else .fault .mistyped
  | _, j => .fault (unexpected j)

/-- A 16-bit number. -/
def uint16 : Decoder UInt16 := fun p j => UInt16.ofNat <$> natBelow UInt16.size p j

/-- A 32-bit number. -/
def uint32 : Decoder UInt32 := fun p j => UInt32.ofNat <$> natBelow UInt32.size p j

/-- A 64-bit number. -/
def uint64 : Decoder UInt64 := fun p j => UInt64.ofNat <$> natBelow UInt64.size p j

/-- A value written as a string. -/
def parsed (f : String → Option α) : Decoder α := fun p j => do
  Reading.ofOption .mistyped (f (← string p j))

/-- A value or `null`. -/
def optional (d : Decoder α) : Decoder (Option α)
  | _, .null => .value none
  | p, j => some <$> d p j

/-- A list of values. -/
def list (d : Decoder α) : Decoder (List α)
  | p, .arr items => enter p fun p => items.mapM (d p)
  | _, j => .fault (unexpected j)

/-- A pair of values in an array. -/
def pair (d : Decoder α) (e : Decoder β) : Decoder (α × β)
  | p, .arr items => enter p fun q =>
      match items with
      | [] => .fault .mistyped
      | [a] => d q a >>= fun _ => .fault .mistyped
      | [a, b] => Prod.mk <$> d q a <*> e q b
      | a :: b :: _ => d q a >>= fun _ => e q b >>= fun _ => .fault p.excess
  | _, j => .fault (unexpected j)

/-- The name of a field that is read. -/
def fieldName : Option String → Reading String := Reading.ofOption .malformed

/-- A table of values by name; the last value of a name wins. -/
def table (d : Decoder α) : Decoder (Table String α)
  | p, .obj fields => enter p fun p => do
      let entries ← fields.mapM fun f => do return (← fieldName f.1, ← d p f.2)
      return Table.ofList entries
  | _, j => .fault (unexpected j)

/-- Nothing, as the value under the name of one of several things. Of kept fields an empty object
will do too. -/
def nothing : Decoder Unit
  | _, .null => .value ()
  | .buffer, .obj [] => .value ()
  | _, j => .fault (unexpected j)

/-- One of the listed values by name: the name alone, or an object with `null` under the name. -/
def oneOf (names : List (String × α)) : Decoder α
  | _, .str s => Reading.ofOption .mistyped (names.lookup s)
  | p, .obj fields => enter p fun q =>
      match fields with
      | [] => .fault p.excess
      | (name, j) :: rest => do
        let a ← Reading.ofOption .mistyped (names.lookup (← fieldName name))
        nothing q j
        if rest.isEmpty then .value a else .fault p.excess
  | p, j => .fault (if p.kept then unexpected j else .malformed)

/-- Any value, kept as a whole. -/
def keep : Decoder Json
  | .text room, j => if j.keepable room then .value j.toJson else .fault .malformed
  | _, j => .value j.toJson

end Decoder

/-! ## Records -/

/-- What was gathered from the members of a record, or the first fault met on the way and the number
of members before it. The members may be taken in any order: of two faults the earlier one counts. -/
inductive Gathered (α : Type) where
  | value (a : α)
  | fault (place : Nat) (e : ReadFault)

namespace Gathered

variable {α β : Type}

/-- Applies a function that was gathered to an argument that was gathered. -/
def apply (f : Gathered (α → β)) (a : Gathered α) : Gathered β :=
  match f, a with
  | .value f, .value a => .value (f a)
  | .value _, .fault k e => .fault k e
  | .fault k e, .value _ => .fault k e
  | .fault k e, .fault k' e' => if k' < k then .fault k' e' else .fault k e

instance : Applicative Gathered where
  pure := .value
  seq f a := apply f (a ())

/-- What was read after that many members. -/
def after (place : Nat) : Reading α → Gathered α
  | .value a => .value a
  | .fault e => .fault place e

def reading : Gathered α → Reading α
  | .value a => .value a
  | .fault _ e => .fault e

@[simp] theorem map_value (f : α → β) (a : α) : f <$> (Gathered.value a) = .value (f a) := rfl

@[simp] theorem seq_value (f : α → β) (a : α) :
    (Gathered.value f) <*> (Gathered.value a) = .value (f a) := rfl

end Gathered

/-- The members of a record being read. -/
structure Slots where
  place : Place
  /-- Members by name, in the order of the text. -/
  members : List (Option String × Source)
  /-- Members given by position; those at the end may be left out only if they have a default. -/
  positional : Bool

namespace Slots

variable {α : Type}

/-- A fault that shows only at the end of the record. -/
def atEnd (s : Slots) (r : Reading α) : Gathered α := .after s.members.length r

/-- The first member of a name, and the number of members before it. -/
def member? (s : Slots) (name : String) : Option (Nat × Source) :=
  go 0 s.members
where
  /-- The same for the members after the first few. -/
  go (k : Nat) : List (Option String × Source) → Option (Nat × Source)
    | [] => none
    | (n, j) :: rest => if n = some name then some (k, j) else go (k + 1) rest

/-- A member that has to be there. -/
def required (s : Slots) (name : String) (d : Decoder α) : Gathered α :=
  match s.member? name with
  | some (k, j) => .after k (d s.place j)
  | none => s.atEnd (.fault .mistyped)

/-- A member with a default. -/
def withDefault (s : Slots) (name : String) (d : Decoder α) (default : α) : Gathered α :=
  match s.member? name with
  | some (k, j) => .after k (d s.place j)
  | none => .value default

/-- A member that may be `null` or left out. -/
def maybe (s : Slots) (name : String) (d : Decoder α) : Gathered (Option α) :=
  s.withDefault name d.optional none

/-- A member that may be `null`, and left out unless members are given by position. -/
def nullable (s : Slots) (name : String) (d : Decoder α) : Gathered (Option α) :=
  if s.positional then s.required name d.optional else s.maybe name d

end Slots

namespace Decoder

variable {α : Type}

/-- Looks over the fields of an object: each has a name, no known name occurs twice, and the value
under an unknown name passes the test. -/
def screen (names : List String) (passes : Source → Bool) :
    Nat → List String → List (Option String × Source) → Gathered Unit
  | _, _, [] => .value ()
  | k, _, (none, _) :: _ => .fault k .malformed
  | k, seen, (some name, j) :: rest =>
    if names.contains name then
      if seen.contains name then .fault k .mistyped
      else screen names passes (k + 1) (name :: seen) rest
    else if passes j then screen names passes (k + 1) seen rest
    else .fault k .malformed

/-- A record with members of these names, read by `body`. -/
def record (names : List String) (body : Slots → Gathered α) : Decoder α
  | p, .obj fields => enter p fun q =>
      ((fun _ a => a) <$> screen names Source.whole 0 [] fields <*>
        body ⟨q, fields, false⟩).reading
  | p, .arr items => enter p fun q => do
      let a ← (body ⟨q, (names.map some).zip items, true⟩).reading
      if items.length ≤ names.length then .value a else .fault p.excess
  | _, j => .fault (unexpected j)

/-- A record with members of these names; the other fields are kept and handed over as well. -/
def recordWithRest (names : List String)
    (body : Slots → List (Option String × Source) → Gathered α) : Decoder α
  | p, .obj fields => enter p fun q =>
      let passes (j : Source) : Bool := match q with
        | .text room => j.keepable room
        | _ => true
      let others := fields.filter fun f => !f.1.any names.contains
      ((fun _ a => a) <$> screen names passes 0 [] fields <*>
        body ⟨q, fields, false⟩ others).reading
  | _, j => .fault (unexpected j)

/-- The single value under a tag, and the other fields. -/
def tagged (tag : String) (fields : List (Option String × Source)) :
    Reading (Source × List (Option String × Source)) :=
  match fields.filter fun f => f.1 == some tag with
  | [(_, j)] => .value (j, fields.filter fun f => f.1 != some tag)
  | _ => .fault .mistyped

/-- The name or the number of one of the listed values. -/
def nameOrIndex (names : List (String × α)) : Decoder α
  | _, .str s => Reading.ofOption .mistyped (names.lookup s)
  | _, .int n =>
    if 0 ≤ n then Reading.ofOption .mistyped ((names[n.toNat]?).map Prod.snd) else .fault .mistyped
  | _, j => .fault (unexpected j)

end Decoder

/-- Reads what a text holds, after which no other text may follow. -/
def readWhole {α : Type} (d : Decoder α) (held : Source × Bool) : Reading α := do
  let a ← d .start held.1
  if held.2 then .fault .malformed else .value a

/-- Reads a text from start to end. -/
def readText {α : Type} (d : Decoder α) (s : String) : Reading α := readWhole d (Source.ofText s)

/-- Reads a text of bytes from start to end. -/
def readBytes {α : Type} (d : Decoder α) (b : List UInt8) : Reading α :=
  readWhole d (Source.ofBytes b)

/-- Reads the value at the start of a text, whatever follows it. -/
def readStart {α : Type} (d : Decoder α) (s : String) : Reading α := d .start (Source.ofText s).1

/-- Reads a value in memory. -/
def read {α : Type} (d : Decoder α) (j : Json) : Reading α := d .memory (.ofJson j)

end Json

end MailCampaign
