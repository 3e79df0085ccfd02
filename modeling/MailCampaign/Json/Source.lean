import MailCampaign.Json.Basic

/-!
# What a text holds

A JSON text as far as it goes. Besides values there are literals that are well formed but have no
value (a string with half a surrogate pair, a number beyond the range of binary floating point), and
the place where a text breaks off. A reader passes over the first where the value is not needed, and
never over the second.
-/

namespace MailCampaign

/-- What a text holds at the place of a value. -/
inductive Source where
  | null
  | bool (b : Bool)
  | int (n : Int)
  | real (mantissa exponent : Int)
  | str (s : String)
  | arr (items : List Source)
  /-- An object; a field has no name when its name is a literal without a value, or when the text
  breaks off before it. -/
  | obj (fields : List (Option String × Source))
  /-- A well-formed literal without a value. -/
  | unreadable
  /-- The place where the text breaks off. -/
  | torn

namespace Source

instance : Inhabited Source := ⟨null⟩

mutual
/-- A text that does not break off. -/
def whole : Source → Bool
  | .arr items => wholeItems items
  | .obj fields => wholeFields fields
  | .torn => false
  | _ => true

/-- Items that do not break off. -/
def wholeItems : List Source → Bool
  | [] => true
  | j :: rest => j.whole && wholeItems rest

/-- Fields that do not break off. -/
def wholeFields : List (Option String × Source) → Bool
  | [] => true
  | (_, j) :: rest => j.whole && wholeFields rest
end

mutual
/-- A text with values and names throughout, and at most that many containers inside one another. -/
def keepable (room : Nat) : Source → Bool
  | .arr items => match room with
    | 0 => false
    | room + 1 => keepableItems room items
  | .obj fields => match room with
    | 0 => false
    | room + 1 => keepableFields room fields
  | .torn => false
  | .unreadable => false
  | _ => true

/-- Items that can be kept. -/
def keepableItems (room : Nat) : List Source → Bool
  | [] => true
  | j :: rest => j.keepable room && keepableItems room rest

/-- Fields that can be kept. -/
def keepableFields (room : Nat) : List (Option String × Source) → Bool
  | [] => true
  | (name, j) :: rest => name.isSome && j.keepable room && keepableFields room rest
end

mutual
/-- The value that a text holds; what has no value counts as `null`, and fields without a name are
left out. -/
def toJson : Source → Json
  | .null | .unreadable | .torn => .null
  | .bool b => .bool b
  | .int n => .int n
  | .real m e => .real m e
  | .str s => .str s
  | .arr items => .arr (toJsonItems items)
  | .obj fields => .obj (toJsonFields fields)

/-- The values of items. -/
def toJsonItems : List Source → List Json
  | [] => []
  | j :: rest => j.toJson :: toJsonItems rest

/-- The values of the fields with a name. -/
def toJsonFields : List (Option String × Source) → List (String × Json)
  | [] => []
  | (some name, j) :: rest => (name, j.toJson) :: toJsonFields rest
  | (none, _) :: rest => toJsonFields rest
end

mutual
def ofJson : Json → Source
  | .null => .null
  | .bool b => .bool b
  | .int n => .int n
  | .real m e => .real m e
  | .str s => .str s
  | .arr items => .arr (ofJsonItems items)
  | .obj fields => .obj (ofJsonFields fields)

/-- Items as a text holds them. -/
def ofJsonItems : List Json → List Source
  | [] => []
  | j :: rest => ofJson j :: ofJsonItems rest

/-- Fields as a text holds them. -/
def ofJsonFields : List (String × Json) → List (Option String × Source)
  | [] => []
  | (name, j) :: rest => (some name, ofJson j) :: ofJsonFields rest
end

mutual
/-- A text that holds a value gives that value back. -/
theorem toJson_ofJson : (j : Json) → (ofJson j).toJson = j
  | .null | .bool _ | .int _ | .real _ _ | .str _ => by simp [ofJson, toJson]
  | .arr items => by simp [ofJson, toJson, toJsonItems_ofJsonItems items]
  | .obj fields => by simp [ofJson, toJson, toJsonFields_ofJsonFields fields]

theorem toJsonItems_ofJsonItems : (l : List Json) → toJsonItems (ofJsonItems l) = l
  | [] => rfl
  | j :: rest => by
    simp [ofJsonItems, toJsonItems, toJson_ofJson j, toJsonItems_ofJsonItems rest]

theorem toJsonFields_ofJsonFields :
    (l : List (String × Json)) → toJsonFields (ofJsonFields l) = l
  | [] => rfl
  | (name, j) :: rest => by
    simp [ofJsonFields, toJsonFields, toJson_ofJson j, toJsonFields_ofJsonFields rest]
end

end Source

end MailCampaign
