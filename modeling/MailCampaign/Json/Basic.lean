import MailCampaign.Text.Numeral

/-!
# JSON values
-/

namespace MailCampaign

/-- A JSON value. -/
inductive Json where
  | null
  | bool (b : Bool)
  | int (n : Int)
  /-- A number that is no 64-bit integer: the mantissa times ten to the exponent. -/
  | real (mantissa exponent : Int)
  | str (s : String)
  | arr (items : List Json)
  | obj (fields : List (String × Json))

namespace Json

instance : Inhabited Json := ⟨null⟩

/-! ## Building -/

/-- A natural number. -/
def nat (n : Nat) : Json := .int n

/-- A value that may be absent. -/
def ofOption {α : Type} (f : α → Json) : Option α → Json
  | none => .null
  | some a => f a

/-- A list of values. -/
def list {α : Type} (f : α → Json) (l : List α) : Json := .arr (l.map f)

/-- The value of the first field of a name. -/
def field? (j : Json) (name : String) : Option Json :=
  match j with
  | .obj fields => (fields.find? fun f => f.1 == name).map Prod.snd
  | _ => none

mutual
/-- The value with one field per name, the last of each, in every object. -/
def lastFields : Json → Json
  | .arr items => .arr (lastFieldsItems items)
  | .obj fields => .obj (lastFieldsOf fields)
  | j => j

/-- Each value with one field per name. -/
def lastFieldsItems : List Json → List Json
  | [] => []
  | j :: rest => j.lastFields :: lastFieldsItems rest

/-- The last field of each name. -/
def lastFieldsOf : List (String × Json) → List (String × Json)
  | [] => []
  | (k, j) :: rest =>
    if rest.any fun f => f.1 == k then lastFieldsOf rest else (k, j.lastFields) :: lastFieldsOf rest
end

end Json

end MailCampaign
