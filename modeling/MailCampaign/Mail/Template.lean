import MailCampaign.Table
import MailCampaign.Text.Blank

/-!
# Templates

A placeholder is a name between double braces. It is replaced by the merge field of that name, and by
nothing when there is no such field. What is put in is not looked at again, and braces that are never
closed stand for themselves.
-/

namespace MailCampaign

/-- A subject and a body. -/
structure Template where
  subject : String
  body : String
deriving DecidableEq

namespace Template

/-- The characters before the first of two equal characters in a row, and those after the two. -/
def splitAtPair (c : Char) : List Char → Option (List Char × List Char)
  | a :: b :: rest =>
    if a = c ∧ b = c then some ([], rest)
    else (splitAtPair c (b :: rest)).map fun (before, after) => (a :: before, after)
  | _ => none

theorem length_splitAtPair {c : Char} {cs before after : List Char}
    (h : splitAtPair c cs = some (before, after)) : after.length < cs.length := by
  fun_induction splitAtPair c cs generalizing before after with
  | case1 a b rest hc =>
    injection h with h
    injection h with _ h
    subst h
    simp only [List.length_cons]; omega
  | case2 a b rest hc ih =>
    obtain ⟨⟨x, y⟩, hxy, e⟩ := Option.map_eq_some_iff.1 h
    injection e with _ e
    subst e
    have := ih hxy
    simp only [List.length_cons] at this ⊢; omega
  | case3 => cases h

/-- The merge field that a placeholder names, or nothing. -/
def fieldChars (fields : Table String String) (name : List Char) : List Char :=
  match fields.find? (String.ofList (trimChars name)) with
  | some value => value.toList
  | none => []

/-- The characters with their placeholders replaced. -/
def fill (fields : Table String String) (cs : List Char) : List Char :=
  match _hb : splitAtPair '\x7b' cs with
  | none => cs
  | some (before, after) =>
    match _he : splitAtPair '\x7d' after with
    | none => cs
    | some (name, rest) => before ++ (fieldChars fields name ++ fill fields rest)
termination_by cs.length
decreasing_by
  have := length_splitAtPair _hb
  have := length_splitAtPair _he
  omega

/-- The text with its placeholders replaced. -/
def substitute (text : String) (fields : Table String String) : String :=
  String.ofList (fill fields text.toList)

/-- The template with its placeholders replaced. -/
def render (t : Template) (fields : Table String String) : Template :=
  ⟨substitute t.subject fields, substitute t.body fields⟩

end Template

end MailCampaign
