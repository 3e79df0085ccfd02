/-!
# File paths

The file name of a path is its last part, not counting slashes and single dots at its end. A path
that ends in two dots has none. The extension of a name follows its last dot, unless nothing stands
before that dot.
-/

namespace MailCampaign.Path

/-- The reversed path without slashes and single dots at its end. -/
def skipTail : List Char → List Char
  | '/' :: rest => skipTail rest
  | '.' :: '/' :: rest => skipTail rest
  | cs => cs

/-- The file name of a path and what stands before it. -/
def split? (path : List Char) : Option (List Char × List Char) :=
  let back := skipTail path.reverse
  let name := (back.takeWhile (· != '/')).reverse
  if name = [] ∨ name = ['.'] ∨ name = ['.', '.'] then none
  else some ((back.dropWhile (· != '/')).reverse, name)

/-- A file name without its extension. -/
def stem (name : List Char) : List Char :=
  match (name.reverse.dropWhile (· != '.')).drop 1 with
  | [] => name
  | before => before.reverse

/-- The path with another extension; a path without a file name stays as it is. A path without its
old extension has no file name when two dots are left of the name. -/
def withExtension (path extension : String) : String :=
  match split? path.toList with
  | none => path
  | some (folder, name) =>
    let kept := folder ++ stem name
    if stem name = ['.'] ∧ path.toList = folder ++ name then String.ofList (kept ++ ['.'])
    else String.ofList (kept ++ '.' :: extension.toList)

example : withExtension "dir/state.json" "journal" = "dir/state.journal" := by decide +kernel
example : withExtension ".hidden/" "journal" = ".hidden.journal" := by decide +kernel
example : withExtension "a/.." "journal" = "a/.." := by decide +kernel
example : withExtension "a/..x" "journal" = "a/.." := by decide +kernel

end MailCampaign.Path
