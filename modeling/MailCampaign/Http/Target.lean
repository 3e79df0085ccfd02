import MailCampaign.Http.Encoding

/-!
# Targets of requests

A target is a path, perhaps with a query after a question mark and a fragment after a number sign.
A scheme and a host may stand before it. The fragment is not looked at; blanks, control characters
and angle brackets are illegal in the rest, and so are backquotes in a path and quotes in a query.
-/

namespace MailCampaign.Http

/-- A character that is legal in a path and in a query. -/
def isTargetChar (c : Char) : Bool := ' ' < c && c != '<' && c != '>'

/-- A character of a path. -/
def isPathChar (c : Char) : Bool := isTargetChar c && c.toNat != 96

/-- A character of a query. -/
def isQueryChar (c : Char) : Bool := isTargetChar c && c != '"'

/-- A character that ends the name of a host. -/
def endsHost (c : Char) : Bool := c == '/' || c == '?' || c == '#'

/-- What follows one of the schemes of the web; their case does not matter. -/
def afterScheme? (target : List Char) : Option (List Char) :=
  ["http://".toList, "https://".toList].findSome? fun scheme =>
    if (target.take scheme.length).map lowerAscii = scheme then some (target.drop scheme.length)
    else none

/-- The path of a target, and its query. -/
def pathAndQuery (target : List Char) : List Char × List Char :=
  let local? := (afterScheme? target).map fun rest => rest.dropWhile (!endsHost ·)
  cutAt '?' (cutAt '#' (local?.getD target)).1

/-- Whether a target may be asked for. Without a scheme it starts with a slash, or is the name of a
host alone. -/
def legalTarget (target : List Char) : Bool :=
  let (path, query) := pathAndQuery target
  let host := ((afterScheme? target).getD target).takeWhile (!endsHost ·)
  let whole := target.head? == some '/' || (afterScheme? target).isSome || host == target
  (host != [] || target.head? == some '/') && whole && host.all isPathChar &&
    path.all isPathChar && query.all isQueryChar

example : pathAndQuery "/t/open?c=1#x".toList = ("/t/open".toList, "c=1".toList) := by
  decide +kernel
example : legalTarget "/t/open?c=a b".toList = false := by decide +kernel

end MailCampaign.Http
