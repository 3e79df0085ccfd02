import MailCampaign.Fault
import MailCampaign.Http.MediaType
import MailCampaign.Http.Target
import MailCampaign.Json.Read
import MailCampaign.Text.Ascii

/-!
# Requests and responses
-/

namespace MailCampaign.Http

/-- A request. -/
structure Request where
  method : String
  /-- The path with its query. -/
  target : String
  headers : List (String × String)
  body : String

/-- What a response carries. -/
inductive Content where
  | nothing
  | json (j : Json)
  /-- The tracking pixel. -/
  | pixel
  /-- The address to go on to. -/
  | location (url : String)

/-- A response. -/
structure Response where
  status : Nat
  content : Content := .nothing

/-- The value of a header, when it is visible ASCII text. -/
def visible (s : String) : Bool :=
  s.toList.all fun c => (' ' ≤ c && c ≤ '~') || c == '\t'

/-- Whether a text may be the value of a header. -/
def legalValue (s : String) : Bool :=
  s.toList.all fun c => (' ' ≤ c && c != '\x7f') || c == '\t'

namespace Request

/-- The value of a header; the case of its name does not matter. -/
def header? (r : Request) (name : String) : Option String :=
  (r.headers.find? fun h => lowerText h.1 == name).map Prod.snd

/-- The value of a header that is visible ASCII text. -/
def visibleHeader? (r : Request) (name : String) : Option String := (r.header? name).filter visible

end Request

/-- Whether the body of a request is said to be JSON. -/
def Request.saysJson (r : Request) : Bool :=
  ((r.visibleHeader? "content-type").bind MediaType.ofText?).any MediaType.isJson

/-- A text of token characters, at least one. -/
def isToken (s : String) : Bool := s != "" && s.toList.all MediaType.isTokenChar

/-- Whether a request can be made at all: its method and the names of its headers are tokens, and
its target and the values of its headers have legal characters. -/
def Request.legal (r : Request) : Bool :=
  isToken r.method && legalTarget r.target.toList &&
    r.headers.all fun h => isToken h.1 && legalValue h.2

/-! ## Faults -/

/-- The response for a status with an error. -/
def errorResponse (status : Nat) (kind message : String) (details : List (String × Json) := []) :
    Response :=
  ⟨status, .json (.obj ([("error", .str kind), ("message", .str message)] ++ details))⟩

/-- The response for a request that is wrong in itself. -/
def badRequest (message : String) : Response := errorResponse 400 "bad_request" message

/-- The JSON form of a broken rule. -/
def violationJson (v : Violation) : Json :=
  .obj [("node_ids", .list .str v.nodeIds), ("edge_ids", .list .str v.edgeIds),
    ("reason", .str v.rule.name)]

/-- The status and the kind of a fault. -/
def faultStatus : Fault → Nat × String
  | .invalidFlow _ => (422, "invalid_flow")
  | .missing _ => (404, "not_found")
  | .clash _ => (409, "conflict")
  | .halted _ => (503, "campaign_halted")
  | .unreadable => (400, "bad_request")
  | .storage | .outOfRange => (500, "internal_error")

/-- The response for a fault. -/
def faultResponse (f : Fault) : Response :=
  let (status, kind) := faultStatus f
  errorResponse status kind f.message <|
    match f with
    | .invalidFlow v => [("details", violationJson v)]
    | _ => []

end MailCampaign.Http
