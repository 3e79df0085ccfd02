import MailCampaign.Number.Double
import MailCampaign.Settings.Basic
import MailCampaign.Table

/-!
# Settings from the environment

A variable `CAMPAIGN_AUTOMATION__SECTION__NAME` sets a setting; the case of its name does not matter,
and a dot does for two underscores. A number in brackets after a name stands for an item of a list.
A value is a Boolean, a whole number or a floating point number where it reads as one, and otherwise
a list of texts between commas. Settings take what they need from these: a number from a Boolean, a
text from a number, and a whole section from a list of its settings in order. A text alone sets
nothing, being a list.
-/

namespace MailCampaign.Environment

/-- Why variables do not make settings. -/
inductive Refusal where
  /-- A value does not suit its setting. -/
  | unsuited
  /-- An item is counted from the end of a list that is too short. -/
  | outOfRange
deriving DecidableEq

/-- What variables set: a value, values in a list or values by name. -/
inductive Tree where
  /-- An item of a list that no variable sets. -/
  | unset
  | bool (b : Bool)
  | int (n : Int)
  | double (d : Double)
  | text (s : String)
  | list (items : List Tree)
  | branch (members : List (String × Tree))

/-! ## Reading variables -/

/-- A signed 64-bit number. -/
def int? (s : String) : Option Int := do
  let (negative, digits) := Double.sign s.toList
  let n ← natOfDigits? digits
  let i : Int := if negative then -n else n
  if -0x8000000000000000 ≤ i ∧ i < 0x8000000000000000 then some i else none

/-- The texts between commas. -/
def commaParts : List Char → List (List Char)
  | [] => [[]]
  | c :: rest =>
    if c = ',' then [] :: commaParts rest
    else
      match commaParts rest with
      | [] => [[c]]
      | part :: more => (c :: part) :: more

/-- The value of a text. -/
def value (s : String) : Tree :=
  if lowerText s = "true" then .bool true
  else if lowerText s = "false" then .bool false
  else
    match int? s, Double.ofText? s with
    | some n, _ => .int n
    | none, some d => .double d
    | none, none => .list ((commaParts s.toList).map fun part => .text (String.ofList part))

/-- A step of the path to a setting. -/
inductive PathStep where
  | name (s : String)
  /-- An item of a list; a negative number counts from its end. -/
  | item (i : Int)
deriving DecidableEq

/-- What the names of settings start with. -/
def start : List Char := "campaign_automation__".toList

/-- A character of the name of a section or a setting. -/
def isNameChar (c : Char) : Bool := c.isAlphanum || c == '_' || c == '-' || c == ' '

/-- The name with a dot for every two underscores. -/
def dotted : List Char → List Char
  | '_' :: '_' :: rest => '.' :: dotted rest
  | c :: rest => c :: dotted rest
  | [] => []

/-- Takes away blanks and tabs at both ends. -/
def unspaced (cs : List Char) : List Char :=
  let isSpace (c : Char) : Bool := c == ' ' || c == '\t'
  ((cs.dropWhile isSpace).reverse.dropWhile isSpace).reverse

/-- The number of an item. -/
def itemNumber? (cs : List Char) : Option Int := do
  let (negative, digits) := match unspaced cs with
    | '-' :: digits => (true, digits)
    | digits => (false, digits)
  let n ← natOfDigits? digits
  let i : Int := if negative then -n else n
  if -0x8000000000000000 ≤ i ∧ i < 0x8000000000000000 then some i else none

/-- The steps of the rest of a path: names after dots and numbers in brackets. -/
def steps? : List Char → Option (List PathStep)
  | [] => some []
  | '.' :: rest =>
    let name := rest.takeWhile isNameChar
    if name = [] then none
    else (steps? (rest.dropWhile isNameChar)).map (.name (String.ofList name) :: ·)
  | '[' :: rest =>
    match itemNumber? (rest.takeWhile (· != ']')), _h : rest.dropWhile (· != ']') with
    | some i, _ :: more => (steps? more).map (.item i :: ·)
    | _, _ => none
  | _ => none
termination_by cs => cs.length
decreasing_by
  · have := (List.dropWhile_sublist (l := rest) isNameChar).length_le
    simp only [List.length_cons]; omega
  · have := (List.dropWhile_sublist (l := rest) (· != ']')).length_le
    rw [_h] at this
    simp only [List.length_cons] at this ⊢; omega

/-- The path to the setting of a variable. A name that makes no path stands as a whole at the top. -/
def path? (name : String) : Option (List PathStep) :=
  let cs := (lowerText name).toList
  if cs.take start.length = start then
    let path := dotted (cs.drop start.length)
    some ((steps? ('.' :: path)).getD [.name (String.ofList path)])
  else none

namespace Tree

/-- The members of a branch, and none of anything else. -/
def members : Tree → List (String × Tree)
  | branch members => members
  | _ => []

/-- The items of a list, and none of anything else. -/
def items : Tree → List Tree
  | list items => items
  | _ => []

/-- The position of an item in a list of some length. -/
def position? (length : Nat) (i : Int) : Option Nat :=
  if 0 ≤ i then some i.toNat
  else if i.natAbs ≤ length then some (length - i.natAbs)
  else none

/-- Puts a value at a path; what is in the way gives way, and a list that is too short grows. -/
def put (v : Tree) : List PathStep → Tree → Except Refusal Tree
  | [], _ => .ok v
  | .name name :: rest, t => do
    let child ← put v rest ((t.members.lookup name).getD unset)
    return branch ((name, child) :: t.members.filter fun m => m.1 != name)
  | .item i :: rest, t =>
    match position? t.items.length i with
    | none => .error .outOfRange
    | some k => do
      let child ← put v rest (t.items[k]?.getD unset)
      return list ((t.items ++ List.replicate (k + 1 - t.items.length) unset).set k child)

end Tree

/-- The tree of variables. -/
def tree (env : List (String × String)) : Except Refusal Tree :=
  env.foldlM (fun t (name, s) =>
    match path? name with
    | some path => Tree.put (value s) path t
    | none => .ok t) (.branch [])

/-! ## Taking settings from values -/

/-- A text. -/
def asText : Tree → Option String
  | .text s => some s
  | .bool b => some (if b then "true" else "false")
  | .int n => some (intText n)
  | .double d => some d.text
  | _ => none

/-- A text that may be absent. -/
def asOptionalText : Tree → Option (Option String)
  | .unset => some none
  | t => some <$> asText t

/-- A number from a text: its digits, or a word for yes or no. -/
def wordNumber? (s : String) : Option Nat :=
  let word := lowerText s
  if word ∈ ["true", "on", "yes"] then some 1
  else if word ∈ ["false", "off", "no"] then some 0
  else
    match s.toList with
    | '+' :: digits => natOfDigits? digits
    | digits => natOfDigits? digits

/-- A natural number of 64 bits. A floating point number is rounded, and the nearest such number
stands for one that is out of range. -/
def asNat : Tree → Option Nat
  | .bool b => some (if b then 1 else 0)
  | .int n => if 0 ≤ n then some n.toNat else none
  | .double d => some (d.toNatBelow UInt64.size)
  | .text s => (wordNumber? s).filter (· < UInt64.size)
  | _ => none

/-- The lowest 16 bits of a number. -/
def asUInt16 (t : Tree) : Option UInt16 := UInt16.ofNat <$> asNat t

/-- The lowest 32 bits of a number. -/
def asUInt32 (t : Tree) : Option UInt32 := UInt32.ofNat <$> asNat t

/-- A 64-bit number. -/
def asUInt64 (t : Tree) : Option UInt64 := UInt64.ofNat <$> asNat t

/-- A Boolean. -/
def asBool : Tree → Option Bool
  | .bool b => some b
  | .int n => some (n != 0)
  | .double d => some d.nonzero
  | .text s =>
    let word := lowerText s
    if word ∈ ["1", "true", "on", "yes"] then some true
    else if word ∈ ["0", "false", "off", "no"] then some false
    else none
  | _ => none

/-- The members of a section with these names: by name, or in order from a list. -/
def members (names : List String) : Tree → Option (List (String × Tree))
  | .branch members => some members
  | .list items => some (names.zip items)
  | _ => none

/-- A setting, or its default when it is not set. -/
def setting {α : Type} (ms : List (String × Tree)) (name : String) (f : Tree → Option α)
    (default : α) : Option α :=
  match ms.lookup name with
  | some t => f t
  | none => some default

/-- The settings of the server. -/
def asApi (t : Tree) : Option ApiSettings := do
  let d : ApiSettings := {}
  let ms ← members ["host", "http_port"] t
  return ⟨← setting ms "host" asText d.host, ← setting ms "http_port" asUInt16 d.httpPort⟩

/-- The settings of the exporter. -/
def asMetrics (t : Tree) : Option MetricsSettings := do
  let d : MetricsSettings := {}
  let ms ← members ["enabled", "port"] t
  return ⟨← setting ms "enabled" asBool d.enabled, ← setting ms "port" asUInt16 d.port⟩

/-- The settings of the engine. -/
def asFlow (t : Tree) : Option FlowSettings := do
  let d : FlowSettings := {}
  let ms ← members ["scheduler_interval_ms", "batch_size", "dispatch_concurrency",
    "max_send_retries", "retry_base_secs", "retry_max_secs", "idempotency_ttl_hours",
    "snapshot_path", "snapshot_interval_secs", "journal_fsync"] t
  return {
    schedulerIntervalMs := ← setting ms "scheduler_interval_ms" asUInt64 d.schedulerIntervalMs
    batchSize := ← setting ms "batch_size" asUInt64 d.batchSize
    dispatchConcurrency := ← setting ms "dispatch_concurrency" asUInt64 d.dispatchConcurrency
    maxSendRetries := ← setting ms "max_send_retries" asUInt32 d.maxSendRetries
    retryBaseSecs := ← setting ms "retry_base_secs" asUInt64 d.retryBaseSecs
    retryMaxSecs := ← setting ms "retry_max_secs" asUInt64 d.retryMaxSecs
    idempotencyTtlHours := ← setting ms "idempotency_ttl_hours" asUInt64 d.idempotencyTtlHours
    snapshotPath := ← setting ms "snapshot_path" asOptionalText d.snapshotPath
    snapshotIntervalSecs := ← setting ms "snapshot_interval_secs" asUInt64 d.snapshotIntervalSecs
    journalFsync := ← setting ms "journal_fsync" asBool d.journalFsync }

/-- All settings. -/
def asSettings (t : Tree) : Option Settings := do
  let d : Settings := {}
  let ms ← members ["node_id", "api", "metrics", "flow"] t
  return {
    nodeId := ← setting ms "node_id" asText d.nodeId
    api := ← setting ms "api" asApi d.api
    metrics := ← setting ms "metrics" asMetrics d.metrics
    flow := ← setting ms "flow" asFlow d.flow }

/-- The settings of variables, when every variable suits its setting. -/
def settings (env : List (String × String)) : Except Refusal Settings := do
  match asSettings (← tree env) with
  | some s => return s
  | none => throw .unsuited

end MailCampaign.Environment
