import MailCampaign.Settings.Basic
import MailCampaign.Text.Numeral

/-!
# The command line

Every option takes a value, either the next argument or what follows an equals sign. An option that
is not given takes its value from its variable in the environment, if it has one. What is given wins
over the settings.
-/

namespace MailCampaign

/-- An option. -/
inductive Flag where
  | nodeId
  | httpPort
  | metricsPort
  | snapshotPath
  | templates
deriving DecidableEq

/-- What is wrong with a command line. -/
inductive UsageFault where
  | unknown (argument : String)
  | valueMissing (f : Flag)
  | repeated (f : Flag)
  | notPort (f : Flag) (value : String)

/-- What was asked for on the command line. -/
structure CommandLine where
  nodeId : Option String := none
  httpPort : Option UInt16 := none
  metricsPort : Option UInt16 := none
  /-- The file for snapshots. -/
  snapshotPath : Option String := none
  /-- The file with the templates. -/
  templates : Option String := none

namespace Flag

def all : List Flag := [nodeId, httpPort, metricsPort, snapshotPath, templates]

def name : Flag → String
  | nodeId => "--node-id"
  | httpPort => "--http-port"
  | metricsPort => "--metrics-port"
  | snapshotPath => "--snapshot-path"
  | templates => "--templates"

/-- The variable that stands in for the option. -/
def standIn? : Flag → Option String
  | nodeId => some "CAMPAIGN_AUTOMATION__NODE_ID"
  | httpPort => some "CAMPAIGN_AUTOMATION__API__HTTP_PORT"
  | metricsPort => some "CAMPAIGN_AUTOMATION__METRICS__PORT"
  | snapshotPath => some "CAMPAIGN_AUTOMATION__FLOW__SNAPSHOT_PATH"
  | templates => none

/-- The option of a name. -/
def ofName? (s : String) : Option Flag := all.find? fun f => f.name == s

theorem mem_all (f : Flag) : f ∈ all := by cases f <;> decide

theorem ofName?_name (f : Flag) : ofName? f.name = some f := by cases f <;> decide +kernel

end Flag

def UsageFault.message : UsageFault → String
  | .unknown argument => "unexpected argument '" ++ argument ++ "'"
  | .valueMissing f => "a value is required for '" ++ f.name ++ "'"
  | .repeated f => "'" ++ f.name ++ "' cannot be used multiple times"
  | .notPort f value => "invalid value '" ++ value ++ "' for '" ++ f.name ++ "'"

namespace CommandLine

/-- The option of an argument, with the value after its equals sign. -/
def flag? (argument : String) : Option (Flag × Option String) :=
  let name := argument.toList.takeWhile (· != '=')
  let value := match argument.toList.dropWhile (· != '=') with
    | [] => none
    | _ :: value => some (String.ofList value)
  (Flag.ofName? (String.ofList name)).map fun f => (f, value)

/-- The options of a command line with their values, in order. -/
def options : List String → Except UsageFault (List (Flag × String))
  | [] => .ok []
  | argument :: rest =>
    match flag? argument, rest with
    | none, _ => .error (.unknown argument)
    | some (f, some value), rest => do return (f, value) :: (← options rest)
    | some (f, none), value :: rest => do return (f, value) :: (← options rest)
    | some (f, none), [] => .error (.valueMissing f)

/-- A port: a number of sixteen bits, perhaps after a plus sign. -/
def port? (s : String) : Option UInt16 :=
  let digits := match s.toList with
    | '+' :: digits => digits
    | digits => digits
  ((natOfDigits? digits).filter (· < UInt16.size)).map UInt16.ofNat

/-- The value of an option that is given at most once, or else of its variable. -/
def value? (given : List (Flag × String)) (env : List (String × String)) (f : Flag) :
    Except UsageFault (Option String) :=
  match given.filter fun g => g.1 == f with
  | [] => .ok (f.standIn?.bind fun name => env.lookup name)
  | [(_, value)] => .ok (some value)
  | _ => .error (.repeated f)

/-- The port of an option. -/
def portOf (f : Flag) : Option String → Except UsageFault (Option UInt16)
  | none => .ok none
  | some s =>
    match port? s with
    | some port => .ok (some port)
    | none => .error (.notPort f s)

/-- Reads a command line in an environment. -/
def read (arguments : List String) (env : List (String × String)) :
    Except UsageFault CommandLine := do
  let given ← options arguments
  let value := value? given env
  return {
    nodeId := ← value .nodeId
    httpPort := ← portOf .httpPort (← value .httpPort)
    metricsPort := ← portOf .metricsPort (← value .metricsPort)
    snapshotPath := ← value .snapshotPath
    templates := ← value .templates }

/-- The settings with what was asked for in their place. -/
def override (c : CommandLine) (s : Settings) : Settings where
  nodeId := c.nodeId.getD s.nodeId
  api := { s.api with httpPort := c.httpPort.getD s.api.httpPort }
  metrics := { s.metrics with port := c.metricsPort.getD s.metrics.port }
  flow := { s.flow with snapshotPath := c.snapshotPath.or s.flow.snapshotPath }

@[simp] theorem override_default (s : Settings) : override {} s = s := rfl

end CommandLine

end MailCampaign
