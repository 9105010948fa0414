import WalletHub.Error
import WalletHub.Json.Form
import WalletHub.Json.Lexer

/-!
# Configuration

The settings a system is started with. Every setting has a default, so a JSON form may leave any
of them out; what is given is checked before the system starts.
-/
namespace WalletHub

structure Configuration where
  /-- The number of commands the queue holds. -/
  queueCapacity : UInt64
  /-- The number of listeners there may be. -/
  maxListeners : Option UInt64
  /-- Whether a violated precondition stops the system. -/
  strict : Bool
  /-- Whether every event is logged when it is made. -/
  trace : Bool
  deriving DecidableEq, Repr

namespace Configuration

def standard : Configuration := ⟨1024, none, true, false⟩

/-- The largest queue; more is likely a mistake in the unit. -/
def maxCapacity : Nat := 1048576

/-- What is wrong with a configuration. -/
def objection? (c : Configuration) : Option HubError :=
  if c.queueCapacity = 0 then
    some (.configuration "dispatch_queue_capacity" "must be greater than zero")
  else if maxCapacity < c.queueCapacity.toNat then
    some (.configuration "dispatch_queue_capacity"
      ("must be at most " ++ Text.natText maxCapacity))
  else if c.maxListeners = some 0 then
    some (.configuration "max_listeners" "must allow at least one listener")
  else none

def validate (c : Configuration) : Except HubError Unit :=
  match c.objection? with
  | some e => .error e
  | none => .ok ()

/-- A field that has a default. -/
def fieldOr {α : Type} [JsonForm α] (default : α) : Option Json → Option α
  | none => some default
  | some v => ofJson? v

/-- The names of the settings, in order. -/
def names : List String :=
  ["dispatch_queue_capacity", "max_listeners", "strict_preconditions", "trace_events"]

/-- The settings a form gives: an array may end early. -/
def given? : Json → Option (List (Option Json))
  | .arr items =>
    if items.length ≤ names.length then
      some (items.map some ++ List.replicate (names.length - items.length) none)
    else none
  | v => v.fields? names

instance : JsonForm Configuration where
  toJson c := .obj [("dispatch_queue_capacity", toJson c.queueCapacity),
    ("max_listeners", toJson c.maxListeners), ("strict_preconditions", toJson c.strict),
    ("trace_events", toJson c.trace)]
  ofJson? v := do
    let [q, m, s, t] ← given? v | none
    return ⟨← fieldOr standard.queueCapacity q, ← fieldOr standard.maxListeners m,
      ← fieldOr standard.strict s, ← fieldOr standard.trace t⟩

/-- Reads a configuration and checks it. -/
def ofJsonText (s : String) : Except HubError Configuration :=
  match (Json.parse? s).bind (fun v => (ofJson? v : Option Configuration)) with
  | none => .error (.configuration "json" "no configuration")
  | some c => c.validate.map fun _ => c

def boolText (b : Bool) : String := if b then "true" else "false"

/-- The settings with their names. -/
def text (c : Configuration) : String :=
  "SystemConfig \x7b dispatch_queue_capacity: " ++ Text.natText c.queueCapacity.toNat
    ++ ", max_listeners: "
    ++ (match c.maxListeners with
      | none => "None"
      | some n => "Some(" ++ Text.natText n.toNat ++ ")")
    ++ ", strict_preconditions: " ++ boolText c.strict ++ ", trace_events: " ++ boolText c.trace
    ++ " \x7d"

end Configuration
end WalletHub
