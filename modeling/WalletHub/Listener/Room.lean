import WalletHub.Listener.Audience

/-!
# The listening room

The audience together with everything its listeners ever did. A recorder's tape is what its
listener heard, so it can be read when the listener is gone, or was never let in. The last
recorder presented under a name is the one that answers to it.
-/
namespace WalletHub

/-- A recording listener: its tape starts `start` acts into the history. -/
structure Recorder where
  name : String
  serial : Nat
  start : Nat
  deriving DecidableEq, Repr

structure Room where
  audience : Audience
  /-- What listeners did, oldest first. -/
  history : List Act
  /-- Recorders presented, latest first. -/
  recorders : List Recorder
  /-- The number of listeners presented so far. -/
  presented : Nat

namespace Room

def empty (limit : Option Nat) : Room := ⟨.empty limit, [], [], 0⟩

/-- Gives a listener its number, before anything is done with it. -/
def present (r : Room) (l : Listener) : Room × Seat :=
  let recorders := match l.behaviour with
    | .recording _ => ⟨l.name, r.presented, r.history.length⟩ :: r.recorders
    | _ => r.recorders
  ({ r with recorders := recorders, presented := r.presented + 1 }, ⟨r.presented, l⟩)

/-- The room with another audience and more history. -/
def after (r : Room) (a : Audience) (acts : List Act) : Room :=
  { r with audience := a, history := r.history ++ acts }

def register (r : Room) (s : Seat) : Room × Except HubError Unit :=
  let (a, result, acts) := r.audience.register s
  (r.after a acts, result)

def remove (r : Room) (name : String) : Room × Except HubError Unit :=
  let (a, result, acts) := r.audience.remove name
  (r.after a acts, result)

/-- Counts an event that is about to be offered. -/
def announce (r : Room) (e : Event) : Room := { r with audience := r.audience.announce e }

/-- One listener's turn; with the callbacks it raised. -/
def offer (r : Room) (s : Seat) (e : Event) : Room × List (Backend × EngineCallback) :=
  let (a, acts) := r.audience.offer s e
  (r.after a acts, acts.flatMap Act.reactions)

def deliver (r : Room) (e : Event) : Room :=
  let (a, acts) := r.audience.deliver e
  r.after a acts

def dismiss (r : Room) : Room :=
  let (a, acts) := r.audience.dismiss
  r.after a acts

/-- Lines logged, oldest first. -/
def lines (r : Room) : List String := r.history.filterMap Act.line?

/-- The events on a recorder's tape. -/
def tape (r : Room) (rec : Recorder) : List Event :=
  (r.history.drop rec.start).filterMap (Act.heardBy? rec.serial)

/-- The tape of the last recorder of a name. -/
def tape? (r : Room) (name : String) : Option (List Event) :=
  (r.recorders.find? (·.name == name)).map r.tape

/-- Recorders with the first one of a name started at a point of the history. -/
def restart (name : String) (start : Nat) : List Recorder → List Recorder
  | [] => []
  | rec :: rest =>
    if rec.name == name then { rec with start := start } :: rest
    else rec :: restart name start rest

/-- Empties the tape of the last recorder of a name. -/
def clear (r : Room) (name : String) : Room :=
  { r with recorders := restart name r.history.length r.recorders }

end Room

namespace Tape

/-- Types of the events on a tape. -/
def types (events : List Event) : List String := events.map Event.typeName

/-- Numbers of the events on a tape. -/
def sequences (events : List Event) : List Nat := events.map Event.sequence

/-- How many events on a tape are of a type. -/
def count (events : List Event) (typeName : String) : Nat :=
  (events.filter (·.typeName == typeName)).length

/-- Events of a manager itself, without those of its wallets and transfers. -/
def ofManager (events : List Event) (m : ManagerHandle) : List Event :=
  events.filter fun e => match e.notice with
    | .manager h _ => h = m
    | _ => false

/-- Events of a wallet itself. -/
def ofWallet (events : List Event) (w : WalletPath) : List Event :=
  events.filter fun e => match e.notice with
    | .wallet p _ => p = w
    | _ => false

/-- Events of a transfer. -/
def ofTransfer (events : List Event) (t : TransferPath) : List Event :=
  events.filter fun e => match e.notice with
    | .transfer p _ => p = t
    | _ => false

end Tape
end WalletHub
