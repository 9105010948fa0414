import WalletHub.Engine.Callback
import WalletHub.Listener.Logger

/-!
# Listeners

A listener is handed the events it wants, one at a time. It may fail at it, which is counted and
changes nothing for others, and it may take its time. What a listener did is kept as data: `Act`
says what happened, and its log line and the callbacks it raised are read off it.
-/
namespace WalletHub

/-- What a scripted listener does. -/
structure Script where
  /-- Milliseconds between being handed an event and acting on it. -/
  delay : Nat
  /-- Names of the scopes of which events are wanted; all if there are none. -/
  scopes : List String
  /-- Types of events it fails at. -/
  failOn : List String
  setupFailure : Option String
  cleanupFailure : Option String
  /-- Callbacks to raise on events of a type. -/
  reactions : List (String × Backend × EngineCallback)

inductive Behaviour where
  | scripted (script : Script)
  /-- Keeps the events, and fails at some types of them. -/
  | recording (failOn : List String)
  | logging (logger : Logger)
  /-- Takes events by scope. -/
  | routing
  | silent
  /-- What an application brings along. It is offered no event twice, so what it makes of an event
  depends on that event alone, even if it remembers those before. -/
  | custom (wants fails : Event → Bool) (setupFailure : Option String)

structure Listener where
  name : String
  behaviour : Behaviour

/-- A listener with its number among all that were ever presented, which tells two of one name
apart. -/
structure Seat where
  serial : Nat
  listener : Listener

/-- What a listener did. -/
inductive Act where
  | setUp (seat : Seat)
  | heard (seat : Seat) (event : Event)
  | cleanedUp (seat : Seat)

namespace Listener

/-- A logger as a listener. -/
def ofLogger (l : Logger) : Listener := ⟨Logger.name, .logging l⟩

/-- Whether the listener is to be handed an event. -/
def wants (l : Listener) (e : Event) : Bool :=
  match l.behaviour with
  | .scripted s => s.scopes.isEmpty || s.scopes.contains e.scope.text
  | .logging g => g.level.wants e.notice
  | .custom wants _ _ => wants e
  | _ => true

/-- Whether the listener fails at an event. -/
def failsAt (l : Listener) (e : Event) : Bool :=
  match l.behaviour with
  | .scripted s => s.failOn.contains e.typeName
  | .recording failOn => failOn.contains e.typeName
  | .custom _ fails _ => fails e
  | _ => false

/-- Why the listener cannot be set up. -/
def setupFailure? (l : Listener) : Option String :=
  match l.behaviour with
  | .scripted s => s.setupFailure
  | .custom _ _ failure => failure
  | _ => none

/-- Milliseconds the listener takes for an event. -/
def delay (l : Listener) : Nat :=
  match l.behaviour with
  | .scripted s => s.delay
  | _ => 0

/-- The line written about an event. -/
def lineFor? (l : Listener) (e : Event) : Option String :=
  let line (rest : String) : String :=
    l.name ++ " " ++ e.scope.text ++ " " ++ Text.natText e.sequence ++ rest
  match l.behaviour, e.notice with
  | .scripted _, _ => some (l.name ++ " " ++ e.summary)
  | .routing, .hub _ => some (line "")
  | .routing, .manager h _ => some (line (" " ++ h.text))
  | .routing, .wallet p _ => some (line (" " ++ p.text))
  | .routing, .transfer p _ => some (line (" " ++ p.text))
  | _, _ => none

/-- The line written when the listener is set up or cleaned up. -/
def lineAround? (l : Listener) (what : String) : Option String :=
  match l.behaviour with
  | .scripted _ => some (l.name ++ " " ++ what)
  | _ => none

/-- The callbacks raised on an event. -/
def reactionsTo (l : Listener) (e : Event) : List (Backend × EngineCallback) :=
  match l.behaviour with
  | .scripted s => s.reactions.filterMap fun (t, r) => if t == e.typeName then some r else none
  | _ => []

end Listener

namespace Act

/-- The line an act is logged with. -/
def line? : Act → Option String
  | setUp s => s.listener.lineAround? "initialize"
  | heard s e => s.listener.lineFor? e
  | cleanedUp s => s.listener.lineAround? "cleanup"

/-- The callbacks raised by an act. -/
def reactions : Act → List (Backend × EngineCallback)
  | heard s e => s.listener.reactionsTo e
  | _ => []

/-- The event heard, if the act is that of the listener with this number. -/
def heardBy? (serial : Nat) : Act → Option Event
  | heard s e => if s.serial = serial then some e else none
  | _ => none

end Act
end WalletHub
