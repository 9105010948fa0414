import WalletHub.Error
import WalletHub.Listener
import WalletHub.Table
import WalletHub.Text.Blank

/-!
# The audience

The registered listeners of a hub, in the order of their registration, with counts of what was
delivered to them. Names tell listeners apart. An event is offered to one listener after the
other: `offer` is one listener's turn and `deliver` all turns, and the listeners that fail do not
keep the event from those behind them.
-/
namespace WalletHub

/-- Counts since the audience was made, without a bound like those of the hub. -/
structure AudienceStats where
  events : Nat
  calls : Nat
  errors : Nat
  registered : Nat
  removed : Nat
  byType : Table String Nat
  errorsByListener : Table String Nat
  deriving DecidableEq

/-- Nothing counted yet. -/
def AudienceStats.zero : AudienceStats := ⟨0, 0, 0, 0, 0, .empty, .empty⟩

structure Audience where
  seats : List Seat
  /-- The number of listeners there may be. -/
  limit : Option Nat
  stats : AudienceStats

namespace Audience

def empty (limit : Option Nat) : Audience := ⟨[], limit, .zero⟩

/-- Names in the order of registration. -/
def names (a : Audience) : List String := a.seats.map (·.listener.name)

def has (a : Audience) (name : String) : Bool := a.seats.any (·.listener.name == name)

/-- What is wrong with a listener before it is set up. -/
def objection? (a : Audience) (l : Listener) : Option HubError :=
  if (Text.trim l.name).isEmpty then some (.invalidListenerName l.name)
  else if a.has l.name then some (.duplicateListener l.name)
  else
    match a.limit with
    | some max => if max ≤ a.seats.length then some (.tooManyListeners a.seats.length max) else none
    | none => none

/-- Sets up a listener and puts it last, unless something is wrong with it. -/
def register (a : Audience) (s : Seat) : Audience × Except HubError Unit × List Act :=
  match a.objection? s.listener with
  | some e => (a, .error e, [])
  | none =>
    match s.listener.setupFailure? with
    | some reason => (a, .error (.listenerSetup s.listener.name reason), [.setUp s])
    | none =>
      ({ a with
          seats := a.seats ++ [s]
          stats := { a.stats with registered := a.stats.registered + 1 } },
        .ok (), [.setUp s])

/-- Cleans up the listener of a name and lets it go. -/
def remove (a : Audience) (name : String) : Audience × Except HubError Unit × List Act :=
  match a.seats.find? (·.listener.name == name) with
  | none => (a, .error (.listenerNotFound name), [])
  | some s =>
    ({ a with
        seats := a.seats.eraseP (·.listener.name == name)
        stats := { a.stats with removed := a.stats.removed + 1 } },
      .ok (), [.cleanedUp s])

/-- Counts an event that is about to be offered. -/
def announce (a : Audience) (e : Event) : Audience :=
  { a with
    stats := { a.stats with
      events := a.stats.events + 1
      byType := a.stats.byType.bump e.typeName } }

/-- Counts that a listener failed. -/
def countError (st : AudienceStats) (name : String) : AudienceStats :=
  { st with errors := st.errors + 1, errorsByListener := st.errorsByListener.bump name }

/-- Offers an event to one listener. -/
def offer (a : Audience) (s : Seat) (e : Event) : Audience × List Act :=
  if s.listener.wants e then
    let st := { a.stats with calls := a.stats.calls + 1 }
    let st := if s.listener.failsAt e then countError st s.listener.name else st
    ({ a with stats := st }, [.heard s e])
  else (a, [])

/-- Offers an event to listeners, one after the other. -/
def offerAll (a : Audience) (e : Event) : List Seat → Audience × List Act
  | [] => (a, [])
  | s :: rest =>
    let (a, acts) := a.offer s e
    let (a, more) := a.offerAll e rest
    (a, acts ++ more)

/-- Offers an event to every listener, in the order of registration. -/
def deliver (a : Audience) (e : Event) : Audience × List Act :=
  (a.announce e).offerAll e a.seats

/-- Cleans up all listeners and lets them go. -/
def dismiss (a : Audience) : Audience × List Act :=
  ({ a with
      seats := []
      stats := { a.stats with removed := a.stats.removed + a.seats.length } },
    a.seats.map .cleanedUp)

end Audience
end WalletHub
