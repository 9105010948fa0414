/-!
# The agenda

What is to be done now, in order, and what is to be done later, at a moment each. Work comes to its
turn from the front, is called to the back, and goes on within its turn until it used up its share;
then it is set aside for the next round. A round ends when nothing is left to do in it, and at the
latest after a fixed number of turns, so that nobody is kept waiting by others for long. The clock
stands still while there is work; then it moves to the next moment at which something is due. What
is due at one moment is called in the order in which it was put off.
-/
namespace WalletHub

/-- Work for a later moment. -/
structure Alarm (α : Type) where
  due : Nat
  task : α

structure Agenda (α : Type) where
  /-- Milliseconds since the start. -/
  clock : Nat
  /-- Work in the middle of its turn, and what it used of its share. -/
  underway : Option (α × Nat)
  /-- Work whose turn is still to come, first things first. -/
  now : List α
  /-- Work that used up its share, the last first. -/
  aside : List α
  /-- The turns of this round. -/
  turns : Nat
  /-- What is to be done later, in the order in which it was put off. -/
  later : List (Alarm α)

namespace Agenda

variable {α : Type}

/-- What work may use in one turn. -/
def share : Nat := 128

/-- The turns that a round has at most. -/
def roundLength : Nat := 61

/-- The agenda of a start: things to be done at once. -/
def start (now : List α) : Agenda α := ⟨0, none, now, [], 0, []⟩

/-- Calls for work behind all other. -/
def add (g : Agenda α) (a : α) : Agenda α := { g with now := g.now ++ [a] }

/-- Whether work is under way, called for or set aside. -/
def has [DecidableEq α] (g : Agenda α) (a : α) : Bool :=
  g.underway.any (·.1 = a) || decide (a ∈ g.now) || decide (a ∈ g.aside)

/-- Calls for work that is done once however often it is called for. -/
def call [DecidableEq α] (g : Agenda α) (a : α) : Agenda α := if g.has a then g else g.add a

/-- Goes on with a turn in which so much of the share was used. -/
def goOn (g : Agenda α) (a : α) (used : Nat) : Agenda α := { g with underway := some (a, used) }

/-- Sets work aside for the next round. -/
def setAside (g : Agenda α) (a : α) : Agenda α := { g with aside := a :: g.aside }

/-- Puts work off for some time. -/
def putOff (g : Agenda α) (wait : Nat) (a : α) : Agenda α :=
  { g with later := g.later ++ [⟨g.clock + wait, a⟩] }

/-- The next thing to do in this round, what its turn used so far, and the rest. -/
def take (g : Agenda α) : Option (α × Nat × Agenda α) :=
  match g.underway, g.now with
  | some (a, used), _ => some (a, used, { g with underway := none })
  | none, a :: rest =>
    if g.turns < roundLength then some (a, 0, { g with now := rest, turns := g.turns + 1 }) else none
  | none, [] => none

/-- Whether there is nothing to do before a later moment. -/
def isIdle (g : Agenda α) : Bool := g.underway.isNone && g.now.isEmpty && g.aside.isEmpty

/-- The next round, in which work that was set aside has its turn again. -/
def nextRound (g : Agenda α) : Agenda α := { g with now := g.now ++ g.aside, aside := [], turns := 0 }

/-- The next moment at which something is due. -/
def nextMoment? (g : Agenda α) : Option Nat := (g.later.map Alarm.due).min?

/-- The agenda at a moment: what is due by then is called for. -/
def atMoment (g : Agenda α) (t : Nat) : Agenda α :=
  let (due, later) := g.later.partition (·.due ≤ t)
  { g with clock := t, now := g.now ++ due.map Alarm.task, later := later }

end Agenda
end WalletHub
