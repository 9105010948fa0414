/-!
# The intake

The write side of a queue that holds a limited number of items. Code that may wait does so at the
queue; code that may not parks its item in an overflow, and a feeder moves parked items into the
queue as it empties. While the feeder is at work every later item goes behind the parked ones, so
no item overtakes another. Waiting senders are served in the order in which they came: when an
item leaves the queue, its room is kept for the first of them, who puts an item there at the next
turn.
-/
namespace WalletHub

/-- A sender that waits for room in the queue. -/
inductive Sender (α : Type) where
  | caller (item : α)
  /-- A piece of work that ends with sending an item. -/
  | worker (item : α)
  /-- The feeder, with an item from the overflow. -/
  | feeder (item : α)

namespace Sender

variable {α : Type}

/-- What a sender waits with. -/
def item : Sender α → α
  | .caller a | .worker a | .feeder a => a

def isCaller : Sender α → Bool
  | .caller _ => true
  | _ => false

end Sender

structure Intake (α : Type) where
  capacity : Nat
  /-- The items in the queue, oldest first. -/
  queue : List α
  /-- Senders for whom room is kept in the queue. -/
  granted : List (Sender α)
  waiting : List (Sender α)
  overflow : List α
  /-- Whether parked items are being fed to the queue. -/
  draining : Bool
  /-- The number of feeders about to take an item from the overflow. -/
  feeders : Nat
  closed : Bool

namespace Intake

variable {α : Type}

def empty (capacity : Nat) : Intake α := ⟨capacity, [], [], [], [], false, 0, false⟩

/-- Whether an item can enter the queue at once. -/
def hasRoom (q : Intake α) : Bool :=
  q.waiting.isEmpty && decide (q.queue.length + q.granted.length < q.capacity)

/-- The queue with an item behind all others, or with a sender waiting to put it there. -/
def enter (q : Intake α) (s : Sender α) : Intake α :=
  if q.hasRoom then { q with queue := q.queue ++ [s.item] }
  else { q with waiting := q.waiting ++ [s] }

/-- Sends from code that cannot wait; whether the item was accepted. -/
def send (q : Intake α) (a : α) : Intake α × Bool :=
  if q.closed then (q, false)
  else if q.draining then ({ q with overflow := q.overflow ++ [a] }, true)
  else if q.hasRoom then ({ q with queue := q.queue ++ [a] }, true)
  else
    ({ q with overflow := q.overflow ++ [a], draining := true, feeders := q.feeders + 1 }, true)

/-- Sends from code that can wait; whether the item was accepted. -/
def sendWaiting (q : Intake α) (a : α) : Intake α × Bool :=
  if q.closed then (q, false)
  else if q.draining then ({ q with overflow := q.overflow ++ [a] }, true)
  else (q.enter (.caller a), true)

/-- Sends if nothing has to be waited for; whether the item was accepted. -/
def trySend (q : Intake α) (a : α) : Intake α × Bool :=
  if q.closed then (q, false)
  else if q.draining then ({ q with overflow := q.overflow ++ [a] }, true)
  else if q.hasRoom then ({ q with queue := q.queue ++ [a] }, true)
  else (q, false)

/-- Sends past the overflow, from a piece of work that can wait. -/
def sendPast (q : Intake α) (a : α) : Intake α × Bool :=
  if q.closed then (q, false) else (q.enter (.worker a), true)

/-- One step of a feeder: it takes the first parked item to the queue, or finds none and ends. -/
def feed (q : Intake α) : Option (Intake α) :=
  if q.feeders = 0 then none
  else if q.closed then
    some { q with overflow := [], draining := false, feeders := q.feeders - 1 }
  else
    match q.overflow with
    | [] => some { q with draining := false, feeders := q.feeders - 1 }
    | a :: rest =>
      let q := { q with overflow := rest }
      if q.hasRoom then some { q with queue := q.queue ++ [a] }
      else some { q with waiting := q.waiting ++ [.feeder a], feeders := q.feeders - 1 }

/-- Keeps the room that came free for the first waiting sender. -/
def grant (q : Intake α) : Intake α :=
  match q.waiting with
  | [] => q
  | s :: rest => { q with granted := q.granted ++ [s], waiting := rest }

/-- Takes the oldest item out of the queue. -/
def receive (q : Intake α) : Option (α × Intake α) :=
  match q.queue with
  | [] => none
  | a :: rest => some (a, { q with queue := rest }.grant)

/-- A sender for whom room is kept puts its item there: the first of a kind. -/
def redeem (q : Intake α) (kind : Sender α → Bool) : Option (Intake α) :=
  (q.granted.find? kind).map fun s =>
    { q with
      queue := q.queue ++ [s.item]
      granted := q.granted.eraseP kind
      feeders := match s with
        | .feeder _ => q.feeders + 1
        | _ => q.feeders }

/-- All items that were accepted and not received yet, in order. -/
def pending (q : Intake α) : List α :=
  q.queue ++ q.granted.map Sender.item ++ q.waiting.map Sender.item ++ q.overflow

/-- Closes the queue; what is in it is lost. -/
def close (q : Intake α) : Intake α := ⟨q.capacity, [], [], [], [], false, 0, true⟩

end Intake
end WalletHub
