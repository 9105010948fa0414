import WalletHub.Hub.Callbacks
import WalletHub.Hub.Requests
import WalletHub.Hub.Teardown

/-!
# The hub

Commands are taken from the queue one at a time. `process` handles one and numbers what it did;
`step` follows it with the callbacks that engines raised meanwhile, before anything else in the
queue. A violated precondition halts a strict hub in the middle of the command: what it did is
not told, and nothing is taken after it.
-/
namespace WalletHub

/-- Whether a hub takes more commands. -/
inductive Life where
  | running
  /-- Shut down. -/
  | stopped
  /-- Stopped in the middle of a command. -/
  | halted
  deriving DecidableEq, Repr

/-- What came of a command. -/
structure Turn where
  hub : Hub
  /-- For the audience, in order. -/
  mail : List Notification
  queries : List Inquiry
  /-- The answer to a request. -/
  answer : Option (Except HubError Answer)
  /-- Callbacks that engines raised meanwhile. -/
  raised : List (Backend × EngineCallback)
  life : Life

namespace Hub

/-- A hub that has not begun. -/
def create (strict hasClient : Bool) (utxo account : Option Engine) : Hub :=
  ⟨strict, hasClient, utxo, account, .empty, .zero, ⟨0, 0⟩⟩

/-- The part of the hub that speaks in events. -/
def source : String := "dispatcher"

/-- Notices as events, numbered from the one after `last`. -/
def numbered (now : Timestamp) (last : Nat) : List Notice → List Event
  | [] => []
  | n :: rest => ⟨last + 1, now, source, n⟩ :: numbered now (last + 1) rest

/-- Numbers notices and counts them. -/
def emit (h : Hub) (notices : List Notice) : Hub × List Event :=
  (h.count fun c => { c with events := c.events + notices.length },
    numbered h.now h.counters.events notices)

/-- The first thing a hub does: it announces itself. -/
def start (h : Hub) : Hub × List Notification :=
  let (h, events) := h.emit [.hub .created]
  (h, events.map .event)

/-- A turn that tells the audience something besides events. -/
def tell (h : Hub) (n : Notification) : Turn := ⟨h, [n], [], none, [], .running⟩

/-- The turn of a command that was handled. -/
def conclude (r : Handling) (answer : Option (Except HubError Answer)) : Turn :=
  let (h, events) := r.hub.emit r.notices
  ⟨h, events.map .event, r.queries, answer, r.raised, .running⟩

/-- The end of a hub in the middle of a command. Its counters stay as they were before. -/
def halt (before : Hub) (r : Handling) : Turn :=
  ⟨{ r.hub with counters := before.counters }, [], [], none, [], .halted⟩

/-- Whether a fault halts the hub. -/
def isFatal (h : Hub) : Fault → Bool
  | .error _ => false
  | .violation _ => h.strict
  | .overflow => true

/-- The turn of a callback: an error is counted, and nobody is answered. -/
def concludeCallback (before : Hub) (r : Handling) : Turn :=
  match r.result with
  | .ok _ => conclude r none
  | .error f =>
    if before.isFatal f then halt before r
    else
      match f with
      | .error e => conclude { r with hub := r.hub.count (·.discard e) } none
      | _ => conclude r none

/-- The turn of a request: an error is answered. -/
def concludeRequest (before : Hub) (r : Handling) : Turn :=
  match r.result with
  | .ok a => conclude r (some (.ok a))
  | .error f =>
    if before.isFatal f then halt before r
    else
      match f with
      | .error e => conclude r (some (.error e))
      | .violation e =>
        conclude { r with hub := r.hub.count fun c => { c with violations := c.violations + 1 } }
          (some (.error (.precondition e)))
      | .overflow => conclude r (some (.error .closed))

/-- Handles one command. -/
def process (h : Hub) (c : Command) : Turn :=
  let counted := h.count fun c => { c with commands := c.commands + 1 }
  match c with
  | .callback backend cb =>
    concludeCallback h
      ((counted.count fun c => { c with callbacks := c.callbacks + 1 }).onCallback backend cb)
  | .request r =>
    concludeRequest h ((counted.count fun c => { c with requests := c.requests + 1 }).onRequest r)
  | .answered q result => ⟨counted.onAnswered q result, [], [], none, [], .running⟩
  | .register s => tell counted (.register s)
  | .remove name => tell counted (.remove name)
  | .flush => tell counted .barrier
  | .shutdown =>
    let (h, notices) := counted.teardown
    let (h, events) := h.emit notices
    ⟨h, events.map .event ++ [.shutdown], [], none, [], .stopped⟩

end Hub

/-- Goes on with one more callback, unless the hub stopped. -/
def Turn.follow (t : Turn) (c : Backend × EngineCallback) : Turn :=
  match t.life with
  | .running =>
    let u := t.hub.process (.callback c.1 c.2)
    ⟨u.hub, t.mail ++ u.mail, t.queries ++ u.queries, t.answer, t.raised ++ u.raised, u.life⟩
  | _ => t

/-- Handles one command, and then the callbacks that engines raised while it was handled. No
callback makes an engine raise another. -/
def Hub.step (h : Hub) (c : Command) : Turn :=
  let t := h.process c
  t.raised.foldl Turn.follow { t with raised := [] }

end WalletHub
