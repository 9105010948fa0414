import WalletHub.Proofs.Announced

/-!
# Queries on their way

A desk is a session with everything that is under way around it: what waits in the queue of the
hub, and the queries that the service is at work on. Commands arrive at any time. The hub takes
them from the front of the queue; callbacks that engines raise meanwhile go to the front, and
queries go to the service. The service finishes any of its queries at any time, in a value of the
kind that was asked for or in an error, and the answer goes to the back of the queue. So answers
come in any order, and any commands may come in between.

Beside that a desk keeps a ledger: the requests that engines raised, numbered in the order in which
the hub took them; what the service returned for each; and what was announced to the engines, with
the number of the request it came of. The announcements are read off the logs of the engines
themselves.
-/
namespace WalletHub

/-- A request for data that an engine raised, with the hub that took it. -/
structure Asked where
  hub : Hub
  backend : Backend
  manager : UInt64
  id : RequestId
  request : QueryRequest

/-- What waits in the queue of the hub. -/
inductive Entry where
  | command (c : Command)
  /-- What the service returned for the query of a request. -/
  | answer (request : Nat) (inquiry : Inquiry) (result : QueryResult)

/-- What was announced to an engine, and the number of the request it came of, if it came of one. -/
structure Heard where
  backend : Backend
  origin : Option Nat
  announced : Announced

structure Desk where
  session : Session
  queue : List Entry
  /-- Queries that the service is at work on, with the number of their request. -/
  running : List (Nat × Inquiry)
  /-- Requests for data, in the order in which the hub took them. -/
  asked : List Asked
  /-- What the service returned, and for which request. -/
  returned : List (Nat × QueryResult)
  heard : List Heard

/-- The answers that the engines of `g` got beyond those of `h`. -/
def Hub.news (h g : Hub) (origin : Option Nat) : List Heard :=
  [Backend.utxo, .account].flatMap fun b =>
    ((g.announced b).drop (h.announced b).length).map (⟨b, origin, ·⟩)

def Entry.toCommand : Entry → Command
  | command c => c
  | answer _ q r => .answered q r

/-- Whether this is the answer to the request with a number. -/
def Entry.answers (n : Nat) : Entry → Bool
  | command _ => false
  | answer m _ _ => m == n

namespace Desk

/-- A new session, with nothing under way. -/
def opened (strict hasClient : Bool) (utxo account : Option Bool) : Desk :=
  ⟨.opened strict hasClient utxo account, [], [], [], [], []⟩

/-- The requests for data that the hub takes with an entry: one at most. -/
def asks (d : Desk) : Entry → List Asked
  | .command (.callback b (.queryRequested k i q)) => [⟨d.session.hub, b, k, i, q⟩]
  | _ => []

/-- The number of the request that an entry is about. -/
def origin (d : Desk) : Entry → Option Nat
  | .command (.callback _ (.queryRequested ..)) => some d.asked.length
  | .command _ => none
  | .answer n _ _ => some n

/-- The hub took an entry from the queue, and left the rest. -/
def turn (d : Desk) (e : Entry) (rest : List Entry) : Desk :=
  let t := d.session.hub.process e.toCommand
  { session := d.session.after t
    queue := t.raised.map (fun c => .command (.callback c.1 c.2)) ++ rest
    running := d.running ++ t.queries.map (d.asked.length, ·)
    asked := d.asked ++ d.asks e
    returned := d.returned
    heard := d.heard ++ d.session.hub.news t.hub (d.origin e) }

inductive Step : Desk → Desk → Prop
  /-- Anybody but the service sends a command. -/
  | arrive {d : Desk} (c : Command) (outside : ∀ q r, c ≠ .answered q r) :
      Step d { d with queue := d.queue ++ [.command c] }
  | turn {d : Desk} {e : Entry} {rest : List Entry} (queue : d.queue = e :: rest)
      (running : d.session.life = .running) : Step d (d.turn e rest)
  /-- The service is done with one of its queries. -/
  | finish {d : Desk} {before after : List (Nat × Inquiry)} {n : Nat} {q : Inquiry}
      (running : d.running = before ++ (n, q) :: after) (v : Except QueryError q.request.Value) :
      Step d { d with
        running := before ++ after
        queue := d.queue ++ [.answer n q (q.request.result v)]
        returned := d.returned ++ [(n, q.request.result v)] }
  | setting {d : Desk} (b : Backend) (x : Setting) :
      Step d { d with session := { d.session with hub := d.session.hub.adjusted b x } }
  | clock {d : Desk} (now : Timestamp) :
      Step d { d with session := { d.session with hub := { d.session.hub with now := now } } }

inductive Reachable : Desk → Prop
  | opened (strict hasClient : Bool) (utxo account : Option Bool) :
      Reachable (opened strict hasClient utxo account)
  | step {d d' : Desk} : d.Reachable → d.Step d' → Reachable d'

/-- The session of a desk is one that can be reached. -/
theorem Reachable.session {d : Desk} (hd : d.Reachable) : d.session.Reachable := by
  induction hd with
  | opened strict hasClient utxo account => exact .opened strict hasClient utxo account
  | step _ hstep ih =>
    cases hstep with
    | arrive | finish => exact ih
    | turn _ running => exact ih.step (.command _ running)
    | setting b x => exact ih.step (.setting b x)
    | clock now => exact ih.step (.clock now)

end Desk
end WalletHub
