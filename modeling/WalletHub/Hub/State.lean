import WalletHub.Hub.Request
import WalletHub.Table
import WalletHub.Reaction

/-!
# The state of the hub

The records, the engines and the counters. One command changes it at a time; `Handling` is what
became of a command, before its notices are numbered.
-/
namespace WalletHub

/-- Counts since the hub was opened. They have no bound, nor do the numbers of events: what goes up
by one at a time does not leave 64 bits. -/
structure Counters where
  commands : Nat
  callbacks : Nat
  requests : Nat
  /-- Events so far; the number of the last one. -/
  events : Nat
  dropped : Nat
  droppedByKind : Table String Nat
  unread : Nat
  rejectedTransitions : Nat
  violations : Nat
  queriesIssued : Nat
  queriesFailed : Nat
  deriving DecidableEq

namespace Counters

/-- Nothing counted yet. -/
def zero : Counters := ⟨0, 0, 0, 0, 0, .empty, 0, 0, 0, 0, 0⟩

/-- The kinds a callback can be dropped under. -/
def dropKinds : List String :=
  ["unknown_manager", "unknown_wallet", "unknown_transfer", "unknown_currency", "deleted_manager",
    "missing_engine"]

/-- Counts a callback that was dropped. -/
def drop (c : Counters) (kind : String) : Counters :=
  { c with dropped := c.dropped + 1, droppedByKind := c.droppedByKind.bump kind }

/-- Counts a callback that nothing came of. -/
def discard (c : Counters) : HubError → Counters
  | .resolution e => c.drop e.bucket
  | .decode _ => { c with unread := c.unread + 1 }
  | .transition _ => { c with rejectedTransitions := c.rejectedTransitions + 1 }
  | _ => c

end Counters

structure Hub where
  /-- Whether a violated precondition halts the hub. -/
  strict : Bool
  /-- Whether there is a service to send queries to. -/
  hasClient : Bool
  utxo : Option Engine
  account : Option Engine
  tree : Tree
  counters : Counters
  /-- The time that events are stamped with. -/
  now : Timestamp

namespace Hub

/-- The engine of a backend. -/
def engine? (h : Hub) : Backend → Option Engine
  | .utxo => h.utxo
  | .account => h.account

/-- The hub with another engine in the place of a backend. -/
def withEngine (h : Hub) (backend : Backend) (e : Engine) : Hub :=
  match backend with
  | .utxo => { h with utxo := some e }
  | .account => { h with account := some e }

/-- What the engine of a backend knows of its wallets. -/
def reads (h : Hub) (backend : Backend) : EngineReads :=
  match h.engine? backend with
  | some e => e.reads
  | none => .nothing

/-- The hub with other counters. -/
def count (h : Hub) (f : Counters → Counters) : Hub := { h with counters := f h.counters }

/-- The hub with another record of a manager. -/
def withManager (h : Hub) (m : Manager) : Hub :=
  { h with tree := { h.tree with managers := h.tree.managers.modify m.handle fun _ => m } }

end Hub

/-- What became of a command. -/
structure Handling where
  hub : Hub
  /-- What was done, in order. -/
  notices : List Notice
  /-- Callbacks that engines raised meanwhile. -/
  raised : List (Backend × EngineCallback)
  /-- Queries to send. -/
  queries : List Inquiry
  result : Except Fault Answer

namespace Handling

/-- Nothing was done. -/
def answer (h : Hub) (a : Answer) : Handling := ⟨h, [], [], [], .ok a⟩

/-- Nothing was done, because of an error. -/
def refuse (h : Hub) (e : HubError) : Handling := ⟨h, [], [], [], .error (.error e)⟩

/-- Nothing was done, because a precondition does not hold. -/
def violate (h : Hub) (e : PreconditionError) : Handling := ⟨h, [], [], [], .error (.violation e)⟩

/-- Takes over the reaction of a manager. -/
def commit (h : Hub) (r : Reaction Manager) (a : Answer) : Handling :=
  ⟨(h.withManager r.value).count fun c => { c with unread := c.unread + r.unread }, r.notices, [],
    [], match r.fault with
      | none => .ok a
      | some f => .error f⟩

/-- Sends a command to the engine of a backend and goes on with its answer. -/
def issue {α : Type} (h : Hub) (backend : Backend) (reply : EngineReply α)
    (go : Hub → α → Handling) : Handling :=
  let h := h.withEngine backend reply.engine
  match reply.result with
  | .error e => refuse h (.engine e)
  | .ok a =>
    let r := go h a
    { r with raised := reply.raised.map (backend, ·) ++ r.raised }

/-- Goes on with the engine of a backend. -/
def requireEngine (h : Hub) (backend : Backend) (go : Engine → Handling) : Handling :=
  match h.engine? backend with
  | some e => go e
  | none => violate h (.missingEngine backend)

/-- Goes on with a manager that requests may be made of. -/
def requireLive (h : Hub) (m : ManagerHandle) (operation : String) (go : Manager → Handling) :
    Handling :=
  match h.tree.manager? m with
  | none => refuse h (.resolution (.unknownManager m))
  | some r =>
    if r.state = .deleted then violate h (.recordDeleted ("manager " ++ m.text) operation) else go r

end Handling
end WalletHub
