import WalletHub.Hub.State
import WalletHub.Json.Events
import WalletHub.Listener.Audience

/-!
# Views

Records as reports show them: amounts in the unit they are shown in, handles and states in words,
confirmations at a height. A view is written only and never read.
-/
namespace WalletHub

def Amount.view (a : Amount) : Json :=
  .obj [("base", .str a.baseText), ("decimal", .str a.decimalText), ("display", .str a.text),
    ("zero", .bool a.isZero), ("code", .str a.currency), ("decimals", toJson a.decimals),
    ("json", toJson a), ("value", .str a.value.text)]

/-- A count of confirmations, if there is one. -/
def BlockCount.view : BlockCount → Json
  | .count n => toJson n
  | _ => .null

/-- A transfer at a height of its chain. -/
def Transfer.view (height : UInt64) (t : Transfer) : Json :=
  .obj [("path", .str t.path.text), ("source", Json.orNull (.str ·.text) t.source),
    ("target", Json.orNull (.str ·.text) t.target), ("amount", .str t.amount.text),
    ("base", .str t.amount.baseText), ("direction", toJson t.direction),
    ("fee_basis", toJson t.feeBasis), ("fee", Json.orNull (.str ·.text) t.fee?),
    ("hash", Json.orNull (.str ·.text) t.hash), ("state", .str t.state.text),
    ("state_json", toJson t.state),
    ("confirmation_block", Json.orNull (toJson ·.blockNumber) t.confirmation?),
    ("failure", Json.orNull (fun f => .arr [.str f.reason.text, toJson f.message]) t.failure?),
    ("confirmations", (t.confirmationsAt height).view)]

/-- A wallet at a height of its chain, known or not. -/
def Wallet.viewAt (height : UInt64) (path : WalletPath) (w : Option Wallet) : Json :=
  let transfers := (w.map (·.transfers.records)).getD []
  .obj [("path", .str path.text),
    ("details", Json.orNull (fun w => .obj [("currency", .str w.currency.code),
      ("fee_currency", .str w.feeCurrency.code), ("unit", .str w.unit.code),
      ("state", .str w.state.text)]) w),
    ("balance", Json.orNull (.str ·.balance.text) w),
    ("fee_basis", toJson (w.bind (·.defaultFeeBasis))),
    ("transfers", .arr (transfers.map (Transfer.view height)))]

namespace Tree

/-- The height of a manager's chain; zero for one that is not known. -/
def height (t : Tree) (h : ManagerHandle) : UInt64 := ((t.manager? h).map (·.height)).getD 0

/-- The manager under a handle, known or not. -/
def managerView (t : Tree) (h : ManagerHandle) : Json :=
  let m := t.manager? h
  let wallets := (m.map (·.wallets.records)).getD []
  .obj [("handle", .str h.text),
    ("details", Json.orNull (fun m => .obj [("account", toJson m.account),
      ("network", .str m.network.name), ("path", .str m.storagePath),
      ("index", Json.orNull (.str ·.text) (t.managerFor? m.account.id m.network.name))]) m),
    ("state", Json.orNull (.str ·.state.text) m),
    ("height", Json.orNull (toJson ·.height) m),
    ("mode", Json.orNull (.str ·.mode.text) m),
    ("primary", Json.orNull (.str ·.path.text) (m.bind (·.primary?))),
    ("wallets", .arr (wallets.map fun w => Wallet.viewAt (t.height h) w.path (some w)))]

/-- The wallet under a path, known or not. -/
def walletView (t : Tree) (p : WalletPath) : Json :=
  Wallet.viewAt (t.height p.manager) p (t.wallet? p)

/-- The transfer under a path, known or not. -/
def transferView (t : Tree) (p : TransferPath) : Json :=
  .obj [("transfer", Json.orNull (Transfer.view (t.height p.manager)) (t.transfer? p)),
    ("state", Json.orNull (.str ·.state.text) (t.transfer? p)),
    ("confirmations", (t.confirmations p).view)]

/-- All managers, oldest first. -/
def view (t : Tree) : Json := .arr (t.managers.handles.map t.managerView)

end Tree

/-- The form of a table of counts. -/
def Table.countsForm (t : Table String Nat) : Json := .obj (t.pairs.map fun p => (p.1, .nat p.2))

/-- The form of the counters. -/
def Counters.form (c : Counters) : Json :=
  .obj [("commands_processed", .nat c.commands), ("engine_callbacks", .nat c.callbacks),
    ("app_commands", .nat c.requests), ("events_emitted", .nat c.events),
    ("callbacks_dropped", .nat c.dropped), ("dropped_by_kind", c.droppedByKind.countsForm),
    ("decode_failures", .nat c.unread), ("transitions_rejected", .nat c.rejectedTransitions),
    ("precondition_violations", .nat c.violations), ("queries_issued", .nat c.queriesIssued),
    ("queries_failed", .nat c.queriesFailed)]

/-- The counters, and what was dropped under each kind. -/
def Counters.view (c : Counters) : Json :=
  .obj [("stats", c.form),
    ("dropped", .obj (dropKinds.map fun k => (k, .nat (c.droppedByKind.count k))))]

def AudienceStats.view (s : AudienceStats) : Json :=
  .obj [("events", .nat s.events), ("calls", .nat s.calls), ("errors", .nat s.errors),
    ("registered", .nat s.registered), ("removed", .nat s.removed),
    ("by_type", s.byType.countsForm), ("errors_by_listener", s.errorsByListener.countsForm)]

/-- An event in JSON without its time, with its summary. -/
def Event.view (e : Event) : Json :=
  let timeless : Json :=
    match toJson e with
    | .obj [(scope, .obj (("metadata", .obj head) :: rest))] =>
      .taggedFields scope (("metadata", .obj (head.filter (·.1 != "timestamp"))) :: rest)
    | v => v
  .obj [("summary", .str e.summary), ("json", timeless)]

end WalletHub
