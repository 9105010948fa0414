import WalletHub.Event
import WalletHub.Json.Lexer
import WalletHub.Json.Printer
import WalletHub.Json.Records

/-!
# JSON forms of events

An event is written as its scope with its number, time and source, what it is about, and what
happened. A time is seconds and nanoseconds; a second's worth of nanoseconds or more is carried
over when it is read, and no field but these two may stand in it.
-/
namespace WalletHub

/-- The last second that a time can have. -/
def Timestamp.lastSecond : Nat := UInt64.size / 2 - 1

/-- A time from seconds and nanoseconds, the nanoseconds carried over. -/
def Timestamp.ofParts? (seconds : UInt64) (nanos : UInt32) : Option Timestamp :=
  let s := seconds.toNat + nanos.toNat / 1000000000
  if s ≤ lastSecond then
    some ⟨UInt64.ofNat s, UInt32.ofNat (nanos.toNat % 1000000000)⟩
  else none

instance : JsonForm Timestamp where
  toJson t := .obj [("secs_since_epoch", toJson t.seconds), ("nanos_since_epoch", toJson t.nanos)]
  ofJson? v := do
    let names := ["secs_since_epoch", "nanos_since_epoch"]
    let known := match v with
      | .obj members => members.all fun m => names.contains m.1
      | _ => true
    if known then
      let [s, n] ← v.fields? names | none
      Timestamp.ofParts? (← Json.required s) (← Json.required n)
    else none

instance : JsonForm HubNotice where
  toJson
    | .created => .str "Created"
    | .managerAdded m => .taggedFields "ManagerAdded" [("manager", toJson m)]
    | .managerDeleted m => .taggedFields "ManagerDeleted" [("manager", toJson m)]
    | .deleted => .str "Deleted"
  ofJson? v :=
    match v.variant? with
    | some ("Created", c) => Json.unit .created c
    | some ("ManagerAdded", some c) => do
      let [m] ← c.fields? ["manager"] | none
      return .managerAdded (← Json.required m)
    | some ("ManagerDeleted", some c) => do
      let [m] ← c.fields? ["manager"] | none
      return .managerDeleted (← Json.required m)
    | some ("Deleted", c) => Json.unit .deleted c
    | _ => none

/-- The form of a step from one state to another. -/
def changeForm {α : Type} [JsonForm α] (old new : α) : Json :=
  .taggedFields "Changed" [("old_state", toJson old), ("new_state", toJson new)]

/-- Reads the two states of a step. -/
def changeOfForm? {α : Type} [JsonForm α] (v : Json) : Option (α × α) := do
  let [o, n] ← v.fields? ["old_state", "new_state"] | none
  return (← Json.required o, ← Json.required n)

instance : JsonForm ManagerNotice where
  toJson
    | .created => .str "Created"
    | .changed o n => changeForm o n
    | .syncStarted => .str "SyncStarted"
    | .syncProgress p t =>
      .taggedFields "SyncProgress" [("percent_complete", toJson p), ("timestamp", toJson t)]
    | .syncEnded r => .taggedFields "SyncEnded" [("reason", toJson r)]
    | .blockUpdated h => .taggedFields "BlockUpdated" [("height", toJson h)]
    | .walletAdded w => .taggedFields "WalletAdded" [("wallet", toJson w)]
    | .walletChanged w => .taggedFields "WalletChanged" [("wallet", toJson w)]
    | .walletDeleted w => .taggedFields "WalletDeleted" [("wallet", toJson w)]
    | .deleted => .str "Deleted"
  ofJson? v :=
    match v.variant? with
    | some ("Created", c) => Json.unit .created c
    | some ("Changed", some c) => (changeOfForm? c).map fun (o, n) => .changed o n
    | some ("SyncStarted", c) => Json.unit .syncStarted c
    | some ("SyncProgress", some c) => do
      let [p, t] ← c.fields? ["percent_complete", "timestamp"] | none
      return .syncProgress (← Json.required p) (← Json.optional t)
    | some ("SyncEnded", some c) => do
      let [r] ← c.fields? ["reason"] | none
      return .syncEnded (← Json.required r)
    | some ("BlockUpdated", some c) => do
      let [h] ← c.fields? ["height"] | none
      return .blockUpdated (← Json.required h)
    | some ("WalletAdded", some c) => do
      let [w] ← c.fields? ["wallet"] | none
      return .walletAdded (← Json.required w)
    | some ("WalletChanged", some c) => do
      let [w] ← c.fields? ["wallet"] | none
      return .walletChanged (← Json.required w)
    | some ("WalletDeleted", some c) => do
      let [w] ← c.fields? ["wallet"] | none
      return .walletDeleted (← Json.required w)
    | some ("Deleted", c) => Json.unit .deleted c
    | _ => none

instance : JsonForm WalletNotice where
  toJson
    | .created => .str "Created"
    | .changed o n => changeForm o n
    | .balanceUpdated b => .taggedFields "BalanceUpdated" [("balance", toJson b)]
    | .feeBasisUpdated f => .taggedFields "FeeBasisUpdated" [("fee_basis", toJson f)]
    | .transferAdded t => .taggedFields "TransferAdded" [("transfer", toJson t)]
    | .transferChanged t => .taggedFields "TransferChanged" [("transfer", toJson t)]
    | .transferSubmitted t => .taggedFields "TransferSubmitted" [("transfer", toJson t)]
    | .transferDeleted t => .taggedFields "TransferDeleted" [("transfer", toJson t)]
    | .deleted => .str "Deleted"
  ofJson? v :=
    match v.variant? with
    | some ("Created", c) => Json.unit .created c
    | some ("Changed", some c) => (changeOfForm? c).map fun (o, n) => .changed o n
    | some ("BalanceUpdated", some c) => do
      let [b] ← c.fields? ["balance"] | none
      return .balanceUpdated (← Json.required b)
    | some ("FeeBasisUpdated", some c) => do
      let [f] ← c.fields? ["fee_basis"] | none
      return .feeBasisUpdated (← Json.required f)
    | some ("TransferAdded", some c) => do
      let [t] ← c.fields? ["transfer"] | none
      return .transferAdded (← Json.required t)
    | some ("TransferChanged", some c) => do
      let [t] ← c.fields? ["transfer"] | none
      return .transferChanged (← Json.required t)
    | some ("TransferSubmitted", some c) => do
      let [t] ← c.fields? ["transfer"] | none
      return .transferSubmitted (← Json.required t)
    | some ("TransferDeleted", some c) => do
      let [t] ← c.fields? ["transfer"] | none
      return .transferDeleted (← Json.required t)
    | some ("Deleted", c) => Json.unit .deleted c
    | _ => none

instance : JsonForm TransferNotice where
  toJson
    | .created => .str "Created"
    | .changed o n => changeForm o n
    | .confirmationsUpdated n =>
      .taggedFields "ConfirmationsUpdated" [("confirmations", toJson n)]
    | .deleted => .str "Deleted"
  ofJson? v :=
    match v.variant? with
    | some ("Created", c) => Json.unit .created c
    | some ("Changed", some c) => (changeOfForm? c).map fun (o, n) => .changed o n
    | some ("ConfirmationsUpdated", some c) => do
      let [n] ← c.fields? ["confirmations"] | none
      return .confirmationsUpdated (← Json.required n)
    | some ("Deleted", c) => Json.unit .deleted c
    | _ => none

namespace Event

/-- The form of number, time and source. -/
def headForm (e : Event) : Json :=
  .obj [("sequence", .nat e.sequence), ("timestamp", toJson e.timestamp),
    ("source", toJson e.source)]

/-- Reads number, time and source. -/
def headOfForm? (v : Json) : Option (Nat × Timestamp × String) := do
  let [n, t, s] ← v.fields? ["sequence", "timestamp", "source"] | none
  return (← n.bind (·.natBelow? UInt64.size), ← Json.required t, ← Json.required s)

/-- An event from its head and what happened. -/
def ofHead (head : Nat × Timestamp × String) (notice : Notice) : Event :=
  ⟨head.1, head.2.1, head.2.2, notice⟩

end Event

instance : JsonForm Event where
  toJson e :=
    let head := ("metadata", e.headForm)
    match e.notice with
    | .hub n => .taggedFields "System" [head, ("event", toJson n)]
    | .manager h n => .taggedFields "Manager" [head, ("manager", toJson h), ("event", toJson n)]
    | .wallet p n => .taggedFields "Wallet" [head, ("wallet", toJson p), ("event", toJson n)]
    | .transfer p n => .taggedFields "Transfer" [head, ("transfer", toJson p), ("event", toJson n)]
  ofJson? v :=
    match v.variant? with
    | some ("System", some c) => do
      let [head, n] ← c.fields? ["metadata", "event"] | none
      return .ofHead (← head.bind Event.headOfForm?) (.hub (← Json.required n))
    | some ("Manager", some c) => do
      let [head, h, n] ← c.fields? ["metadata", "manager", "event"] | none
      return .ofHead (← head.bind Event.headOfForm?)
        (.manager (← Json.required h) (← Json.required n))
    | some ("Wallet", some c) => do
      let [head, p, n] ← c.fields? ["metadata", "wallet", "event"] | none
      return .ofHead (← head.bind Event.headOfForm?)
        (.wallet (← Json.required p) (← Json.required n))
    | some ("Transfer", some c) => do
      let [head, p, n] ← c.fields? ["metadata", "transfer", "event"] | none
      return .ofHead (← head.bind Event.headOfForm?)
        (.transfer (← Json.required p) (← Json.required n))
    | _ => none

namespace Event

/-- The event on one line of JSON. -/
def compactJson (e : Event) : String := (toJson e).compact

/-- The event over several lines of JSON. -/
def prettyJson (e : Event) : String := (toJson e).pretty

/-- The event that a JSON text describes. -/
def ofJsonText? (s : String) : Option Event := (Json.parse? s).bind ofJson?

end Event
end WalletHub
