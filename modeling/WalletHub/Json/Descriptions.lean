import WalletHub.Hub.State
import WalletHub.Json.Callbacks
import WalletHub.Listener
import WalletHub.Query.Client

/-!
# Descriptions

How listeners, query clients and the settings of simulated engines are described in JSON. What a
description leaves out has a default.
-/
namespace WalletHub

/-- Reads one reaction: the type of an event, a backend, and a callback. -/
def reactionOfForm? : Json → Option (String × Backend × EngineCallback)
  | .arr [t, b, c] => do return (← ofJson? t, ← ofJson? b, ← ofJson? c)
  | _ => none

/-- A number of milliseconds, zero if there is none. -/
def millis? (v : Json) (name : String) : Option Nat :=
  match v.field? name with
  | none | some .null => some 0
  | some n => n.nat?

/-- The reactions of a scripted listener. -/
def reactions? (v : Json) : Option (List (String × Backend × EngineCallback)) :=
  match v.field? "react" with
  | none | some .null => some []
  | some (.arr rs) => rs.mapM reactionOfForm?
  | _ => none

/-- The script of a scripted listener. -/
def Script.ofForm? (v : Json) : Option Script := do
  return ⟨← millis? v "delay_ms", ← v.getOr? "scopes" [], ← v.getOr? "fail_on" [],
    ← v.getOptional? "fail_init", ← v.getOptional? "fail_cleanup", ← reactions? v⟩

/-- The listener that a description describes. -/
def Listener.ofForm? (v : Json) : Option Listener := do
  let name : String ← v.getOr? "name" ""
  match v.field? "kind" with
  | some (.str "scripted") => return ⟨name, .scripted (← Script.ofForm? v)⟩
  | some (.str "recording") => return ⟨name, .recording (← v.getOr? "fail_on" [])⟩
  | some (.str "tracing") => return .ofLogger .standard
  | some (.str "bare") => return ⟨name, .silent⟩
  | some (.str "routing") => return ⟨name, .routing⟩
  | _ => none

/-- The failure of a query: its kind and its reason. -/
def QueryError.ofForm? : Json → Option QueryError
  | .arr [.str "NetworkUnavailable", .str reason] => some (.unavailable reason)
  | .arr [.str "MalformedResponse", .str reason] => some (.malformedResponse reason)
  | .arr [.str "Rejected", .str reason] => some (.rejected reason)
  | _ => none

namespace QueryClient

/-- Fills the tables of a client from pairs of an address and what is known of it. -/
def fill? {α : Type} [JsonForm α] (v : Json) (name : String)
    (put : QueryClient → String → α → QueryClient) (c : QueryClient) : Option QueryClient := do
  let known : List (String × α) ← v.getOr? name []
  return known.foldl (fun c (address, a) => put c address a) c

/-- The client that a description describes. -/
def ofForm? (v : Json) : Option QueryClient := do
  let failure ← match v.field? "failing" with
    | none | some .null => some none
    | some f => (QueryError.ofForm? f).map some
  let c := { empty with
    logs := ← v.getOr? "logs" []
    blockNumber := ← v.getOr? "block_number" empty.blockNumber
    gasPrice := ← v.getOr? "gas_price" empty.gasPrice
    gasEstimate := ← v.getOr? "gas_estimate" empty.gasEstimate
    delay := ← millis? v "delay_ms"
    failure := failure }
  let c ← fill? v "balances" withBalance c
  let c ← fill? v "transactions" withTransactions c
  let c ← fill? v "blocks" withBlocks c
  fill? v "nonces" withNonce c

/-- Changes what a description mentions: the failure, or the number of the last block. -/
def configure? (c : QueryClient) (v : Json) : Option QueryClient := do
  let failure ← match v.field? "failure" with
    | none => some c.failure
    | some .null => some none
    | some f => (QueryError.ofForm? f).map some
  return { c with failure := failure, blockNumber := ← v.getOr? "block_number" c.blockNumber }

end QueryClient

/-- Changes what a description mentions: the balance of a wallet, or the failure of the next
command. -/
def Engine.configure? (e : Engine) (v : Json) : Option Engine := do
  let balance : Option (UInt64 × RawBalance) ← v.getOptional? "balance"
  let failNext : Option String ← v.getOptional? "fail_next"
  return { e with
    balances := (balance.map fun (w, raw) => e.balances.put w raw).getD e.balances
    failNext := failNext.or e.failNext }

namespace Hub

/-- Changes the fees that a description mentions. A rate is for the engine of outputs and gas for
the engine of accounts, so that no backend has to be named. -/
def configureFees? (h : Hub) (v : Json) : Option Hub := do
  let rate : Option UInt64 ← v.getOptional? "fee_per_kb"
  let gas : Option (String × UInt64) ← v.getOptional? "gas"
  return { h with
    utxo := h.utxo.map fun e => { e with feePerKb := rate.or e.feePerKb }
    account := h.account.map fun e =>
      { e with defaultGas := (gas.map fun (price, limit) => .account price limit).or e.defaultGas } }

/-- Changes the fees that a description mentions, and what else it says of the engine that it
names. What it says of an engine that is not there changes nothing. -/
def configure? (h : Hub) (backend : Backend) (v : Json) : Option Hub := do
  let h ← h.configureFees? v
  match h.engine? backend with
  | none => some h
  | some e => return h.withEngine backend (← e.configure? v)

end Hub

end WalletHub
