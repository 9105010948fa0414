import WalletHub.Engine.Callback
import WalletHub.Json.Records

/-!
# JSON forms of callbacks and queries

The forms of what engines report and ask for, and of what the query service answers.
-/
namespace WalletHub

instance : JsonForm RawBalance where
  toJson
    | .utxo received sent =>
      .taggedFields "Utxo" [("received", toJson received), ("sent", toJson sent)]
    | .account balance => .taggedFields "Account" [("balance", toJson balance)]
  ofJson? v :=
    match v.variant? with
    | some ("Utxo", some c) => do
      let [r, s] ← c.fields? ["received", "sent"] | none
      return .utxo (← Json.required r) (← Json.required s)
    | some ("Account", some c) => do
      let [b] ← c.fields? ["balance"] | none
      return .account (← Json.required b)
    | _ => none

instance : JsonForm RawFeeBasis where
  toJson
    | .utxo rate size =>
      .taggedFields "Utxo" [("fee_per_kb", toJson rate), ("size_in_bytes", toJson size)]
    | .account price limit =>
      .taggedFields "Account" [("gas_price", toJson price), ("gas_limit", toJson limit)]
  ofJson? v :=
    match v.variant? with
    | some ("Utxo", some c) => do
      let [rate, size] ← c.fields? ["fee_per_kb", "size_in_bytes"] | none
      return .utxo (← Json.required rate) (← Json.required size)
    | some ("Account", some c) => do
      let [price, limit] ← c.fields? ["gas_price", "gas_limit"] | none
      return .account (← Json.required price) (← Json.required limit)
    | _ => none

instance : JsonForm RawTransfer where
  toJson t := .obj [("source", toJson t.source), ("target", toJson t.target),
    ("amount", toJson t.amount), ("direction", toJson t.direction),
    ("fee_basis", toJson t.feeBasis), ("hash", toJson t.hash)]
  ofJson? v := do
    let [s, t, a, d, f, h] ←
      v.fields? ["source", "target", "amount", "direction", "fee_basis", "hash"] | none
    return ⟨← Json.optional s, ← Json.optional t, ← Json.required a, ← Json.required d,
      ← Json.optional f, ← Json.optional h⟩

instance : JsonForm RawTransferError where
  toJson e := .obj [("code", toJson e.code), ("message", toJson e.message)]
  ofJson? v := do
    let [c, m] ← v.fields? ["code", "message"] | none
    return ⟨← Json.required c, ← Json.optional m⟩

instance : JsonForm ManagerCallback where
  toJson
    | .created => .str "Created"
    | .connected => .str "Connected"
    | .disconnected r => .taggedFields "Disconnected" [("reason", toJson r)]
    | .syncStarted => .str "SyncStarted"
    | .syncProgress p t =>
      .taggedFields "SyncProgress" [("percent_complete", toJson p), ("timestamp", toJson t)]
    | .syncStopped r => .taggedFields "SyncStopped" [("reason", toJson r)]
    | .blockHeightUpdated h => .taggedFields "BlockHeightUpdated" [("height", toJson h)]
    | .deleted => .str "Deleted"
  ofJson? v :=
    match v.variant? with
    | some ("Created", c) => Json.unit .created c
    | some ("Connected", c) => Json.unit .connected c
    | some ("Disconnected", some c) => do
      let [r] ← c.fields? ["reason"] | none
      return .disconnected (← Json.required r)
    | some ("SyncStarted", c) => Json.unit .syncStarted c
    | some ("SyncProgress", some c) => do
      let [p, t] ← c.fields? ["percent_complete", "timestamp"] | none
      return .syncProgress (← Json.required p) (← Json.optional t)
    | some ("SyncStopped", some c) => do
      let [r] ← c.fields? ["reason"] | none
      return .syncStopped (← Json.required r)
    | some ("BlockHeightUpdated", some c) => do
      let [h] ← c.fields? ["height"] | none
      return .blockHeightUpdated (← Json.required h)
    | some ("Deleted", c) => Json.unit .deleted c
    | _ => none

instance : JsonForm WalletCallback where
  toJson
    | .created c => .taggedFields "Created" [("currency", toJson c)]
    | .balanceUpdated b => .taggedFields "BalanceUpdated" [("balance", toJson b)]
    | .defaultFeeBasisUpdated f => .taggedFields "DefaultFeeBasisUpdated" [("fee_basis", toJson f)]
    | .deleted => .str "Deleted"
  ofJson? v :=
    match v.variant? with
    | some ("Created", some c) => do
      let [x] ← c.fields? ["currency"] | none
      return .created (← Json.required x)
    | some ("BalanceUpdated", some c) => do
      let [b] ← c.fields? ["balance"] | none
      return .balanceUpdated (← Json.required b)
    | some ("DefaultFeeBasisUpdated", some c) => do
      let [f] ← c.fields? ["fee_basis"] | none
      return .defaultFeeBasisUpdated (← Json.required f)
    | some ("Deleted", c) => Json.unit .deleted c
    | _ => none

instance : JsonForm TransferCallback where
  toJson
    | .created a => .taggedFields "Created" [("attributes", toJson a)]
    | .signed h => .taggedFields "Signed" [("hash", toJson h)]
    | .submitted h => .taggedFields "Submitted" [("hash", toJson h)]
    | .included b i t f => .taggedFields "Included" [("block_number", toJson b),
      ("transaction_index", toJson i), ("timestamp", toJson t), ("fee", toJson f)]
    | .errored e => .taggedFields "Errored" [("error", toJson e)]
    | .deleted => .str "Deleted"
  ofJson? v :=
    match v.variant? with
    | some ("Created", some c) => do
      let [a] ← c.fields? ["attributes"] | none
      return .created (← Json.required a)
    | some ("Signed", some c) => do
      let [h] ← c.fields? ["hash"] | none
      return .signed (← Json.optional h)
    | some ("Submitted", some c) => do
      let [h] ← c.fields? ["hash"] | none
      return .submitted (← Json.optional h)
    | some ("Included", some c) => do
      let [b, i, t, f] ←
        c.fields? ["block_number", "transaction_index", "timestamp", "fee"] | none
      return .included (← Json.required b) (← Json.required i) (← Json.required t)
        (← Json.required f)
    | some ("Errored", some c) => do
      let [e] ← c.fields? ["error"] | none
      return .errored (← Json.required e)
    | some ("Deleted", c) => Json.unit .deleted c
    | _ => none

instance : JsonForm RequestId where
  toJson id := toJson id.raw
  ofJson? v := (ofJson? v).map RequestId.mk

instance : JsonForm QueryTransaction where
  toJson t := .obj [("hash", toJson t.hash), ("source", toJson t.source),
    ("target", toJson t.target), ("amount", toJson t.amount),
    ("block_number", toJson t.blockNumber), ("transaction_index", toJson t.transactionIndex),
    ("timestamp", toJson t.timestamp), ("gas_used", toJson t.gasUsed),
    ("gas_price", toJson t.gasPrice), ("error", toJson t.error)]
  ofJson? v := do
    let [h, s, t, a, b, i, time, used, price, e] ← v.fields? ["hash", "source", "target", "amount",
      "block_number", "transaction_index", "timestamp", "gas_used", "gas_price", "error"] | none
    return ⟨← Json.required h, ← Json.required s, ← Json.required t, ← Json.required a,
      ← Json.required b, ← Json.required i, ← Json.required time, ← Json.optional used,
      ← Json.optional price, ← Json.optional e⟩

instance : JsonForm QueryLog where
  toJson l := .obj [("transaction_hash", toJson l.transactionHash),
    ("contract", toJson l.contract), ("topics", toJson l.topics), ("data", toJson l.data),
    ("block_number", toJson l.blockNumber), ("transaction_index", toJson l.transactionIndex),
    ("log_index", toJson l.logIndex), ("timestamp", toJson l.timestamp)]
  ofJson? v := do
    let [h, c, ts, d, b, i, n, time] ← v.fields? ["transaction_hash", "contract", "topics", "data",
      "block_number", "transaction_index", "log_index", "timestamp"] | none
    return ⟨← Json.required h, ← Json.required c, ← Json.required ts, ← Json.required d,
      ← Json.required b, ← Json.required i, ← Json.required n, ← Json.required time⟩

instance : JsonForm QueryRequest where
  toJson
    | .balance a t => .taggedFields "GetBalance" [("address", toJson a), ("token", toJson t)]
    | .transactions a b e => .taggedFields "GetTransactions" [("address", toJson a),
      ("begin_block", toJson b), ("end_block", toJson e)]
    | .logs a c t b e => .taggedFields "GetLogs" [("address", toJson a), ("contract", toJson c),
      ("topic", toJson t), ("begin_block", toJson b), ("end_block", toJson e)]
    | .blocks a b e => .taggedFields "GetBlocks" [("address", toJson a),
      ("begin_block", toJson b), ("end_block", toJson e)]
    | .blockNumber => .str "GetBlockNumber"
    | .nonce a => .taggedFields "GetNonce" [("address", toJson a)]
    | .gasPrice => .str "GetGasPrice"
    | .gasEstimate s t a d => .taggedFields "EstimateGas" [("source", toJson s),
      ("target", toJson t), ("amount", toJson a), ("data", toJson d)]
    | .submit bytes => .taggedFields "SubmitTransaction" [("raw_transaction", toJson bytes)]
  ofJson? v :=
    match v.variant? with
    | some ("GetBalance", some c) => do
      let [a, t] ← c.fields? ["address", "token"] | none
      return .balance (← Json.required a) (← Json.optional t)
    | some ("GetTransactions", some c) => do
      let [a, b, e] ← c.fields? ["address", "begin_block", "end_block"] | none
      return .transactions (← Json.required a) (← Json.required b) (← Json.required e)
    | some ("GetLogs", some c) => do
      let [a, k, t, b, e] ←
        c.fields? ["address", "contract", "topic", "begin_block", "end_block"] | none
      return .logs (← Json.required a) (← Json.optional k) (← Json.required t)
        (← Json.required b) (← Json.required e)
    | some ("GetBlocks", some c) => do
      let [a, b, e] ← c.fields? ["address", "begin_block", "end_block"] | none
      return .blocks (← Json.required a) (← Json.required b) (← Json.required e)
    | some ("GetBlockNumber", c) => Json.unit .blockNumber c
    | some ("GetNonce", some c) => do
      let [a] ← c.fields? ["address"] | none
      return .nonce (← Json.required a)
    | some ("GetGasPrice", c) => Json.unit .gasPrice c
    | some ("EstimateGas", some c) => do
      let [s, t, a, d] ← c.fields? ["source", "target", "amount", "data"] | none
      return .gasEstimate (← Json.required s) (← Json.required t) (← Json.required a)
        (← Json.required d)
    | some ("SubmitTransaction", some c) => do
      let [bytes] ← c.fields? ["raw_transaction"] | none
      return .submit (← Json.required bytes)
    | _ => none

instance : JsonForm QueryResponse where
  toJson
    | .balance b => .tagged "Balance" (toJson b)
    | .transactions ts => .tagged "Transactions" (toJson ts)
    | .logs ls => .tagged "Logs" (toJson ls)
    | .blocks bs => .tagged "Blocks" (toJson bs)
    | .blockNumber n => .tagged "BlockNumber" (toJson n)
    | .nonce n => .tagged "Nonce" (toJson n)
    | .gasPrice p => .tagged "GasPrice" (toJson p)
    | .gasEstimate g => .tagged "GasEstimate" (toJson g)
    | .submitted h => .tagged "Submitted" (toJson h)
  ofJson? v :=
    match v.variant? with
    | some ("Balance", some c) => (ofJson? c).map .balance
    | some ("Transactions", some c) => (ofJson? c).map .transactions
    | some ("Logs", some c) => (ofJson? c).map .logs
    | some ("Blocks", some c) => (ofJson? c).map .blocks
    | some ("BlockNumber", some c) => (ofJson? c).map .blockNumber
    | some ("Nonce", some c) => (ofJson? c).map .nonce
    | some ("GasPrice", some c) => (ofJson? c).map .gasPrice
    | some ("GasEstimate", some c) => (ofJson? c).map .gasEstimate
    | some ("Submitted", some c) => (ofJson? c).map .submitted
    | _ => none

instance : JsonForm EngineCallback where
  toJson
    | .manager m e => .taggedFields "Manager" [("manager", toJson m), ("event", toJson e)]
    | .wallet m w e => .taggedFields "Wallet" [("manager", toJson m), ("wallet", toJson w),
      ("event", toJson e)]
    | .transfer m w t e => .taggedFields "Transfer" [("manager", toJson m), ("wallet", toJson w),
      ("transfer", toJson t), ("event", toJson e)]
    | .queryRequested m id r => .taggedFields "QueryRequested" [("manager", toJson m),
      ("request_id", toJson id), ("request", toJson r)]
  ofJson? v :=
    match v.variant? with
    | some ("Manager", some c) => do
      let [m, e] ← c.fields? ["manager", "event"] | none
      return .manager (← Json.required m) (← Json.required e)
    | some ("Wallet", some c) => do
      let [m, w, e] ← c.fields? ["manager", "wallet", "event"] | none
      return .wallet (← Json.required m) (← Json.required w) (← Json.required e)
    | some ("Transfer", some c) => do
      let [m, w, t, e] ← c.fields? ["manager", "wallet", "transfer", "event"] | none
      return .transfer (← Json.required m) (← Json.required w) (← Json.required t)
        (← Json.required e)
    | some ("QueryRequested", some c) => do
      let [m, id, r] ← c.fields? ["manager", "request_id", "request"] | none
      return .queryRequested (← Json.required m) (← Json.required id) (← Json.required r)
    | _ => none

end WalletHub
