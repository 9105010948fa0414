import WalletHub.Json.Form
import WalletHub.Json.Lexer
import WalletHub.Manager

/-!
# JSON forms of records

The forms of handles, amounts, networks and the states of records. A 256-bit word is a string of
hexadecimal digits behind `0x`; reading it takes up to sixty-four characters with or without the
marker, and passes over blanks among the digits.
-/
namespace WalletHub

instance : JsonForm Backend where
  toJson | .utxo => .str "Utxo" | .account => .str "Account"
  ofJson? v :=
    match v.variant? with
    | some ("Utxo", c) => Json.unit .utxo c
    | some ("Account", c) => Json.unit .account c
    | _ => none

instance {r : Role} : JsonForm (Handle r) where
  toJson h := .obj [("backend", toJson h.backend), ("raw", toJson h.raw)]
  ofJson? v := do
    let [b, raw] ← v.fields? ["backend", "raw"] | none
    return ⟨← Json.required b, ← Json.required raw⟩

instance : JsonForm WalletPath where
  toJson p := .obj [("manager", toJson p.manager), ("wallet", toJson p.wallet)]
  ofJson? v := do
    let [m, w] ← v.fields? ["manager", "wallet"] | none
    return ⟨← Json.required m, ← Json.required w⟩

instance : JsonForm TransferPath where
  toJson p := .obj [("manager", toJson p.manager), ("wallet", toJson p.wallet),
    ("transfer", toJson p.transfer)]
  ofJson? v := do
    let [m, w, t] ← v.fields? ["manager", "wallet", "transfer"] | none
    return ⟨← Json.required m, ← Json.required w, ← Json.required t⟩

/-- The characters behind a leading `0x`. -/
def Word256.unmarked : List Char → List Char
  | '0' :: 'x' :: rest => rest
  | cs => cs

/-- Reads hexadecimal digits with blanks among them. Digits are read in pairs, and whether the
first one stands alone is settled by the length of the text, blanks included; so an odd number of
blanks leaves the last digit without a partner, and it is lost. -/
def Word256.ofSpaced? (cs : List Char) : Option Word256 :=
  let digits := cs.filter fun c => !Json.Lexing.isBlank c
  let blanks := cs.length - digits.length
  (Text.ofHex? digits).bind fun n => ofNat? (if blanks % 2 = 1 then n / 16 else n)

instance : JsonForm Word256 where
  toJson w := .str w.hex
  ofJson?
    | .str s =>
      let cs := Word256.unmarked s.toList
      if cs ≠ [] ∧ cs.length ≤ 64 then Word256.ofSpaced? cs else none
    | _ => none

instance : JsonForm Amount where
  toJson a := .obj [("value", toJson a.value), ("currency", toJson a.currency),
    ("decimals", toJson a.decimals)]
  ofJson? v := do
    let [n, c, d] ← v.fields? ["value", "currency", "decimals"] | none
    return ⟨← Json.required n, ← Json.required c, ← Json.required d⟩

instance : JsonForm FeeBasis where
  toJson
    | .utxo rate size =>
      .taggedFields "Utxo" [("fee_per_kb", toJson rate), ("size_in_bytes", toJson size)]
    | .account price limit =>
      .taggedFields "Account" [("gas_price", toJson price), ("gas_limit", toJson limit)]
  ofJson? v :=
    match v.variant? with
    | some ("Utxo", some c) => do
      let [rate, size] ← c.fields? ["fee_per_kb", "size_in_bytes"] | none
      return .utxo (← Json.required rate) (← Json.required size)
    | some ("Account", some c) => do
      let [price, limit] ← c.fields? ["gas_price", "gas_limit"] | none
      return .account (← Json.required price) (← Json.required limit)
    | _ => none

instance : JsonForm Address where
  toJson
    | .utxo t => .tagged "Utxo" (toJson t)
    | .account bytes => .tagged "Account" (toJson bytes)
  ofJson? v :=
    match v.variant? with
    | some ("Utxo", some c) => (ofJson? c).map .utxo
    | some ("Account", some c) => (ofJson? c).map .account
    | _ => none

instance : JsonForm TransferHash where
  toJson h := .obj [("backend", toJson h.backend), ("bytes", toJson h.bytes)]
  ofJson? v := do
    let [b, bytes] ← v.fields? ["backend", "bytes"] | none
    return ⟨← Json.required b, ← Json.required bytes⟩

instance : JsonForm Denomination where
  toJson d := .obj [("code", toJson d.code), ("name", toJson d.name),
    ("decimals", toJson d.decimals)]
  ofJson? v := do
    let [c, n, d] ← v.fields? ["code", "name", "decimals"] | none
    return ⟨← Json.required c, ← Json.required n, ← Json.required d⟩

instance : JsonForm Currency where
  toJson c := .obj [("code", toJson c.code), ("name", toJson c.name), ("issuer", toJson c.issuer),
    ("base_unit", toJson c.baseUnit), ("default_unit", toJson c.defaultUnit)]
  ofJson? v := do
    let [c, n, i, b, d] ← v.fields? ["code", "name", "issuer", "base_unit", "default_unit"] | none
    return ⟨← Json.required c, ← Json.required n, ← Json.optional i, ← Json.required b,
      ← Json.required d⟩

instance : JsonForm Network where
  toJson n := .obj [("name", toJson n.name), ("backend", toJson n.backend),
    ("is_mainnet", toJson n.isMainnet), ("native_currency", toJson n.nativeCurrency),
    ("currencies", toJson n.currencies),
    ("confirmations_until_final", toJson n.confirmationsUntilFinal)]
  ofJson? v := do
    let [n, b, m, c, cs, f] ← v.fields? ["name", "backend", "is_mainnet", "native_currency",
      "currencies", "confirmations_until_final"] | none
    return ⟨← Json.required n, ← Json.required b, ← Json.required m, ← Json.required c,
      ← Json.required cs, ← Json.required f⟩

instance : JsonForm Account where
  toJson a := .obj [("id", toJson a.id), ("created_at", toJson a.createdAt)]
  ofJson? v := do
    let [i, c] ← v.fields? ["id", "created_at"] | none
    return ⟨← Json.required i, ← Json.required c⟩

instance : JsonForm ManagerMode where
  toJson
    | .apiOnly => .str "ApiOnly"
    | .apiWithP2pSubmit => .str "ApiWithP2pSubmit"
    | .p2pWithApiSync => .str "P2pWithApiSync"
    | .p2pOnly => .str "P2pOnly"
  ofJson? v :=
    match v.variant? with
    | some ("ApiOnly", c) => Json.unit .apiOnly c
    | some ("ApiWithP2pSubmit", c) => Json.unit .apiWithP2pSubmit c
    | some ("P2pWithApiSync", c) => Json.unit .p2pWithApiSync c
    | some ("P2pOnly", c) => Json.unit .p2pOnly c
    | _ => none

/-- The form of a socket error. -/
def posixForm (errnum : Int32) (message : Option String) : Json :=
  .taggedFields "Posix" [("errnum", toJson errnum), ("message", toJson message)]

/-- Reads what a socket error holds. -/
def posixOfForm? (v : Json) : Option (Int32 × Option String) := do
  let [n, m] ← v.fields? ["errnum", "message"] | none
  return (← Json.required n, ← Json.optional m)

instance : JsonForm DisconnectReason where
  toJson
    | .requested => .str "Requested"
    | .unknown => .str "Unknown"
    | .posix n m => posixForm n m
  ofJson? v :=
    match v.variant? with
    | some ("Requested", c) => Json.unit .requested c
    | some ("Unknown", c) => Json.unit .unknown c
    | some ("Posix", some c) => (posixOfForm? c).map fun (n, m) => .posix n m
    | _ => none

instance : JsonForm SyncStopReason where
  toJson
    | .complete => .str "Complete"
    | .requested => .str "Requested"
    | .unknown => .str "Unknown"
    | .posix n m => posixForm n m
  ofJson? v :=
    match v.variant? with
    | some ("Complete", c) => Json.unit .complete c
    | some ("Requested", c) => Json.unit .requested c
    | some ("Unknown", c) => Json.unit .unknown c
    | some ("Posix", some c) => (posixOfForm? c).map fun (n, m) => .posix n m
    | _ => none

instance : JsonForm ManagerState where
  toJson
    | .created => .str "Created"
    | .connected => .str "Connected"
    | .disconnected r => .taggedFields "Disconnected" [("reason", toJson r)]
    | .syncing => .str "Syncing"
    | .deleted => .str "Deleted"
  ofJson? v :=
    match v.variant? with
    | some ("Created", c) => Json.unit .created c
    | some ("Connected", c) => Json.unit .connected c
    | some ("Disconnected", some c) => do
      let [r] ← c.fields? ["reason"] | none
      return .disconnected (← Json.required r)
    | some ("Syncing", c) => Json.unit .syncing c
    | some ("Deleted", c) => Json.unit .deleted c
    | _ => none

instance : JsonForm WalletState where
  toJson | .created => .str "Created" | .deleted => .str "Deleted"
  ofJson? v :=
    match v.variant? with
    | some ("Created", c) => Json.unit .created c
    | some ("Deleted", c) => Json.unit .deleted c
    | _ => none

instance : JsonForm FailureReason where
  toJson
    | .invalidSignature => .str "InvalidSignature"
    | .nonceTooLow => .str "NonceTooLow"
    | .balanceTooLow => .str "BalanceTooLow"
    | .gasPriceTooLow => .str "GasPriceTooLow"
    | .gasTooLow => .str "GasTooLow"
    | .replacementUnderpriced => .str "ReplacementUnderpriced"
    | .dropped => .str "Dropped"
    | .unknown => .str "Unknown"
  ofJson? v :=
    match v.variant? with
    | some ("InvalidSignature", c) => Json.unit .invalidSignature c
    | some ("NonceTooLow", c) => Json.unit .nonceTooLow c
    | some ("BalanceTooLow", c) => Json.unit .balanceTooLow c
    | some ("GasPriceTooLow", c) => Json.unit .gasPriceTooLow c
    | some ("GasTooLow", c) => Json.unit .gasTooLow c
    | some ("ReplacementUnderpriced", c) => Json.unit .replacementUnderpriced c
    | some ("Dropped", c) => Json.unit .dropped c
    | some ("Unknown", c) => Json.unit .unknown c
    | _ => none

instance : JsonForm Failure where
  toJson f := .obj [("reason", toJson f.reason), ("message", toJson f.message)]
  ofJson? v := do
    let [r, m] ← v.fields? ["reason", "message"] | none
    return ⟨← Json.required r, ← Json.optional m⟩

instance : JsonForm Confirmation where
  toJson c := .obj [("block_number", toJson c.blockNumber),
    ("transaction_index", toJson c.transactionIndex), ("timestamp", toJson c.timestamp),
    ("fee", toJson c.fee)]
  ofJson? v := do
    let [b, i, t, f] ← v.fields? ["block_number", "transaction_index", "timestamp", "fee"] | none
    return ⟨← Json.required b, ← Json.required i, ← Json.required t, ← Json.required f⟩

instance : JsonForm TransferState where
  toJson
    | .created => .str "Created"
    | .signed => .str "Signed"
    | .submitted => .str "Submitted"
    | .included c => .taggedFields "Included" [("confirmation", toJson c)]
    | .failed f => .taggedFields "Failed" [("failure", toJson f)]
    | .deleted => .str "Deleted"
  ofJson? v :=
    match v.variant? with
    | some ("Created", c) => Json.unit .created c
    | some ("Signed", c) => Json.unit .signed c
    | some ("Submitted", c) => Json.unit .submitted c
    | some ("Included", some c) => do
      let [x] ← c.fields? ["confirmation"] | none
      return .included (← Json.required x)
    | some ("Failed", some c) => do
      let [x] ← c.fields? ["failure"] | none
      return .failed (← Json.required x)
    | some ("Deleted", c) => Json.unit .deleted c
    | _ => none

instance : JsonForm Direction where
  toJson
    | .sent => .str "Sent"
    | .received => .str "Received"
    | .recovered => .str "Recovered"
  ofJson? v :=
    match v.variant? with
    | some ("Sent", c) => Json.unit .sent c
    | some ("Received", c) => Json.unit .received c
    | some ("Recovered", c) => Json.unit .recovered c
    | _ => none

/-- The form of a transfer. -/
def Transfer.form (t : Transfer) : Json :=
  .obj [("path", toJson t.path), ("source", toJson t.source), ("target", toJson t.target),
    ("amount", toJson t.amount), ("direction", toJson t.direction),
    ("fee_basis", toJson t.feeBasis), ("estimated_fee", toJson t.estimatedFee),
    ("hash", toJson t.hash), ("state", toJson t.state)]

end WalletHub
