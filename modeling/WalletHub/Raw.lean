import WalletHub.Amount
import WalletHub.Fee
import WalletHub.Transfer

/-!
# Raw values

Values as engines hand them over: big integers as texts, addresses and hashes as octets. They are
read before anything is stored, and `RawFeeBasis.of` writes a fee basis back.
-/
namespace WalletHub

inductive RawBalance where
  /-- Totals of outputs received and of inputs spent. -/
  | utxo (received sent : UInt64)
  /-- A big integer in base units. -/
  | account (balance : String)
  deriving DecidableEq, Repr

inductive RawFeeBasis where
  | utxo (feePerKb : UInt64) (sizeInBytes : UInt32)
  | account (gasPrice : String) (gasLimit : UInt64)
  deriving DecidableEq, Repr

/-- The attributes of a transfer that an engine made or found. -/
structure RawTransfer where
  source : Option (List UInt8)
  target : Option (List UInt8)
  amount : String
  direction : Direction
  feeBasis : Option RawFeeBasis
  hash : Option (List UInt8)
  deriving DecidableEq, Repr

/-- An engine's report of a failed transfer. -/
structure RawTransferError where
  code : String
  message : Option String
  deriving DecidableEq, Repr

def RawBalance.backend : RawBalance → Backend
  | .utxo .. => .utxo
  | .account .. => .account

namespace RawFeeBasis

def backend : RawFeeBasis → Backend
  | utxo .. => .utxo
  | account .. => .account

/-- Reads a fee basis that has to be of the expected backend. -/
def decode (raw : RawFeeBasis) (expected : Backend) : Except DecodeError FeeBasis :=
  if raw.backend = expected then
    match raw with
    | utxo rate size => .ok (.utxo rate size)
    | account price limit => (Word256.parse price).map (.account · limit)
  else .error (.foreignPayload .feeBasis expected raw.backend)

/-- The raw form of a fee basis. -/
def of : FeeBasis → RawFeeBasis
  | .utxo rate size => utxo rate size
  | .account price limit => account price.text limit

end RawFeeBasis

/-- The failure that an engine's report describes. -/
def RawTransferError.failure (e : RawTransferError) : Failure :=
  ⟨FailureReason.ofCode e.code, e.message⟩

end WalletHub
