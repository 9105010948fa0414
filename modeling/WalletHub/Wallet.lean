import WalletHub.Raw
import WalletHub.Registry

/-!
# Wallets

A wallet holds one currency under a manager. It is created and at some time deleted; its balance,
default fee basis and transfers change in between. Raw values are read here, so nothing else
meets a value in the shape of one backend.
-/
namespace WalletHub

inductive WalletState where
  | created | deleted
  deriving DecidableEq, Repr

namespace WalletState

def text : WalletState → String
  | created => "created"
  | deleted => "deleted"

/-- A deleted wallet stays deleted. -/
def verdict : WalletState → WalletState → Verdict
  | .created, .deleted => .allowed
  | .deleted, .created => .refused
  | _, _ => .same

end WalletState

structure Wallet where
  path : WalletPath
  currency : Currency
  /-- The currency fees are paid in; another one than the wallet's for a token. -/
  feeCurrency : Currency
  state : WalletState
  balance : Amount
  defaultFeeBasis : Option FeeBasis
  transfers : Registry TransferHandle Transfer
  deriving DecidableEq

namespace Wallet

/-- A new wallet, with nothing in it. -/
def create (path : WalletPath) (currency feeCurrency : Currency) : Wallet :=
  ⟨path, currency, feeCurrency, .created, .zero currency, none, .empty⟩

def handle (w : Wallet) : WalletHandle := w.path.wallet

def backend (w : Wallet) : Backend := w.path.wallet.backend

/-- The unit amounts are shown in. -/
def unit (w : Wallet) : Denomination := w.currency.defaultUnit

/-- The balance that a report of the engine amounts to. More sent than received is a report in
mid-update and counts as nothing. -/
def normalizeBalance (w : Wallet) (raw : RawBalance) : Except DecodeError Amount :=
  match w.backend, raw with
  | .utxo, .utxo received sent =>
    .ok (.ofBase (.ofUInt64 (if sent ≤ received then received - sent else 0)) w.currency)
  | .account, .account balance => Amount.parse balance w.currency
  | expected, raw => .error (.foreignPayload .balance expected raw.backend)

/-- The fee basis that a report of the engine amounts to. -/
def normalizeFeeBasis (w : Wallet) (raw : RawFeeBasis) : Except DecodeError FeeBasis :=
  raw.decode w.backend

/-- The transfer that an engine's attributes describe, in this wallet. The amount is read first,
then source, target, fee basis and hash. -/
def decodeTransfer (w : Wallet) (h : TransferHandle) (raw : RawTransfer) :
    Except DecodeError Transfer := do
  let amount ← Amount.parse raw.amount w.currency
  let source ← raw.source.mapM (Address.decode w.backend)
  let target ← raw.target.mapM (Address.decode w.backend)
  let feeBasis ← raw.feeBasis.mapM (·.decode w.backend)
  let hash ← raw.hash.mapM (TransferHash.decode w.backend)
  return .create (w.path.child h) amount raw.direction source target feeBasis w.feeCurrency hash

/-- The error of a step that the state machine does not have. -/
def refusal (w : Wallet) (new : WalletState) : TransitionError :=
  ⟨"wallet " ++ w.path.text, w.state.text, new.text⟩

/-- The wallet in a new state, or none if it is in that state already. -/
def transition (w : Wallet) (new : WalletState) : Except TransitionError (Option Wallet) :=
  match w.state.verdict new with
  | .same => .ok none
  | .allowed => .ok (some { w with state := new })
  | .refused => .error (w.refusal new)

end Wallet
end WalletHub
