import WalletHub.Address
import WalletHub.Amount
import WalletHub.Fee
import WalletHub.Hash

/-!
# Transfers

A transfer moves forward only: created, signed, submitted, then included in a block or failed, and
deleted from anywhere. Steps may be left out, and an included transfer may move to another block
when the chain is reorganized. `TransferState.verdict` is the whole rule.
-/
namespace WalletHub

/-- Why a transfer failed. -/
inductive FailureReason where
  | invalidSignature
  | nonceTooLow
  | balanceTooLow
  | gasPriceTooLow
  | gasTooLow
  | replacementUnderpriced
  | dropped
  | unknown
  deriving DecidableEq, Repr

namespace FailureReason

/-- Whether `needle` occurs in a text. -/
def occursIn (needle : List Char) : List Char → Bool
  | [] => needle.isEmpty
  | c :: cs => needle.isPrefixOf (c :: cs) || occursIn needle cs

/-- An engine's code in small letters, with blanks for underscores and hyphens. -/
def normalized (code : String) : List Char :=
  code.toList.map fun c => if c = '_' ∨ c = '-' then ' ' else c.toLower

/-- The reason that an engine's code or message names. -/
def ofCode (code : String) : FailureReason :=
  let cs := normalized code
  let has (needle : String) : Bool := occursIn needle.toList cs
  if has "invalid signature" || has "invalid sender" then invalidSignature
  else if has "nonce too low" then nonceTooLow
  else if has "insufficient funds" || has "balance too low" then balanceTooLow
  else if has "replacement" && has "underpriced" then replacementUnderpriced
  else if has "underpriced" || has "gas price too low" then gasPriceTooLow
  else if has "gas too low" then gasTooLow
  else if has "dropped" then dropped
  else unknown

def text : FailureReason → String
  | invalidSignature => "invalid_signature"
  | nonceTooLow => "nonce_too_low"
  | balanceTooLow => "balance_too_low"
  | gasPriceTooLow => "gas_price_too_low"
  | gasTooLow => "gas_too_low"
  | replacementUnderpriced => "replacement_underpriced"
  | dropped => "dropped"
  | unknown => "unknown"

end FailureReason

/-- A reason, with the engine's own words if it gave any. -/
structure Failure where
  reason : FailureReason
  message : Option String
  deriving DecidableEq, Repr

/-- The place of a transfer in the chain, and the fee that was paid. -/
structure Confirmation where
  blockNumber : UInt64
  transactionIndex : UInt64
  /-- Seconds since 1970. -/
  timestamp : UInt64
  fee : Amount
  deriving DecidableEq

/-- A count of confirmations: none yet, a number, or one that 64 bits cannot hold. -/
inductive BlockCount where
  | pending
  | count (n : UInt64)
  | overflow
  deriving DecidableEq, Repr

/-- The number of blocks from the block of inclusion up to the given height, both included; none
while the chain is below that block. -/
def Confirmation.countAt (c : Confirmation) (height : UInt64) : BlockCount :=
  if c.blockNumber ≤ height then
    let n := height.toNat - c.blockNumber.toNat + 1
    if n < UInt64.size then .count (UInt64.ofNat n) else .overflow
  else .pending

inductive TransferState where
  | created
  | signed
  | submitted
  | included (confirmation : Confirmation)
  | failed (failure : Failure)
  | deleted
  deriving DecidableEq

/-- What a state machine says to a new state: it is the old one again, it follows, or it does not. -/
inductive Verdict where
  | same | allowed | refused
  deriving DecidableEq, Repr

namespace TransferState

def name : TransferState → String
  | created => "created"
  | signed => "signed"
  | submitted => "submitted"
  | included _ => "included"
  | failed _ => "failed"
  | deleted => "deleted"

/-- Position on the way from created to deleted. -/
def rank : TransferState → Nat
  | created => 0
  | signed => 1
  | submitted => 2
  | included _ | failed _ => 3
  | deleted => 4

def isTerminal : TransferState → Bool
  | failed _ | deleted => true
  | _ => false

def text : TransferState → String
  | included c => "included(block " ++ Text.natText c.blockNumber.toNat ++ ")"
  | failed f => "failed(" ++ f.reason.text ++ ")"
  | s => s.name

/-- Whether the state `new` may follow `old`. -/
def verdict (old new : TransferState) : Verdict :=
  if old = new then .same
  else
    match old, new with
    | .deleted, _ => .refused
    | _, .deleted => .allowed
    | .failed _, _ => .refused
    | .included _, .included _ => .allowed
    | .included _, _ => .refused
    | old, new => if old.rank < new.rank then .allowed else .refused

end TransferState

inductive Direction where
  | sent
  | received
  /-- From the wallet to itself. -/
  | recovered
  deriving DecidableEq, Repr

structure Transfer where
  path : TransferPath
  source : Option Address
  target : Option Address
  amount : Amount
  direction : Direction
  feeBasis : Option FeeBasis
  /-- The price of the fee basis in the wallet's fee currency. -/
  estimatedFee : Option Amount
  hash : Option TransferHash
  state : TransferState
  deriving DecidableEq

namespace Transfer

/-- A new transfer with a fee basis priced in `feeCurrency`. -/
def create (path : TransferPath) (amount : Amount) (direction : Direction)
    (source target : Option Address) (feeBasis : Option FeeBasis) (feeCurrency : Currency)
    (hash : Option TransferHash) : Transfer :=
  ⟨path, source, target, amount, direction, feeBasis,
    feeBasis.map fun b => Amount.ofBase b.fee feeCurrency, hash, .created⟩

def confirmation? (t : Transfer) : Option Confirmation :=
  match t.state with
  | .included c => some c
  | _ => none

def failure? (t : Transfer) : Option Failure :=
  match t.state with
  | .failed f => some f
  | _ => none

/-- Confirmations at a chain height, derived whenever they are asked for. -/
def confirmationsAt (t : Transfer) (height : UInt64) : BlockCount :=
  match t.confirmation? with
  | some c => c.countAt height
  | none => .pending

/-- The fee paid once included, the estimate before that. -/
def fee? (t : Transfer) : Option Amount :=
  match t.confirmation? with
  | some c => some c.fee
  | none => t.estimatedFee

/-- The transfer with a network hash. -/
def setHash (t : Transfer) (hash : TransferHash) : Transfer := { t with hash := some hash }

/-- The error of a step that the state machine does not have. -/
def refusal (t : Transfer) (new : TransferState) : TransitionError :=
  ⟨"transfer " ++ t.path.text, t.state.text, new.text⟩

/-- The transfer in a new state, or none if it is in that state already. -/
def transition (t : Transfer) (new : TransferState) : Except TransitionError (Option Transfer) :=
  match t.state.verdict new with
  | .same => .ok none
  | .allowed => .ok (some { t with state := new })
  | .refused => .error (t.refusal new)

end Transfer
end WalletHub
