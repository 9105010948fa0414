import WalletHub.Text.Numeral

/-!
# Handles

Every manager, wallet and transfer is known to the engine that made it by a number. A handle is
that number together with the backend of the engine, so numbers of different engines never meet.
The hub compares handles and uses them as keys, nothing else.
-/
namespace WalletHub

/-- The two families of chains. -/
inductive Backend where
  /-- Coins are outputs of earlier transactions. -/
  | utxo
  /-- Coins are balances of accounts. -/
  | account
  deriving DecidableEq, Repr

/-- What a handle names. -/
inductive Role where
  | manager | wallet | transfer
  deriving DecidableEq, Repr

/-- An engine's number for a thing of role `r`, with the engine's backend. -/
structure Handle (r : Role) where
  backend : Backend
  raw : UInt64
  deriving DecidableEq, Repr

abbrev ManagerHandle := Handle .manager
abbrev WalletHandle := Handle .wallet
abbrev TransferHandle := Handle .transfer

/-- The key of a wallet: its manager and its own handle. -/
structure WalletPath where
  manager : ManagerHandle
  wallet : WalletHandle
  deriving DecidableEq, Repr

/-- The key of a transfer: its manager, its wallet and its own handle. -/
structure TransferPath where
  manager : ManagerHandle
  wallet : WalletHandle
  transfer : TransferHandle
  deriving DecidableEq, Repr

/-- The key of a transfer of this wallet. -/
def WalletPath.child (p : WalletPath) (t : TransferHandle) : TransferPath :=
  ⟨p.manager, p.wallet, t⟩

/-- The key of the wallet that owns the transfer. -/
def TransferPath.parent (p : TransferPath) : WalletPath := ⟨p.manager, p.wallet⟩

@[simp] theorem WalletPath.parent_child (p : WalletPath) (t : TransferHandle) :
    (p.child t).parent = p := rfl

/-- The lower-case name of a backend. -/
def Backend.text : Backend → String
  | .utxo => "utxo"
  | .account => "account"

/-- An engine's number in hexadecimal. -/
def rawText (raw : UInt64) : String := Text.hexText raw.toNat

def Handle.text {r : Role} (h : Handle r) : String := h.backend.text ++ ":" ++ rawText h.raw

def WalletPath.text (p : WalletPath) : String := p.manager.text ++ "/" ++ p.wallet.text

def TransferPath.text (p : TransferPath) : String := p.parent.text ++ "/" ++ p.transfer.text

/-- Handles are ordered by backend, the outputs family first, and then by number. -/
def Handle.compare {r s : Role} (a : Handle r) (b : Handle s) : Ordering :=
  match a.backend, b.backend with
  | .utxo, .account => .lt
  | .account, .utxo => .gt
  | _, _ => Ord.compare a.raw b.raw

end WalletHub
