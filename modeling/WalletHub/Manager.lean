import WalletHub.Table
import WalletHub.Wallet

/-!
# Managers

A manager is one connection to one backend, for one account on one network. It is created, moves
among connected, disconnected and syncing, and is deleted from anywhere. Its mode says how work is
split between the peers of the network and the query service, and can change only while the
engine is idle.
-/
namespace WalletHub

inductive ManagerMode where
  | apiOnly
  | apiWithP2pSubmit
  | p2pWithApiSync
  | p2pOnly
  deriving DecidableEq, Repr

def ManagerMode.text : ManagerMode → String
  | .apiOnly => "api_only"
  | .apiWithP2pSubmit => "api_with_p2p_submit"
  | .p2pWithApiSync => "p2p_with_api_sync"
  | .p2pOnly => "p2p_only"

inductive DisconnectReason where
  /-- The application asked for it. -/
  | requested
  | unknown
  | posix (errnum : Int32) (message : Option String)
  deriving DecidableEq, Repr

inductive SyncStopReason where
  | complete
  | requested
  | unknown
  | posix (errnum : Int32) (message : Option String)
  deriving DecidableEq, Repr

/-- A socket error with the system's words for it. -/
def posixText (errnum : Int32) (message : Option String) : String :=
  match message with
  | some m => "posix(" ++ Text.intText errnum.toInt ++ ": " ++ m ++ ")"
  | none => "posix(" ++ Text.intText errnum.toInt ++ ")"

def DisconnectReason.text : DisconnectReason → String
  | .requested => "requested"
  | .unknown => "unknown"
  | .posix n m => posixText n m

def SyncStopReason.text : SyncStopReason → String
  | .complete => "complete"
  | .requested => "requested"
  | .unknown => "unknown"
  | .posix n m => posixText n m

/-- Whether the sync ended as it should or on request. -/
def SyncStopReason.isSuccess : SyncStopReason → Bool
  | .complete | .requested => true
  | _ => false

inductive ManagerState where
  | created
  | connected
  | disconnected (reason : DisconnectReason)
  | syncing
  | deleted
  deriving DecidableEq, Repr

namespace ManagerState

def name : ManagerState → String
  | created => "created"
  | connected => "connected"
  | disconnected _ => "disconnected"
  | syncing => "syncing"
  | deleted => "deleted"

/-- Whether the engine is at work on the network. -/
def isActive : ManagerState → Bool
  | connected | syncing => true
  | _ => false

def text : ManagerState → String
  | disconnected r => "disconnected(" ++ r.text ++ ")"
  | s => s.name

/-- Whether the state `new` may follow `old`. -/
def verdict (old new : ManagerState) : Verdict :=
  if old = new then .same
  else
    match old, new with
    | .deleted, _ => .refused
    | _, .deleted => .allowed
    | _, .created => .refused
    | _, _ => .allowed

end ManagerState

structure Manager where
  handle : ManagerHandle
  account : Account
  network : Network
  mode : ManagerMode
  storagePath : String
  state : ManagerState
  /-- The chain height last reported. -/
  height : UInt64
  wallets : Registry WalletHandle Wallet
  /-- The wallet of the native currency, from its creation on. -/
  primaryWallet : Option WalletHandle
  deriving DecidableEq

namespace Manager

/-- A new manager, without wallets. -/
def create (handle : ManagerHandle) (account : Account) (network : Network) (mode : ManagerMode)
    (storagePath : String) : Manager :=
  ⟨handle, account, network, mode, storagePath, .created, 0, .empty, none⟩

/-- The wallet of the native currency, while it is registered. -/
def primary? (m : Manager) : Option Wallet := m.primaryWallet.bind m.wallets.find?

/-- The oldest wallet of a currency. -/
def walletFor? (m : Manager) (code : String) : Option Wallet :=
  m.wallets.records.find? fun w => sameCode w.currency.code code

/-- The currency fees are paid in, or the currency itself on a network without a native one. -/
def feeCurrencyFor (m : Manager) (c : Currency) : Currency := m.network.native?.getD c

/-- The error of a step that the state machine does not have. -/
def refusal (m : Manager) (new : ManagerState) : TransitionError :=
  ⟨"manager " ++ m.handle.text, m.state.text, new.text⟩

/-- The manager in a new state, or none if it is in that state already. -/
def transition (m : Manager) (new : ManagerState) : Except TransitionError (Option Manager) :=
  match m.state.verdict new with
  | .same => .ok none
  | .allowed => .ok (some { m with state := new })
  | .refused => .error (m.refusal new)

/-- The manager at another height, or none if it is at that height already. -/
def setHeight (m : Manager) (height : UInt64) : Option Manager :=
  if m.height = height then none else some { m with height := height }

/-- The manager in another mode, with the mode before, or none if it is in that mode already. -/
def setMode (m : Manager) (mode : ManagerMode) :
    Except HubError (Manager × Option ManagerMode) :=
  if m.state.isActive ∨ m.state = .deleted then
    .error (.invalidManagerState m.handle "set mode" m.state.text)
  else if m.mode = mode then .ok (m, none)
  else .ok ({ m with mode := mode }, some m.mode)

end Manager

/-- All records: the managers, and for each account and network the manager that serves it. -/
structure Tree where
  managers : Registry ManagerHandle Manager
  /-- Account and network name to manager. -/
  index : Table (String × String) ManagerHandle
  deriving DecidableEq

namespace Tree

def empty : Tree := ⟨.empty, .empty⟩

def manager? (t : Tree) (h : ManagerHandle) : Option Manager := t.managers.find? h

/-- The manager that serves an account on a network. -/
def managerFor? (t : Tree) (accountId networkName : String) : Option ManagerHandle :=
  t.index.get? (accountId, networkName)

def wallet? (t : Tree) (p : WalletPath) : Option Wallet :=
  (t.manager? p.manager).bind fun m => m.wallets.find? p.wallet

def transfer? (t : Tree) (p : TransferPath) : Option Transfer :=
  (t.wallet? p.parent).bind fun w => w.transfers.find? p.transfer

/-- Confirmations of a transfer at the height of its manager. -/
def confirmations (t : Tree) (p : TransferPath) : BlockCount :=
  match t.manager? p.manager, t.transfer? p with
  | some m, some x => x.confirmationsAt m.height
  | _, _ => .pending

end Tree

end WalletHub
