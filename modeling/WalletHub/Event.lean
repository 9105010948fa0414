import WalletHub.Manager
import WalletHub.Single

/-!
# Events

Every change of a record is announced. A notice says what happened, to the hub itself, a manager,
a wallet or a transfer; an event is a notice with its number in the one stream of the hub, which
counts from one without a gap.
-/
namespace WalletHub

inductive HubNotice where
  | created
  | managerAdded (manager : ManagerHandle)
  | managerDeleted (manager : ManagerHandle)
  /-- Nothing follows. -/
  | deleted
  deriving DecidableEq, Repr

inductive ManagerNotice where
  | created
  | changed (old new : ManagerState)
  | syncStarted
  | syncProgress (percent : Single) (timestamp : Option UInt64)
  | syncEnded (reason : SyncStopReason)
  | blockUpdated (height : UInt64)
  | walletAdded (wallet : WalletHandle)
  | walletChanged (wallet : WalletHandle)
  | walletDeleted (wallet : WalletHandle)
  | deleted
  deriving DecidableEq, Repr

inductive WalletNotice where
  | created
  | changed (old new : WalletState)
  | balanceUpdated (balance : Amount)
  | feeBasisUpdated (feeBasis : FeeBasis)
  | transferAdded (transfer : TransferPath)
  | transferChanged (transfer : TransferPath)
  | transferSubmitted (transfer : TransferPath)
  | transferDeleted (transfer : TransferPath)
  | deleted
  deriving DecidableEq

inductive TransferNotice where
  | created
  | changed (old new : TransferState)
  | confirmationsUpdated (confirmations : UInt64)
  | deleted
  deriving DecidableEq

inductive Notice where
  | hub (notice : HubNotice)
  | manager (handle : ManagerHandle) (notice : ManagerNotice)
  | wallet (path : WalletPath) (notice : WalletNotice)
  | transfer (path : TransferPath) (notice : TransferNotice)
  deriving DecidableEq

/-- What an event is about. -/
inductive Scope where
  | hub | manager | wallet | transfer
  deriving DecidableEq, Repr

/-- A moment, counted from the beginning of 1970. -/
structure Timestamp where
  seconds : UInt64
  nanos : UInt32
  deriving DecidableEq, Repr

structure Event where
  /-- The place in the stream. -/
  sequence : Nat
  timestamp : Timestamp
  /-- The part of the hub that speaks. -/
  source : String
  notice : Notice
  deriving DecidableEq

namespace HubNotice

def typeName : HubNotice → String
  | created => "SystemCreated"
  | managerAdded _ => "SystemManagerAdded"
  | managerDeleted _ => "SystemManagerDeleted"
  | deleted => "SystemDeleted"

end HubNotice

namespace ManagerNotice

def typeName : ManagerNotice → String
  | created => "ManagerCreated"
  | changed .. => "ManagerChanged"
  | syncStarted => "ManagerSyncStarted"
  | syncProgress .. => "ManagerSyncProgress"
  | syncEnded _ => "ManagerSyncEnded"
  | blockUpdated _ => "ManagerBlockUpdated"
  | walletAdded _ => "ManagerWalletAdded"
  | walletChanged _ => "ManagerWalletChanged"
  | walletDeleted _ => "ManagerWalletDeleted"
  | deleted => "ManagerDeleted"

end ManagerNotice

namespace WalletNotice

def typeName : WalletNotice → String
  | created => "WalletCreated"
  | changed .. => "WalletChanged"
  | balanceUpdated _ => "WalletBalanceUpdated"
  | feeBasisUpdated _ => "WalletFeeBasisUpdated"
  | transferAdded _ => "WalletTransferAdded"
  | transferChanged _ => "WalletTransferChanged"
  | transferSubmitted _ => "WalletTransferSubmitted"
  | transferDeleted _ => "WalletTransferDeleted"
  | deleted => "WalletDeleted"

end WalletNotice

namespace TransferNotice

def typeName : TransferNotice → String
  | created => "TransferCreated"
  | changed .. => "TransferChanged"
  | confirmationsUpdated _ => "TransferConfirmationsUpdated"
  | deleted => "TransferDeleted"

end TransferNotice

def Scope.text : Scope → String
  | .hub => "system"
  | .manager => "manager"
  | .wallet => "wallet"
  | .transfer => "transfer"

namespace Notice

def typeName : Notice → String
  | hub n => n.typeName
  | manager _ n => n.typeName
  | wallet _ n => n.typeName
  | transfer _ n => n.typeName

def scope : Notice → Scope
  | hub _ => .hub
  | manager .. => .manager
  | wallet .. => .wallet
  | transfer .. => .transfer

/-- The manager a notice belongs to; the hub's own belong to none. -/
def manager? : Notice → Option ManagerHandle
  | hub _ => none
  | manager h _ => some h
  | wallet p _ => some p.manager
  | transfer p _ => some p.manager

/-- One line about a notice, without its number. -/
def summary : Notice → String
  | hub n =>
    match n with
    | .managerAdded m | .managerDeleted m => n.typeName ++ " " ++ m.text
    | _ => n.typeName
  | manager h n =>
    match n with
    | .changed old new => "manager " ++ h.text ++ ": " ++ old.text ++ " -> " ++ new.text
    | .syncProgress p _ => "manager " ++ h.text ++ ": sync " ++ p.tenths ++ "%"
    | .syncEnded r => "manager " ++ h.text ++ ": sync ended (" ++ r.text ++ ")"
    | .blockUpdated n => "manager " ++ h.text ++ ": height " ++ Text.natText n.toNat
    | n => n.typeName ++ " " ++ h.text
  | wallet p n =>
    match n with
    | .balanceUpdated a => "wallet " ++ p.text ++ ": balance " ++ a.text
    | n => n.typeName ++ " " ++ p.text
  | transfer p n =>
    match n with
    | .changed old new => "transfer " ++ p.text ++ ": " ++ old.text ++ " -> " ++ new.text
    | .confirmationsUpdated c =>
      "transfer " ++ p.text ++ ": " ++ Text.natText c.toNat ++ " confirmations"
    | n => n.typeName ++ " " ++ p.text

end Notice

namespace Event

def typeName (e : Event) : String := e.notice.typeName

def scope (e : Event) : Scope := e.notice.scope

def manager? (e : Event) : Option ManagerHandle := e.notice.manager?

/-- One line about an event. -/
def summary (e : Event) : String :=
  "#" ++ Text.natText e.sequence ++ " " ++ e.notice.summary

end Event
end WalletHub
