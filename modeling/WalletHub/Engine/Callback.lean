import WalletHub.Manager
import WalletHub.Query
import WalletHub.Single

/-!
# Callbacks

What engines report, addressed by their own numbers. The backend of the engine is added when a
callback enters the hub.
-/
namespace WalletHub

inductive ManagerCallback where
  | created
  | connected
  | disconnected (reason : DisconnectReason)
  | syncStarted
  | syncProgress (percent : Single) (timestamp : Option UInt64)
  | syncStopped (reason : SyncStopReason)
  | blockHeightUpdated (height : UInt64)
  | deleted
  deriving DecidableEq, Repr

inductive WalletCallback where
  /-- With the code of a currency of the manager's network. -/
  | created (currency : String)
  | balanceUpdated (balance : RawBalance)
  | defaultFeeBasisUpdated (feeBasis : RawFeeBasis)
  | deleted
  deriving DecidableEq, Repr

inductive TransferCallback where
  | created (attributes : RawTransfer)
  | signed (hash : Option (List UInt8))
  | submitted (hash : Option (List UInt8))
  /-- With the fee paid, in base units of the wallet's fee currency. -/
  | included (blockNumber transactionIndex timestamp : UInt64) (fee : String)
  | errored (error : RawTransferError)
  | deleted
  deriving DecidableEq, Repr

inductive EngineCallback where
  | manager (manager : UInt64) (event : ManagerCallback)
  | wallet (manager wallet : UInt64) (event : WalletCallback)
  | transfer (manager wallet transfer : UInt64) (event : TransferCallback)
  /-- The engine needs data from the query service. -/
  | queryRequested (manager : UInt64) (id : RequestId) (request : QueryRequest)
  deriving DecidableEq, Repr

def EngineCallback.kind : EngineCallback → String
  | manager .. => "manager"
  | wallet .. => "wallet"
  | transfer .. => "transfer"
  | queryRequested .. => "query"

end WalletHub
