import WalletHub.Engine
import WalletHub.Event
import WalletHub.Listener

/-!
# What goes into the hub and what comes out

Commands wait in one queue: callbacks of engines, requests of the application, answers of the
query service, and changes of the audience. Out come notifications for the audience, queries for
the service, and an answer for each request.
-/
namespace WalletHub

/-- What the application asks for. -/
inductive Request where
  | createManager (params : ManagerParams)
  | createWallet (manager : ManagerHandle) (currency : String)
  | connect (manager : ManagerHandle)
  | disconnect (manager : ManagerHandle)
  | sync (manager : ManagerHandle)
  | setMode (manager : ManagerHandle) (mode : ManagerMode)
  | createTransfer (wallet : WalletPath) (target : Address) (amount : Amount)
      (feeBasis : Option FeeBasis)
  | submit (transfer : TransferPath) (auth : SubmitAuth)

/-- What a request that succeeds is answered with. -/
inductive Answer where
  | done
  | manager (handle : ManagerHandle)
  | wallet (path : WalletPath)
  | transfer (path : TransferPath)
  deriving DecidableEq, Repr

/-- A query on its way to the service. -/
structure Inquiry where
  backend : Backend
  manager : UInt64
  id : RequestId
  request : QueryRequest
  network : Network
  deriving DecidableEq

inductive Command where
  | callback (backend : Backend) (callback : EngineCallback)
  | request (request : Request)
  /-- The service answered a query. -/
  | answered (inquiry : Inquiry) (result : QueryResult)
  | register (seat : Seat)
  | remove (name : String)
  /-- Wait until everything before has reached the audience. -/
  | flush
  | shutdown

/-- What the audience is told, in this order. -/
inductive Notification where
  | event (event : Event)
  | register (seat : Seat)
  | remove (name : String)
  | barrier
  | shutdown

end WalletHub
