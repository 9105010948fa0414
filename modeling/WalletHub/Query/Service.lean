import WalletHub.Query

/-!
# Query services

A service has one method for each kind of request. Running a request calls the method for its kind
with what the request carries, and puts what comes back in the shape of an answer to it.
-/
namespace WalletHub

/-- A service that answers queries. A call may change the service, of which `σ` are the states. -/
structure QueryService (σ : Type) where
  balance (network : Network) (address : String) (token : Option String) :
    σ → σ × Except QueryError String
  transactions (network : Network) (address : String) (first last : UInt64) :
    σ → σ × Except QueryError (List QueryTransaction)
  logs (network : Network) (address : String) (contract : Option String) (topic : String)
    (first last : UInt64) : σ → σ × Except QueryError (List QueryLog)
  blocks (network : Network) (address : String) (first last : UInt64) :
    σ → σ × Except QueryError (List UInt64)
  blockNumber (network : Network) : σ → σ × Except QueryError UInt64
  nonce (network : Network) (address : String) : σ → σ × Except QueryError UInt64
  gasPrice (network : Network) : σ → σ × Except QueryError String
  gasEstimate (network : Network) (source target amount data : String) :
    σ → σ × Except QueryError UInt64
  submit (network : Network) (transaction : List UInt8) : σ → σ × Except QueryError String

namespace QueryService

variable {σ : Type}

/-- What a method returned, in the shape of an answer. -/
def shape {α : Type} (label : α → QueryResponse) (r : σ × Except QueryError α) :
    σ × QueryResult :=
  (r.1, r.2.map label)

/-- Runs a request against a service in some state. -/
def execute (s : QueryService σ) (network : Network) (x : σ) : QueryRequest → σ × QueryResult
  | .balance address token => shape .balance (s.balance network address token x)
  | .transactions address first last =>
    shape .transactions (s.transactions network address first last x)
  | .logs address contract topic first last =>
    shape .logs (s.logs network address contract topic first last x)
  | .blocks address first last => shape .blocks (s.blocks network address first last x)
  | .blockNumber => shape .blockNumber (s.blockNumber network x)
  | .nonce address => shape .nonce (s.nonce network address x)
  | .gasPrice => shape .gasPrice (s.gasPrice network x)
  | .gasEstimate source target amount data =>
    shape .gasEstimate (s.gasEstimate network source target amount data x)
  | .submit transaction => shape .submitted (s.submit network transaction x)

end QueryService
end WalletHub
