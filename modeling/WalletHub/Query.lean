import WalletHub.Error
import WalletHub.Network

/-!
# Queries

Engines that follow a chain through a remote service do not talk to it themselves: they raise a
request under a number of their own, the hub runs it, and the answer goes back to the engine.
-/
namespace WalletHub

/-- The number an engine gives to one of its queries. -/
structure RequestId where
  raw : UInt64
  deriving DecidableEq, Repr

def RequestId.text (id : RequestId) : String := "#" ++ Text.natText id.raw.toNat

/-- A transaction as the service reports it. -/
structure QueryTransaction where
  hash : String
  source : String
  target : String
  amount : String
  blockNumber : UInt64
  transactionIndex : UInt64
  timestamp : UInt64
  gasUsed : Option UInt64
  gasPrice : Option String
  error : Option String
  deriving DecidableEq, Repr

/-- An entry in the log of a contract. -/
structure QueryLog where
  transactionHash : String
  contract : String
  topics : List String
  data : String
  blockNumber : UInt64
  transactionIndex : UInt64
  logIndex : UInt64
  timestamp : UInt64
  deriving DecidableEq, Repr

inductive QueryRequest where
  | balance (address : String) (token : Option String)
  | transactions (address : String) (first last : UInt64)
  | logs (address : String) (contract : Option String) (topic : String) (first last : UInt64)
  | blocks (address : String) (first last : UInt64)
  | blockNumber
  | nonce (address : String)
  | gasPrice
  | gasEstimate (source target amount data : String)
  | submit (transaction : List UInt8)
  deriving DecidableEq, Repr

/-- An answer, in the shape of its request. -/
inductive QueryResponse where
  | balance (amount : String)
  | transactions (found : List QueryTransaction)
  | logs (found : List QueryLog)
  | blocks (numbers : List UInt64)
  | blockNumber (n : UInt64)
  | nonce (n : UInt64)
  | gasPrice (price : String)
  | gasEstimate (gas : UInt64)
  | submitted (hash : String)
  deriving DecidableEq, Repr

abbrev QueryResult := Except QueryError QueryResponse

/-- The name of a kind of request. -/
def QueryRequest.kind : QueryRequest → String
  | balance .. => "get_balance"
  | transactions .. => "get_transactions"
  | logs .. => "get_logs"
  | blocks .. => "get_blocks"
  | blockNumber => "get_block_number"
  | nonce _ => "get_nonce"
  | gasPrice => "get_gas_price"
  | gasEstimate .. => "estimate_gas"
  | submit _ => "submit_transaction"

end WalletHub
