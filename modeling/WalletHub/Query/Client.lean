import WalletHub.Query.Service
import WalletHub.Table
import WalletHub.Text.Hex

/-!
# A query client with prepared answers

A client that answers from tables and keeps a log of what it was asked. A query has two moments:
`accept` writes the log and settles whether the query will fail, `answer` reads the tables when
the client's delay is over. Addresses are looked up without regard to the case of ASCII letters.
-/
namespace WalletHub

structure QueryClient where
  balances : Table String String
  transactions : Table String (List QueryTransaction)
  logs : List QueryLog
  blocks : Table String (List UInt64)
  blockNumber : UInt64
  nonces : Table String UInt64
  gasPrice : String
  gasEstimate : UInt64
  /-- Transactions handed over for submission, oldest first. -/
  submitted : List (List UInt8)
  /-- What was asked, oldest first. -/
  requests : List String
  /-- The error every query is answered with, if there is one. -/
  failure : Option QueryError
  /-- Milliseconds from a request to its answer. -/
  delay : Nat
  deriving DecidableEq

namespace QueryClient

/-- A client that knows nothing of any address. -/
def empty : QueryClient :=
  ⟨.empty, .empty, [], .empty, 0, .empty, "1000000000", 21000, [], [], none, 0⟩

/-- Prepares the balance of an address. -/
def withBalance (c : QueryClient) (address balance : String) : QueryClient :=
  { c with balances := c.balances.put (lowered address) balance }

/-- Prepares the transactions of an address. -/
def withTransactions (c : QueryClient) (address : String) (ts : List QueryTransaction) :
    QueryClient :=
  { c with transactions := c.transactions.put (lowered address) ts }

/-- Prepares the blocks that concern an address. -/
def withBlocks (c : QueryClient) (address : String) (blocks : List UInt64) : QueryClient :=
  { c with blocks := c.blocks.put (lowered address) blocks }

/-- Prepares the nonce of an address. -/
def withNonce (c : QueryClient) (address : String) (nonce : UInt64) : QueryClient :=
  { c with nonces := c.nonces.put (lowered address) nonce }

/-- The argument that a request is logged with. -/
def argument (network : Network) : QueryRequest → String
  | .balance address _ => address
  | .transactions address _ _ => address
  | .logs address _ _ _ _ => address
  | .blocks address _ _ => address
  | .blockNumber => network.name
  | .nonce address => address
  | .gasPrice => network.name
  | .gasEstimate source _ _ _ => source
  | .submit bytes => Text.Hex.text bytes

/-- Logs a request; the failure of the moment will be its answer. -/
def accept (c : QueryClient) (network : Network) (r : QueryRequest) :
    QueryClient × Option QueryError :=
  ({ c with requests := c.requests ++ [r.kind ++ ":" ++ argument network r] }, c.failure)

/-- Whether a block is in a range that includes both ends. -/
def inRange (first last n : UInt64) : Bool := decide (first ≤ n) && decide (n ≤ last)

/-- The entries of contracts' logs that a request asks for. -/
def findLogs (c : QueryClient) (contract : Option String) (topic : String) (first last : UInt64) :
    List QueryLog :=
  c.logs.filter fun l =>
    contract.all (sameCode l.contract ·) && l.topics.head? == some topic
      && inRange first last l.blockNumber

/-- The balance of an address, or of a token that it holds. -/
def balanceOf (c : QueryClient) (address : String) (token : Option String) :
    Except QueryError String :=
  let key := match token with
    | some t => lowered (address ++ ":" ++ t)
    | none => lowered address
  match c.balances.get? key with
  | some b => .ok b
  | none => .error (.rejected ("no balance for " ++ address))

def transactionsOf (c : QueryClient) (address : String) (first last : UInt64) :
    List QueryTransaction :=
  ((c.transactions.get? (lowered address)).getD []).filter fun t =>
    inRange first last t.blockNumber

def blocksOf (c : QueryClient) (address : String) (first last : UInt64) : List UInt64 :=
  ((c.blocks.get? (lowered address)).getD []).filter (inRange first last)

def nonceOf (c : QueryClient) (address : String) : UInt64 :=
  (c.nonces.get? (lowered address)).getD 0

/-- Takes a transaction for submission. -/
def handOver (c : QueryClient) (bytes : List UInt8) : QueryClient × Except QueryError String :=
  if bytes.isEmpty then (c, .error (.malformedResponse "empty transaction"))
  else
    ({ c with submitted := c.submitted ++ [bytes] },
      .ok ("0x" ++ Text.Hex.text (List.replicate 32 0xab)))

/-- The answer to a request that does not fail from the start. -/
def answer (c : QueryClient) : QueryRequest → QueryClient × QueryResult
  | .balance address token => (c, (c.balanceOf address token).map .balance)
  | .transactions address first last =>
    (c, .ok (.transactions (c.transactionsOf address first last)))
  | .logs _ contract topic first last => (c, .ok (.logs (c.findLogs contract topic first last)))
  | .blocks address first last => (c, .ok (.blocks (c.blocksOf address first last)))
  | .blockNumber => (c, .ok (.blockNumber c.blockNumber))
  | .nonce address => (c, .ok (.nonce (c.nonceOf address)))
  | .gasPrice => (c, .ok (.gasPrice c.gasPrice))
  | .gasEstimate .. => (c, .ok (.gasEstimate c.gasEstimate))
  | .submit bytes => QueryService.shape .submitted (c.handOver bytes)

/-- The result of a query whose failure was settled when it was accepted. -/
def complete (c : QueryClient) (failure : Option QueryError) (r : QueryRequest) :
    QueryClient × QueryResult :=
  match failure with
  | some e => (c, .error e)
  | none => c.answer r

/-- Asks and answers at once. -/
def execute (c : QueryClient) (network : Network) (r : QueryRequest) :
    QueryClient × QueryResult :=
  let (c, failure) := c.accept network r
  c.complete failure r

/-- One call: it is logged as a request, and fails if that is what is prepared. -/
def call {α : Type} (c : QueryClient) (network : Network) (r : QueryRequest)
    (go : QueryClient → QueryClient × Except QueryError α) : QueryClient × Except QueryError α :=
  let (c, failure) := c.accept network r
  match failure with
  | some e => (c, .error e)
  | none => go c

/-- The methods of the client. -/
def service : QueryService QueryClient where
  balance network address token c :=
    c.call network (.balance address token) fun c => (c, c.balanceOf address token)
  transactions network address first last c :=
    c.call network (.transactions address first last) fun c =>
      (c, .ok (c.transactionsOf address first last))
  logs network address contract topic first last c :=
    c.call network (.logs address contract topic first last) fun c =>
      (c, .ok (c.findLogs contract topic first last))
  blocks network address first last c :=
    c.call network (.blocks address first last) fun c => (c, .ok (c.blocksOf address first last))
  blockNumber network c := c.call network .blockNumber fun c => (c, .ok c.blockNumber)
  nonce network address c :=
    c.call network (.nonce address) fun c => (c, .ok (c.nonceOf address))
  gasPrice network c := c.call network .gasPrice fun c => (c, .ok c.gasPrice)
  gasEstimate network source target amount data c :=
    c.call network (.gasEstimate source target amount data) fun c => (c, .ok c.gasEstimate)
  submit network transaction c :=
    c.call network (.submit transaction) fun c => c.handOver transaction

end QueryClient
end WalletHub
