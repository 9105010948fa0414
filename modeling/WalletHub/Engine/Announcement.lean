import WalletHub.Query

/-!
# Announcements

The answer to a query goes back to the engine through the method for its kind. `route` picks the
method from the request, never from the answer: an answer of another shape reaches the same method
as a failure. An engine for outputs has no method for five of the kinds.
-/
namespace WalletHub

/-- A method of an engine with what it is called with. -/
inductive Announcement where
  | blockNumber (result : Except QueryError UInt64)
  | transactions (result : Except QueryError (List QueryTransaction))
  | submit (result : Except QueryError String)
  | blocks (result : Except QueryError (List UInt64))
  | balance (result : Except QueryError String)
  | logs (result : Except QueryError (List QueryLog))
  | nonce (result : Except QueryError UInt64)
  | gasPrice (result : Except QueryError String)
  | gasEstimate (result : Except QueryError UInt64)

/-- Whether a result is a success. -/
def succeeded {ε α : Type} : Except ε α → Bool
  | .ok _ => true
  | .error _ => false

namespace Announcement

/-- The name of the method. -/
def name : Announcement → String
  | blockNumber _ => "block_number"
  | transactions _ => "transactions"
  | submit _ => "submit"
  | blocks _ => "blocks"
  | balance _ => "balance"
  | logs _ => "logs"
  | nonce _ => "nonce"
  | gasPrice _ => "gas_price"
  | gasEstimate _ => "gas_estimate"

/-- Whether the method is called with a success. -/
def isSuccess : Announcement → Bool
  | blockNumber r | nonce r | gasEstimate r => succeeded r
  | transactions r => succeeded r
  | submit r | balance r | gasPrice r => succeeded r
  | blocks r => succeeded r
  | logs r => succeeded r

/-- Whether engines of both backends have the method. -/
def isCommon : Announcement → Bool
  | blockNumber _ | transactions _ | submit _ | blocks _ => true
  | _ => false

/-- The part of an answer that a method takes; an answer of another shape is a malformed one. -/
def shaped {α : Type} (kind : String) (part : QueryResponse → Option α) (r : QueryResult) :
    Except QueryError α :=
  match r with
  | .error e => .error e
  | .ok response =>
    match part response with
    | some a => .ok a
    | none => .error (.malformedResponse ("unexpected response to " ++ kind))

/-- The method for a kind of request, with what it takes of the answer. -/
def ofResult (request : QueryRequest) (r : QueryResult) : Announcement :=
  let kind := request.kind
  match request with
  | .blockNumber => .blockNumber (shaped kind (fun | .blockNumber n => some n | _ => none) r)
  | .transactions .. => .transactions (shaped kind (fun | .transactions t => some t | _ => none) r)
  | .submit _ => .submit (shaped kind (fun | .submitted h => some h | _ => none) r)
  | .blocks .. => .blocks (shaped kind (fun | .blocks b => some b | _ => none) r)
  | .balance .. => .balance (shaped kind (fun | .balance b => some b | _ => none) r)
  | .logs .. => .logs (shaped kind (fun | .logs l => some l | _ => none) r)
  | .nonce _ => .nonce (shaped kind (fun | .nonce n => some n | _ => none) r)
  | .gasPrice => .gasPrice (shaped kind (fun | .gasPrice p => some p | _ => none) r)
  | .gasEstimate .. => .gasEstimate (shaped kind (fun | .gasEstimate g => some g | _ => none) r)

/-- The method that a backend's engine is to be called with, or the refusal. -/
def route (backend : Backend) (request : QueryRequest) (r : QueryResult) :
    Except EngineError Announcement :=
  let a := ofResult request r
  if backend = .account ∨ a.isCommon then .ok a
  else .error ⟨"announce " ++ request.kind, "the UTXO backend has no such query"⟩

end Announcement
end WalletHub
