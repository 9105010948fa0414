import WalletHub.Handle

/-!
# Errors

What can go wrong, by where it comes from, with the wording of each error in `message`. Errors
never travel back into an engine: a callback that fails is dropped and counted, and only
commands of the application are answered with an error.
-/
namespace WalletHub

/-- A handle or currency that is not known here. -/
inductive ResolutionError where
  | unknownManager (manager : ManagerHandle)
  | unknownWallet (wallet : WalletPath)
  | unknownTransfer (transfer : TransferPath)
  | unknownCurrency (network currency : String)
  | managerDeleted (manager : ManagerHandle)
  deriving DecidableEq, Repr

/-- The raw values of one backend. -/
inductive Payload where
  | balance | feeBasis
  deriving DecidableEq, Repr

/-- A raw value that could not be read. -/
inductive DecodeError where
  | invalidAmount (value reason : String)
  | invalidAddress (backend : Backend) (reason : String)
  | invalidHash (length : Nat)
  | foreignPayload (payload : Payload) (expected actual : Backend)
  deriving DecidableEq, Repr

/-- A request that no correctly wired application makes. -/
inductive PreconditionError where
  | wrongBackend (operation : String) (expected actual : Backend)
  | missingEngine (backend : Backend)
  | recordDeleted (record operation : String)
  deriving DecidableEq, Repr

/-- An engine refused a command. -/
structure EngineError where
  operation : String
  message : String
  deriving DecidableEq, Repr

/-- A failure of the query service. -/
inductive QueryError where
  | unavailable (reason : String)
  | malformedResponse (reason : String)
  | rejected (reason : String)
  deriving DecidableEq, Repr

/-- A step that a record's state machine does not have. -/
structure TransitionError where
  record : String
  source : String
  target : String
  deriving DecidableEq, Repr

/-- Anything a command of the application can be answered with, short of success. -/
inductive HubError where
  | resolution (cause : ResolutionError)
  | decode (cause : DecodeError)
  | precondition (cause : PreconditionError)
  | engine (cause : EngineError)
  | query (cause : QueryError)
  | transition (cause : TransitionError)
  | invalidManagerState (manager : ManagerHandle) (operation state : String)
  | invalidRequest (operation reason : String)
  | duplicateListener (name : String)
  | invalidListenerName (name : String)
  | tooManyListeners (current max : Nat)
  | listenerSetup (name reason : String)
  | listenerNotFound (name : String)
  | configuration (parameter reason : String)
  | closed
  deriving DecidableEq, Repr

namespace ResolutionError

def message : ResolutionError → String
  | unknownManager m => "Unknown manager " ++ m.text
  | unknownWallet w => "Unknown wallet " ++ w.text
  | unknownTransfer t => "Unknown transfer " ++ t.text
  | unknownCurrency n c => "Unknown currency '" ++ c ++ "' on network '" ++ n ++ "'"
  | managerDeleted m => "Manager " ++ m.text ++ " is deleted"

/-- The counter a callback dropped for this reason is counted under. -/
def bucket : ResolutionError → String
  | unknownManager _ => "unknown_manager"
  | unknownWallet _ => "unknown_wallet"
  | unknownTransfer _ => "unknown_transfer"
  | unknownCurrency _ _ => "unknown_currency"
  | managerDeleted _ => "deleted_manager"

end ResolutionError

def Payload.text : Payload → String
  | .balance => "balance"
  | .feeBasis => "fee basis"

def DecodeError.message : DecodeError → String
  | .invalidAmount v r => "Invalid amount '" ++ v ++ "': " ++ r
  | .invalidAddress b r => "Invalid " ++ b.text ++ " address: " ++ r
  | .invalidHash n => "Invalid transfer hash: expected 32 bytes, got " ++ Text.natText n
  | .foreignPayload p e a =>
    "Raw " ++ p.text ++ " payload belongs to the " ++ a.text ++ " backend, expected " ++ e.text

def PreconditionError.message : PreconditionError → String
  | .wrongBackend o e a => o ++ " requires the " ++ e.text ++ " backend, got " ++ a.text
  | .missingEngine b => "No " ++ b.text ++ " engine is attached to the system"
  | .recordDeleted r o => r ++ " is deleted; " ++ o ++ " is not allowed"

def EngineError.text (e : EngineError) : String :=
  "Engine rejected " ++ e.operation ++ ": " ++ e.message

def QueryError.message : QueryError → String
  | .unavailable r => "Query service unavailable: " ++ r
  | .malformedResponse r => "Malformed query response: " ++ r
  | .rejected r => "Query service rejected the request: " ++ r

def TransitionError.message (e : TransitionError) : String :=
  "Invalid state transition for " ++ e.record ++ ": " ++ e.source ++ " -> " ++ e.target

namespace HubError

def message : HubError → String
  | resolution e => e.message
  | decode e => e.message
  | precondition e => "Precondition violated: " ++ e.message
  | engine e => e.text
  | query e => e.message
  | transition e => e.message
  | invalidManagerState m o s => "Manager " ++ m.text ++ " cannot " ++ o ++ " while " ++ s
  | invalidRequest o r => "Invalid " ++ o ++ " request: " ++ r
  | duplicateListener n => "Listener with name '" ++ n ++ "' is already registered"
  | invalidListenerName n => "Invalid listener name: '" ++ n ++ "'"
  | tooManyListeners c m =>
    "Cannot register listener: maximum of " ++ Text.natText m ++ " listeners allowed, currently have "
      ++ Text.natText c
  | listenerSetup n r => "Listener '" ++ n ++ "' initialization failed: " ++ r
  | listenerNotFound n => "Listener '" ++ n ++ "' is not registered"
  | configuration p r => "Configuration error: " ++ p ++ " - " ++ r
  | closed => "The dispatch context has shut down"

/-- The family an error is logged under. -/
def category : HubError → String
  | resolution _ => "resolution"
  | decode _ => "decode"
  | precondition _ => "precondition"
  | engine _ => "engine"
  | query _ => "query"
  | transition _ | invalidManagerState .. => "state"
  | invalidRequest .. => "request"
  | duplicateListener _ | invalidListenerName _ | tooManyListeners .. | listenerSetup ..
  | listenerNotFound _ => "listener"
  | configuration .. => "configuration"
  | closed => "internal"

/-- Whether the same command can succeed when it is tried again. -/
def isRecoverable : HubError → Bool
  | engine _ | query (.unavailable _) | invalidManagerState .. => true
  | _ => false

end HubError
end WalletHub
