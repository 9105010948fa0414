import WalletHub.Engine.Announcement
import WalletHub.Engine.Callback
import WalletHub.Table

/-!
# Simulated engines

An engine in memory, of either backend. It numbers what it makes, keeps a log of the commands it
got and whether it accepted them, and raises the callbacks a real engine raises for them if it is
wired to (`echo`). A failure can be armed for the next command. Reads of balances and fees answer
from what was set before.
-/
namespace WalletHub

/-- What an engine is told about a new manager. -/
structure ManagerParams where
  account : Account
  network : Network
  mode : ManagerMode
  storagePath : String
  deriving DecidableEq

/-- A transfer the application asks for. -/
structure TransferRequest where
  target : Address
  amount : Amount
  feeBasis : FeeBasis
  deriving DecidableEq

/-- What a transfer is submitted with. -/
inductive SubmitAuth where
  /-- The words of a paper key; they are never shown. -/
  | paperKey (phrase : String)
  /-- A signature made outside the engine. -/
  | signature (bytes : List UInt8)
  deriving DecidableEq

def SubmitAuth.kind : SubmitAuth → String
  | paperKey _ => "paper_key"
  | signature _ => "signature"

/-- A paper key in words: nothing of it is shown. -/
def paperKeyText : String := "PaperKey(..)"

/-- The authorization in words. -/
def SubmitAuth.text : SubmitAuth → String
  | paperKey _ => "PaperKey(" ++ paperKeyText ++ ")"
  | signature bytes =>
    "Signature([" ++ String.intercalate ", " (bytes.map fun b => Text.natText b.toNat) ++ "])"

inductive EngineCommand where
  | createManager (params : ManagerParams)
  | connect (manager : UInt64)
  | disconnect (manager : UInt64)
  | sync (manager : UInt64)
  | setMode (manager : UInt64) (mode : ManagerMode)
  | createWallet (manager : UInt64) (currency : Currency)
  | createTransfer (manager wallet : UInt64) (request : TransferRequest)
  | submit (manager wallet transfer : UInt64) (auth : SubmitAuth)
  | releaseManager (manager : UInt64)
  deriving DecidableEq

/-- The name a command is logged and refused under. -/
def EngineCommand.name : EngineCommand → String
  | createManager _ => "create_manager"
  | connect _ => "connect"
  | disconnect _ => "disconnect"
  | sync _ => "sync"
  | setMode _ mode => "set_mode:" ++ mode.text
  | createWallet _ c => "create_wallet:" ++ c.code
  | createTransfer .. => "create_transfer"
  | submit _ _ _ auth => "submit:" ++ auth.kind
  | releaseManager _ => "release_manager"

/-- A command that an engine got, and whether it accepted it. -/
structure Issued where
  command : EngineCommand
  accepted : Bool
  deriving DecidableEq

/-- An answer that an engine got, with the manager and the number of the request. -/
structure Announced where
  manager : UInt64
  id : RequestId
  announcement : Announcement

structure Engine where
  backend : Backend
  nextHandle : UInt64
  /-- Commands, oldest first. -/
  issued : List Issued
  /-- Answers to queries, oldest first. -/
  announced : List Announced
  primaryWallets : Table UInt64 UInt64
  balances : Table UInt64 RawBalance
  /-- The rate of an engine for outputs. -/
  feePerKb : Option UInt64
  /-- Price and limit of an engine for accounts. -/
  defaultGas : Option RawFeeBasis
  /-- The message the next command fails with. -/
  failNext : Option String
  /-- Whether callbacks are raised. -/
  echo : Bool

/-- An engine after a command, the callbacks it raised meanwhile, and its answer. -/
structure EngineReply (α : Type) where
  engine : Engine
  raised : List EngineCallback
  result : Except EngineError α

/-- What an engine knows of the wallets of one manager. -/
structure EngineReads where
  balance : WalletHandle → Option RawBalance
  feeBasis : WalletHandle → Option RawFeeBasis

/-- The reads of an engine that knows nothing. -/
def EngineReads.nothing : EngineReads := ⟨fun _ => none, fun _ => none⟩

namespace Engine

/-- A new engine. The two backends count from different numbers. -/
def create (backend : Backend) (echo : Bool) : Engine :=
  ⟨backend, match backend with | .utxo => 0x1000 | .account => 0x2000, [], [], .empty, .empty,
    none, none, none, echo⟩

/-- The size that the rate of an engine for outputs is quoted for: one input and two outputs. -/
def typicalSize : UInt32 := 226

/-- Logs a command, and refuses it if a failure was armed. -/
def take (e : Engine) (c : EngineCommand) : Engine × Except EngineError Unit :=
  match e.failNext with
  | some message =>
    ({ e with issued := e.issued ++ [⟨c, false⟩], failNext := none }, .error ⟨c.name, message⟩)
  | none => ({ e with issued := e.issued ++ [⟨c, true⟩] }, .ok ())

/-- Runs a command: logs it, and carries it out if it is accepted. -/
def command {α : Type} (e : Engine) (c : EngineCommand)
    (act : Engine → Engine × List EngineCallback × α) : EngineReply α :=
  match e.take c with
  | (e, .error err) => ⟨e, [], .error err⟩
  | (e, .ok ()) =>
    let (e, raised, a) := act e
    ⟨e, if e.echo then raised else [], .ok a⟩

/-- Makes a manager and the wallet of its native currency, and returns their numbers. -/
def createManager (e : Engine) (params : ManagerParams) : EngineReply (UInt64 × UInt64) :=
  e.command (.createManager params) fun e =>
    let m := e.nextHandle
    let w := e.nextHandle + 1
    ({ e with nextHandle := e.nextHandle + 2, primaryWallets := e.primaryWallets.put m w },
      [.manager m .created, .wallet m w (.created params.network.nativeCurrency)], (m, w))

def connect (e : Engine) (m : UInt64) : EngineReply Unit :=
  e.command (.connect m) fun e => (e, [.manager m .connected], ())

def disconnect (e : Engine) (m : UInt64) : EngineReply Unit :=
  e.command (.disconnect m) fun e => (e, [], ())

def sync (e : Engine) (m : UInt64) : EngineReply Unit :=
  e.command (.sync m) fun e =>
    (e, [.manager m .syncStarted, .manager m (.syncStopped .complete)], ())

def setMode (e : Engine) (m : UInt64) (mode : ManagerMode) : EngineReply Unit :=
  e.command (.setMode m mode) fun e => (e, [], ())

/-- Makes a wallet for a token. A manager for outputs has its one wallet already, so its engine is
not asked. -/
def createWallet (e : Engine) (m : UInt64) (currency : Currency) : EngineReply UInt64 :=
  match e.backend with
  | .utxo =>
    ⟨e, [], .error ⟨"create_wallet",
      "UTXO managers only hold their primary wallet, not '" ++ currency.code ++ "'"⟩⟩
  | .account =>
    e.command (.createWallet m currency) fun e =>
      let w := e.nextHandle
      ({ e with nextHandle := e.nextHandle + 1 }, [.wallet m w (.created currency.code)], w)

/-- Makes a transfer, and returns its number and its attributes. -/
def createTransfer (e : Engine) (m w : UInt64) (request : TransferRequest) :
    EngineReply (UInt64 × RawTransfer) :=
  e.command (.createTransfer m w request) fun e =>
    ({ e with nextHandle := e.nextHandle + 1 }, [],
      (e.nextHandle,
        ⟨none, some request.target.rawBytes, request.amount.baseText, .sent,
          some (.of request.feeBasis), none⟩))

/-- The octets of a number, most significant first. -/
def handleBytes (n : UInt64) : List UInt8 :=
  ([56, 48, 40, 32, 24, 16, 8, 0] : List UInt64).map fun k => (n >>> k).toUInt8

/-- Submits a transfer; its hash is its number followed by zeros. -/
def submit (e : Engine) (m w t : UInt64) (auth : SubmitAuth) : EngineReply Unit :=
  e.command (.submit m w t auth) fun e =>
    (e, [.transfer m w t (.submitted (some (handleBytes t ++ List.replicate 24 0)))], ())

/-- Lets go of a manager. An armed failure is spent, but nobody hears of it. -/
def releaseManager (e : Engine) (m : UInt64) : Engine := (e.take (.releaseManager m)).1

/-- The engine in words. -/
def text (e : Engine) : String := "EngineBackend::" ++ e.backend.text

/-- The reads for the wallets of a manager. -/
def reads (e : Engine) : EngineReads where
  balance w := e.balances.get? w.raw
  feeBasis _ :=
    match e.backend with
    | .utxo => e.feePerKb.map fun rate => .utxo rate typicalSize
    | .account => e.defaultGas

/-- Hands the answer to a query to the engine. -/
def announce (e : Engine) (m : UInt64) (id : RequestId) (request : QueryRequest)
    (r : QueryResult) : Engine × Except EngineError Unit :=
  match Announcement.route e.backend request r with
  | .error err => (e, .error err)
  | .ok a => ({ e with announced := e.announced ++ [⟨m, id, a⟩] }, .ok ())

/-- The same for an engine that has none of the methods of both backends. -/
def announceBare (e : Engine) (m : UInt64) (id : RequestId) (request : QueryRequest)
    (r : QueryResult) : Engine × Except EngineError Unit :=
  match Announcement.route e.backend request r with
  | .error err => (e, .error err)
  | .ok a =>
    if a.isCommon then (e, .error ⟨"announce_" ++ a.name, "not supported by this backend"⟩)
    else ({ e with announced := e.announced ++ [⟨m, id, a⟩] }, .ok ())

end Engine
end WalletHub
