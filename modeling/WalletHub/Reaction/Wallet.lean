import WalletHub.Engine
import WalletHub.Reaction

/-!
# Reactions of wallets

What callbacks about a wallet and its transfers do to the wallet. The engine is asked for the
balance again whenever a transfer is admitted, settles or goes, so that the balance does not wait
for a callback of its own.
-/
namespace WalletHub

/-- The notices of a transfer's end. -/
def Transfer.retirement (t : Transfer) : List Notice :=
  (match t.transition .deleted with
    | .ok (some _) => [.transfer t.path (.changed t.state .deleted)]
    | _ => [])
  ++ [.transfer t.path .deleted, .wallet t.path.parent (.transferDeleted t.path)]

namespace Wallet

/-- The notices of a wallet's end: its transfers go first. -/
def retirement (w : Wallet) : List Notice :=
  w.transfers.records.flatMap Transfer.retirement
  ++ (match w.transition .deleted with
    | .ok (some _) => [.wallet w.path (.changed w.state .deleted)]
    | _ => [])
  ++ [.wallet w.path .deleted, .manager w.path.manager (.walletDeleted w.path.wallet)]

/-- Takes over a balance. -/
def receiveBalance (w : Wallet) (balance : Amount) : Reaction Wallet :=
  if balance = w.balance then .still w
  else .announce { w with balance := balance }
    [.wallet w.path (.balanceUpdated balance), .manager w.path.manager (.walletChanged w.path.wallet)]

/-- Takes over a default fee basis. -/
def receiveFeeBasis (w : Wallet) (basis : FeeBasis) : Reaction Wallet :=
  if w.defaultFeeBasis = some basis then .still w
  else .announce { w with defaultFeeBasis := some basis }
    [.wallet w.path (.feeBasisUpdated basis), .manager w.path.manager (.walletChanged w.path.wallet)]

/-- Asks the engine for the balance; one that cannot be read is passed over. -/
def refreshBalance (reads : EngineReads) (w : Wallet) : Reaction Wallet :=
  match reads.balance w.handle with
  | none => .still w
  | some raw =>
    match w.normalizeBalance raw with
    | .ok balance => w.receiveBalance balance
    | .error _ => ⟨w, [], 1, none⟩

/-- Asks the engine for the default fee basis; one that cannot be read is passed over. -/
def refreshFeeBasis (reads : EngineReads) (w : Wallet) : Reaction Wallet :=
  match reads.feeBasis w.handle with
  | none => .still w
  | some raw =>
    match w.normalizeFeeBasis raw with
    | .ok basis => w.receiveFeeBasis basis
    | .error _ => ⟨w, [], 1, none⟩

/-- Admits a transfer. One that is known already stays as it is, whatever is said of it now. -/
def admitTransfer (reads : EngineReads) (w : Wallet) (h : TransferHandle) (raw : RawTransfer) :
    Reaction Wallet :=
  match w.decodeTransfer h raw with
  | .error e => .discard w (.decode e)
  | .ok t =>
    match w.transfers.findOrCreate h t with
    | (_, _, false) => .still w
    | (transfers, _, true) =>
      let path := w.path.child h
      (Reaction.announce { w with transfers := transfers }
        [.transfer path .created, .wallet w.path (.transferAdded path)]).andThen
        (refreshBalance reads)

/-- The wallet with another record of one of its transfers. -/
def withTransfer (w : Wallet) (h : TransferHandle) (t : Transfer) : Wallet :=
  { w with transfers := w.transfers.modify h fun _ => t }

/-- What the wallet says when one of its transfers moved to a new state. -/
def transferNotice (path : TransferPath) : TransferState → WalletNotice
  | .submitted => .transferSubmitted path
  | _ => .transferChanged path

/-- Moves a transfer to a new state. A hash is kept even if the state does not follow. -/
def advance (reads : EngineReads) (w : Wallet) (h : TransferHandle) (hash : Option TransferHash)
    (new : TransferState) : Reaction Wallet :=
  let path := w.path.child h
  match w.transfers.find? h with
  | none => .discard w (.resolution (.unknownTransfer path))
  | some t =>
    let t := match hash with
      | some x => t.setHash x
      | none => t
    match t.transition new with
    | .error e => .discard (w.withTransfer h t) (.transition e)
    | .ok none => .still (w.withTransfer h t)
    | .ok (some t') =>
      let moved := Reaction.announce (w.withTransfer h t')
        [.transfer path (.changed t.state new), .wallet w.path (transferNotice path new)]
      match new with
      | .included _ | .failed _ => moved.andThen (refreshBalance reads)
      | _ => moved

/-- Lets go of a transfer. -/
def dropTransfer (reads : EngineReads) (w : Wallet) (h : TransferHandle) : Reaction Wallet :=
  match w.transfers.find? h with
  | none => .discard w (.resolution (.unknownTransfer (w.path.child h)))
  | some t =>
    (Reaction.announce { w with transfers := w.transfers.erase h } t.retirement).andThen
      (refreshBalance reads)

/-- Moves a transfer to a state that may come with a hash in octets. -/
def advanceHashed (reads : EngineReads) (w : Wallet) (h : TransferHandle)
    (hash : Option (List UInt8)) (new : TransferState) : Reaction Wallet :=
  match hash.mapM (TransferHash.decode w.backend) with
  | .error e => .discard w (.decode e)
  | .ok hash => w.advance reads h hash new

/-- What a callback about one of its transfers does to the wallet. -/
def reactTransfer (reads : EngineReads) (w : Wallet) (h : TransferHandle) :
    TransferCallback → Reaction Wallet
  | .created attributes => w.admitTransfer reads h attributes
  | .signed hash => w.advanceHashed reads h hash .signed
  | .submitted hash => w.advanceHashed reads h hash .submitted
  | .included blockNumber index timestamp fee =>
    match Amount.parse fee w.feeCurrency with
    | .error e => .discard w (.decode e)
    | .ok fee => w.advance reads h none (.included ⟨blockNumber, index, timestamp, fee⟩)
  | .errored error => w.advance reads h none (.failed error.failure)
  | .deleted => w.dropTransfer reads h

end Wallet
end WalletHub
