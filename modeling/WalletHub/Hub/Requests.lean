import WalletHub.Hub.State
import WalletHub.Reaction.Manager

/-!
# Requests

How requests of the application are handled. What can be checked in the records is checked before
the engine is asked, and what the engine refuses is not done, or undone.
-/
namespace WalletHub.Hub

/-- Makes a manager with the wallet of its native currency, or finds the one that serves the
account on the network. -/
def createManager (h : Hub) (p : ManagerParams) : Handling :=
  match h.tree.managerFor? p.account.id p.network.name with
  | some m => .answer h (.manager m)
  | none =>
    match p.network.native? with
    | none => .refuse h (.resolution (.unknownCurrency p.network.name p.network.nativeCurrency))
    | some native =>
      let backend := p.network.backend
      .requireEngine h backend fun e =>
      .issue h backend (e.createManager p) fun h (raw, primary) =>
        let handle : ManagerHandle := ⟨backend, raw⟩
        let (managers, record, created) := h.tree.managers.findOrCreate handle
          (.create handle p.account p.network p.mode p.storagePath)
        let opened : List Notice :=
          if created then [.manager handle .created, .hub (.managerAdded handle)] else []
        let tree := { h.tree with managers := managers }
        let r := record.admitWallet (h.reads backend) ⟨backend, primary⟩ native.code
        let done := Handling.commit { h with tree := tree } r (.manager handle)
        let tree := match done.result with
          | .ok _ => { done.hub.tree with
              index := done.hub.tree.index.put (p.account.id, p.network.name) handle }
          | .error _ => done.hub.tree
        { done with hub := { done.hub with tree := tree }, notices := opened ++ done.notices }

/-- Makes a wallet for a currency, or finds the oldest one that holds it. -/
def createWallet (h : Hub) (manager : ManagerHandle) (code : String) : Handling :=
  .requireEngine h manager.backend fun e =>
  .requireLive h manager "create wallet" fun m =>
  match m.network.currency? code with
  | none => .refuse h (.resolution (.unknownCurrency m.network.name code))
  | some c =>
    match m.walletFor? c.code with
    | some w => .answer h (.wallet w.path)
    | none =>
      .issue h manager.backend (e.createWallet manager.raw c) fun h raw =>
        let handle : WalletHandle := ⟨manager.backend, raw⟩
        .commit h (m.admitWallet (h.reads manager.backend) handle c.code)
          (.wallet ⟨manager, handle⟩)

/-- Starts the engine's work on the network, unless it is at work. -/
def connect (h : Hub) (manager : ManagerHandle) : Handling :=
  .requireEngine h manager.backend fun e =>
  .requireLive h manager "connect" fun m =>
  if m.state.isActive then .answer h .done
  else .issue h manager.backend (e.connect manager.raw) fun h _ => .answer h .done

/-- Ends the engine's work on the network. -/
def disconnect (h : Hub) (manager : ManagerHandle) : Handling :=
  .requireEngine h manager.backend fun e =>
  .requireLive h manager "disconnect" fun m =>
  .issue h manager.backend (e.disconnect manager.raw) fun h _ =>
    .commit h (m.moveTo (.disconnected .requested) []) .done

/-- Asks the engine to look through the whole chain again. -/
def sync (h : Hub) (manager : ManagerHandle) : Handling :=
  .requireEngine h manager.backend fun e =>
  .requireLive h manager "sync" fun _ =>
  .issue h manager.backend (e.sync manager.raw) fun h _ => .answer h .done

/-- The hub with a manager set back to another mode, if it can be. -/
def resetMode (h : Hub) (manager : ManagerHandle) (previous : ManagerMode) : Hub :=
  match h.tree.manager? manager with
  | none => h
  | some m =>
    match m.setMode previous with
    | .error _ => h
    | .ok (m', _) => h.withManager m'

/-- Changes the mode of a manager. The record is written before the engine is asked, and set back
if the engine refuses. -/
def setMode (h : Hub) (manager : ManagerHandle) (mode : ManagerMode) : Handling :=
  .requireEngine h manager.backend fun e =>
  match h.tree.manager? manager with
  | none => .refuse h (.resolution (.unknownManager manager))
  | some m =>
    match m.setMode mode with
    | .error err => .refuse h err
    | .ok (_, none) => .answer h .done
    | .ok (m', some previous) =>
      let reply := e.setMode manager.raw mode
      let asked := Handling.issue (h.withManager m') manager.backend reply fun h _ =>
        .answer h .done
      match reply.result with
      | .ok _ => asked
      | .error _ => { asked with hub := asked.hub.resetMode manager previous }

/-- The fee basis for a new transfer of a wallet, given or the wallet's own. -/
def feeBasisFor (w : Wallet) (amount : Amount) (given : Option FeeBasis) :
    Except HubError FeeBasis :=
  if sameCode amount.currency w.currency.code then
    match given.or w.defaultFeeBasis with
    | some b => .ok b
    | none =>
      .error (.invalidRequest "create transfer" "no fee basis given and the wallet has no default")
  else
    .error (.invalidRequest "create transfer"
      ("amount is in " ++ amount.currency ++ " but the wallet holds " ++ w.currency.code))

/-- Makes a transfer from a wallet. -/
def createTransfer (h : Hub) (wallet : WalletPath) (target : Address) (amount : Amount)
    (given : Option FeeBasis) : Handling :=
  let operation := "create transfer"
  let backend := wallet.manager.backend
  .requireEngine h backend fun e =>
  if target.backend ≠ backend then .violate h (.wrongBackend operation backend target.backend)
  else
    .requireLive h wallet.manager operation fun m =>
    match m.wallets.find? wallet.wallet with
    | none => .refuse h (.resolution (.unknownWallet wallet))
    | some w =>
      match feeBasisFor w amount given with
      | .error err => .refuse h err
      | .ok basis =>
        if basis.backend ≠ backend then .violate h (.wrongBackend operation backend basis.backend)
        else
          .issue h backend (e.createTransfer wallet.manager.raw wallet.wallet.raw
              ⟨target, amount, basis⟩) fun h (raw, attributes) =>
            let handle : TransferHandle := ⟨backend, raw⟩
            .commit h (m.withWallet wallet.wallet fun w =>
              w.admitTransfer (h.reads backend) handle attributes) (.transfer (wallet.child handle))

/-- Hands a transfer over to be sent. -/
def submit (h : Hub) (path : TransferPath) (auth : SubmitAuth) : Handling :=
  let operation := "submit transfer"
  .requireEngine h path.manager.backend fun e =>
  .requireLive h path.manager operation fun _ =>
  match h.tree.transfer? path with
  | none => .refuse h (.resolution (.unknownTransfer path))
  | some t =>
    match t.state with
    | .created | .signed =>
      .issue h path.manager.backend
        (e.submit path.manager.raw path.wallet.raw path.transfer.raw auth) fun h _ =>
          .answer h .done
    | other =>
      .refuse h (.invalidRequest operation ("transfer " ++ path.text ++ " is already " ++ other.text))

/-- What becomes of a request. -/
def onRequest (h : Hub) : Request → Handling
  | .createManager p => h.createManager p
  | .createWallet m code => h.createWallet m code
  | .connect m => h.connect m
  | .disconnect m => h.disconnect m
  | .sync m => h.sync m
  | .setMode m mode => h.setMode m mode
  | .createTransfer w target amount basis => h.createTransfer w target amount basis
  | .submit t auth => h.submit t auth

end WalletHub.Hub
