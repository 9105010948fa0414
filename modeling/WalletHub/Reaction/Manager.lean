import WalletHub.Reaction.Wallet

/-!
# Reactions of managers

What callbacks about a manager, its wallets and their transfers do to the manager. A deleted
manager takes no callbacks, and hearing of its deletion once more does nothing.
-/
namespace WalletHub.Manager

/-- The notices of a manager's end: its wallets go first. -/
def retirement (m : Manager) : List Notice :=
  m.wallets.records.flatMap Wallet.retirement
  ++ [.manager m.handle (.changed m.state .deleted), .manager m.handle .deleted,
    .hub (.managerDeleted m.handle)]

/-- Moves to a new state and announces it, followed by more notices. -/
def moveTo (m : Manager) (new : ManagerState) (more : List Notice) : Reaction Manager :=
  match m.transition new with
  | .error e => .discard m (.transition e)
  | .ok none => .still m
  | .ok (some m') => .announce m' (.manager m.handle (.changed m.state new) :: more)

/-- Every transfer of every wallet, oldest first. -/
def transfers (m : Manager) : List Transfer := m.wallets.records.flatMap (·.transfers.records)

/-- What a transfer says at a new height, none if its confirmations cannot be counted. A transfer
that is settled for good says nothing. -/
def confirmationNotices? (height : UInt64) (limit : UInt32) (t : Transfer) :
    Option (List Notice) :=
  match t.confirmationsAt height with
  | .pending => some []
  | .overflow => none
  | .count n =>
    if n.toNat ≤ limit.toNat then some [.transfer t.path (.confirmationsUpdated n)] else some []

/-- Takes over a height, and tells how many confirmations every included transfer has now. -/
def receiveHeight (m : Manager) (height : UInt64) : Reaction Manager :=
  match m.setHeight height with
  | none => .still m
  | some m' =>
    match m.transfers.mapM (confirmationNotices? height m.network.confirmationsUntilFinal) with
    | none => ⟨m', [], 0, some .overflow⟩
    | some notices => .announce m' (.manager m.handle (.blockUpdated height) :: notices.flatten)

/-- What a callback about the manager itself does, short of its deletion. -/
def reactLive (m : Manager) : ManagerCallback → Reaction Manager
  | .created | .deleted => .still m
  | .connected => m.moveTo .connected []
  | .disconnected reason => m.moveTo (.disconnected reason) []
  | .syncStarted => m.moveTo .syncing [.manager m.handle .syncStarted]
  | .syncProgress percent timestamp =>
    if m.state = .syncing then
      .announce m [.manager m.handle (.syncProgress percent.clampPercent timestamp)]
    else .still m
  | .syncStopped reason =>
    let ended := [Notice.manager m.handle (.syncEnded reason)]
    if m.state = .syncing then m.moveTo .connected ended else .announce m ended
  | .blockHeightUpdated height => m.receiveHeight height

/-- Lets go of all wallets and ends. -/
def retire (m : Manager) : Reaction Manager :=
  .announce { m with wallets := .empty, state := .deleted } m.retirement

/-- The error for everything that comes for a deleted manager. -/
def ifLive (m : Manager) (r : Reaction Manager) : Reaction Manager :=
  if m.state = .deleted then .discard m (.resolution (.managerDeleted m.handle)) else r

/-- What a callback about the manager itself does. -/
def react (m : Manager) : ManagerCallback → Reaction Manager
  | .deleted => if m.state = .deleted then .still m else m.retire
  | c => m.ifLive (m.reactLive c)

/-- The reaction of the manager when one of its wallets reacts. -/
def withWallet (m : Manager) (h : WalletHandle) (f : Wallet → Reaction Wallet) :
    Reaction Manager :=
  match m.wallets.find? h with
  | none => .discard m (.resolution (.unknownWallet ⟨m.handle, h⟩))
  | some w => (f w).map fun w' => { m with wallets := m.wallets.modify h fun _ => w' }

/-- A new wallet, with what its engine says of it. -/
def newWallet (m : Manager) (reads : EngineReads) (h : WalletHandle) (c : Currency) :
    Reaction Wallet :=
  ((Wallet.create ⟨m.handle, h⟩ c (m.feeCurrencyFor c)).refreshBalance reads).andThen
    (Wallet.refreshFeeBasis reads)

/-- Admits a wallet for a currency of the network. One that is known already stays as it is. The
first wallet of the native currency is the primary one. -/
def admitWallet (m : Manager) (reads : EngineReads) (h : WalletHandle) (code : String) :
    Reaction Manager :=
  match m.network.currency? code with
  | none => .discard m (.resolution (.unknownCurrency m.network.name code))
  | some c =>
    if m.wallets.contains h then .still m
    else
      let primary :=
        if sameCode c.code m.network.nativeCurrency ∧ m.primaryWallet = none then some h
        else m.primaryWallet
      let opened := [Notice.wallet ⟨m.handle, h⟩ .created, .manager m.handle (.walletAdded h)]
      let r := m.newWallet reads h c
      ⟨{ m with wallets := (m.wallets.findOrCreate h r.value).1, primaryWallet := primary },
        opened ++ r.notices, r.unread, r.fault⟩

/-- Lets go of a wallet. -/
def dropWallet (m : Manager) (h : WalletHandle) : Reaction Manager :=
  match m.wallets.find? h with
  | none => .discard m (.resolution (.unknownWallet ⟨m.handle, h⟩))
  | some w => .announce { m with wallets := m.wallets.erase h } w.retirement

/-- What a callback about one of its wallets does to the manager. -/
def reactWallet (m : Manager) (reads : EngineReads) (h : WalletHandle) (c : WalletCallback) :
    Reaction Manager :=
  m.ifLive <|
    match c with
    | .created code => m.admitWallet reads h code
    | .balanceUpdated raw => m.withWallet h fun w =>
      match w.normalizeBalance raw with
      | .error e => .discard w (.decode e)
      | .ok balance => w.receiveBalance balance
    | .defaultFeeBasisUpdated raw => m.withWallet h fun w =>
      match w.normalizeFeeBasis raw with
      | .error e => .discard w (.decode e)
      | .ok basis => w.receiveFeeBasis basis
    | .deleted => m.dropWallet h

/-- What a callback about a transfer of one of its wallets does to the manager. -/
def reactTransfer (m : Manager) (reads : EngineReads) (h : WalletHandle) (t : TransferHandle)
    (c : TransferCallback) : Reaction Manager :=
  m.ifLive <| m.withWallet h fun w => w.reactTransfer reads t c

end WalletHub.Manager
