import WalletHub.Proofs.Change.Place

/-!
# Replicas

What a listener can know: for each manager that was announced its state, its height and its wallets,
for each wallet its balance, its default fee basis and its transfers, for each transfer its state. A
replica hears the notices one by one, and knows nothing else. It mirrors the records if it has the
same managers, wallets and transfers in the same order, and knows of each what the record says
(`Tree.Mirrors`); every change of the records, once heard, keeps that (`Tree.Mirrors.hear`).
-/
namespace WalletHub

/-- What is heard of a wallet: the last balance and the last fee basis, if there was one. -/
structure WalletReplica where
  balance : Option Amount
  feeBasis : Option FeeBasis
  transfers : Registry TransferHandle TransferState

structure ManagerReplica where
  state : ManagerState
  height : UInt64
  wallets : Registry WalletHandle WalletReplica

/-- All managers that were announced, in the order of their creation. -/
abbrev Replica := Registry ManagerHandle ManagerReplica

/-! ## Hearing -/

namespace WalletReplica

/-- A wallet of which nothing was heard but its creation. -/
def new : WalletReplica := ⟨none, none, .empty⟩

/-- What a notice about a wallet or one of its transfers changes. -/
def hear (r : WalletReplica) : Notice → WalletReplica
  | .wallet _ (.balanceUpdated a) => { r with balance := some a }
  | .wallet _ (.feeBasisUpdated b) => { r with feeBasis := some b }
  | .transfer p .created =>
    { r with transfers := (r.transfers.findOrCreate p.transfer .created).1 }
  | .transfer p (.changed _ s) => { r with transfers := r.transfers.modify p.transfer fun _ => s }
  | .transfer p .deleted => { r with transfers := r.transfers.erase p.transfer }
  | _ => r

end WalletReplica

namespace ManagerReplica

/-- A manager of which nothing was heard but its creation. -/
def new : ManagerReplica := ⟨.created, 0, .empty⟩

/-- What a notice about a manager or what it holds changes. -/
def hear (r : ManagerReplica) : Notice → ManagerReplica
  | .manager _ (.changed _ s) => { r with state := s }
  | .manager _ (.blockUpdated height) => { r with height := height }
  | .wallet p .created => { r with wallets := (r.wallets.findOrCreate p.wallet .new).1 }
  | .wallet p .deleted => { r with wallets := r.wallets.erase p.wallet }
  | .wallet p n => { r with wallets := r.wallets.modify p.wallet fun w => w.hear (.wallet p n) }
  | .transfer p n =>
    { r with wallets := r.wallets.modify p.wallet fun w => w.hear (.transfer p n) }
  | _ => r

end ManagerReplica

namespace Replica

/-- What a notice changes. -/
def hear (r : Replica) : Notice → Replica
  | .hub _ => r
  | .manager h .created => (r.findOrCreate h .new).1
  | .manager h n => r.modify h fun m => m.hear (.manager h n)
  | .wallet p n => r.modify p.manager fun m => m.hear (.wallet p n)
  | .transfer p n => r.modify p.manager fun m => m.hear (.transfer p n)

/-- What a listener knows who heard everything from the beginning. -/
def replay (ns : List Notice) : Replica := ns.foldl hear .empty

end Replica

/-- What is told of a wallet changes nothing but this wallet. -/
theorem ManagerReplica.foldl_hear {p : WalletPath} {ns : List Notice}
    (hns : ∀ n ∈ ns, n.InWallet p) (r : ManagerReplica) :
    ns.foldl hear r =
      { r with wallets := r.wallets.modify p.wallet fun w => ns.foldl WalletReplica.hear w } := by
  induction ns generalizing r with
  | nil => simp
  | cons n ns ih =>
    have hone : r.hear n = { r with wallets := r.wallets.modify p.wallet fun w => w.hear n } := by
      have hn := hns n List.mem_cons_self
      cases n with
      | hub n => exact hn.elim
      | manager h n => obtain ⟨-, rfl⟩ := hn; simp [hear, WalletReplica.hear]
      | wallet q n =>
        obtain ⟨rfl, hn⟩ := hn
        cases n <;> first | rfl | exact hn.elim
      | transfer q n => cases hn; rfl
    rw [List.foldl_cons, ih fun x hx => hns x (List.mem_cons_of_mem _ hx), hone]
    simp only [Registry.modify_modify, List.foldl_cons]

/-- What is told of a manager changes nothing but this manager. -/
theorem Replica.foldl_hear {h : ManagerHandle} {ns : List Notice}
    (hns : ∀ n ∈ ns, n.InManager h) (r : Replica) :
    ns.foldl hear r = r.modify h fun m => ns.foldl ManagerReplica.hear m := by
  induction ns generalizing r with
  | nil => simp
  | cons n ns ih =>
    have hone : hear r n = r.modify h fun m => m.hear n := by
      have hn := hns n List.mem_cons_self
      cases n with
      | hub n => simp [hear, ManagerReplica.hear]
      | manager k n =>
        obtain ⟨rfl, hn⟩ := hn
        cases n <;> first | rfl | exact absurd rfl hn
      | wallet p n => cases hn; rfl
      | transfer p n => cases hn; rfl
    rw [List.foldl_cons, ih (fun x hx => hns x (List.mem_cons_of_mem _ hx)), hone]
    simp only [Registry.modify_modify, List.foldl_cons]

/-! ## Mirroring -/

/-- A replica knows the balance, the fee basis, and the transfers with their states. -/
structure Wallet.Mirrors (w : Wallet) (r : WalletReplica) : Prop where
  balance : w.balance = r.balance.getD (.zero w.currency)
  feeBasis : w.defaultFeeBasis = r.feeBasis
  transfers : Registry.Agree (fun t s => t.state = s) w.transfers r.transfers

/-- A replica knows the state, the height, and the wallets. -/
structure Manager.Mirrors (m : Manager) (r : ManagerReplica) : Prop where
  state : m.state = r.state
  height : m.height = r.height
  wallets : Registry.Agree Wallet.Mirrors m.wallets r.wallets

/-- A replica knows the managers. -/
def Tree.Mirrors (t : Tree) (r : Replica) : Prop := Registry.Agree Manager.Mirrors t.managers r

theorem Wallet.mirrors_create (p : WalletPath) (c f : Currency) :
    (Wallet.create p c f).Mirrors .new := ⟨rfl, rfl, .empty⟩

theorem Wallet.Mirrors.hear {w w' : Wallet} {ns : List Notice} {r : WalletReplica}
    (hm : w.Mirrors r) (hc : Wallet.Change w ns w') :
    w'.Mirrors (ns.foldl WalletReplica.hear r) := by
  cases hc with
  | balance => exact ⟨rfl, hm.feeBasis, hm.transfers⟩
  | feeBasis => exact ⟨hm.balance, rfl, hm.transfers⟩
  | @transferCreated h _ t read =>
    exact ⟨hm.balance, hm.feeBasis,
      hm.transfers.findOrCreate h (Wallet.path_of_decodeTransfer read).2⟩
  | @hashed h t _ x known =>
    refine ⟨hm.balance, hm.feeBasis, ?_⟩
    have hsame := hm.transfers.modify h (f := fun _ => t.setHash x) (g := fun s => s)
      fun a s ha hs => by
        rw [known] at ha
        cases ha
        exact hs
    rwa [Registry.modify_id] at hsame
  | @transferMoved h t new =>
    have hmoved := hm.transfers.modify h (f := fun _ => { t with state := new })
      (g := fun _ => new) fun _ _ _ _ => rfl
    cases new <;> exact ⟨hm.balance, hm.feeBasis, hmoved⟩
  | @transferRetired h =>
    refine ⟨hm.balance, hm.feeBasis, ?_⟩
    simp only [List.foldl_cons, List.foldl_nil, WalletReplica.hear, Registry.erase_modify]
    exact hm.transfers.erase h

theorem Manager.Mirrors.hear {m m' : Manager} {ns : List Notice} {r : ManagerReplica}
    (hm : m.Mirrors r) (hc : Manager.Change m ns m') :
    m'.Mirrors (ns.foldl ManagerReplica.hear r) := by
  cases hc with
  | moved => exact ⟨rfl, hm.height, hm.wallets⟩
  | @spoke n sync => cases n <;> first | exact hm | cases sync
  | raised => exact ⟨hm.state, rfl, hm.wallets⟩
  | confirmed =>
    refine ⟨hm.state, hm.height, ?_⟩
    simp only [List.foldl_cons, List.foldl_nil, ManagerReplica.hear, WalletReplica.hear,
      Registry.modify_id]
    exact hm.wallets
  | @walletCreated h _ c =>
    exact ⟨hm.state, hm.height, hm.wallets.findOrCreate h (Wallet.mirrors_create ..)⟩
  | @wallet h w w' ns known place change =>
    have hin := change.inWallet
    rw [ManagerReplica.foldl_hear hin, place]
    refine ⟨hm.state, hm.height, hm.wallets.modify h fun a s ha hs => ?_⟩
    rw [known] at ha
    cases ha
    exact hs.hear change
  | @walletRetired h w =>
    refine ⟨hm.state, hm.height, ?_⟩
    simp only [List.foldl_cons, List.foldl_nil, ManagerReplica.hear, WalletReplica.hear,
      Registry.modify_id]
    exact hm.wallets.erase h
  | retired live bare => exact ⟨rfl, hm.height, hm.wallets⟩
  | modeSet => exact ⟨hm.state, hm.height, hm.wallets⟩

theorem Tree.Mirrors.hear {made : ManagerHandle → Prop} {guarded : Prop} {t t' : Tree}
    {ns : List Notice} {r : Replica} (hm : t.Mirrors r) (hc : Tree.Change made guarded t ns t') :
    t'.Mirrors (ns.foldl Replica.hear r) := by
  cases hc with
  | @managerCreated h m _ _ _ born height bare =>
    exact Registry.Agree.findOrCreate hm h ⟨born, height, bare ▸ .empty⟩
  | @manager m m' _ known step =>
    rw [Replica.foldl_hear step.2.inManager]
    rw [Tree.Mirrors, Tree.put, step.2.handle]
    refine Registry.Agree.modify hm m.handle fun a s ha hs => ?_
    rw [show t.managers.find? m.handle = some m from known] at ha
    cases ha
    exact hs.hear step.2
  | indexed => exact hm

end WalletHub
