import WalletHub.Proofs.Change.Tree

/-!
# Where changes are told

The notices of a change of a wallet are about the wallet and its transfers, short of its creation
and its end, which are its manager's to tell; the notices of a change of a manager are about the
manager and what it holds, short of its creation. So whoever listens for one record only can pass
over the changes of all others.
-/
namespace WalletHub

/-- What is told of a wallet between its creation and its end. -/
def Notice.InWallet (p : WalletPath) : Notice → Prop
  | .hub _ => False
  | .manager h n => h = p.manager ∧ n = .walletChanged p.wallet
  | .wallet q n =>
    q = p ∧ match n with
      | .created | .changed .. | .deleted => False
      | _ => True
  | .transfer q _ => q.parent = p

/-- What is told of a manager after its creation. -/
def Notice.InManager (h : ManagerHandle) : Notice → Prop
  | .hub n => n = .managerDeleted h
  | .manager k n => k = h ∧ n ≠ .created
  | .wallet p _ => p.manager = h
  | .transfer p _ => p.manager = h

theorem Wallet.Change.inWallet {w w' : Wallet} {ns : List Notice} (hc : Wallet.Change w ns w') :
    ∀ n ∈ ns, n.InWallet w.path := by
  intro n hn
  cases hc with
  | balance | feeBasis =>
    simp only [List.mem_cons, List.not_mem_nil, or_false] at hn
    rcases hn with rfl | rfl <;> simp [Notice.InWallet]
  | transferCreated =>
    simp only [List.mem_cons, List.not_mem_nil, or_false] at hn
    rcases hn with rfl | rfl <;> simp [Notice.InWallet]
  | hashed => cases hn
  | @transferMoved _ _ new =>
    simp only [List.mem_cons, List.not_mem_nil, or_false] at hn
    rcases hn with rfl | rfl
    · simp [Notice.InWallet]
    · cases new <;> simp [Notice.InWallet, transferNotice]
  | transferRetired =>
    simp only [List.mem_cons, List.not_mem_nil, or_false] at hn
    rcases hn with rfl | rfl | rfl <;> simp [Notice.InWallet]

theorem Notice.InWallet.inManager {p : WalletPath} {n : Notice} (hn : n.InWallet p) :
    n.InManager p.manager := by
  cases n with
  | hub n => exact hn.elim
  | manager h n => obtain ⟨rfl, rfl⟩ := hn; exact ⟨rfl, by simp⟩
  | wallet q n => exact congrArg WalletPath.manager hn.1
  | transfer q n => exact congrArg WalletPath.manager hn

theorem Manager.Change.inManager {m m' : Manager} {ns : List Notice}
    (hc : Manager.Change m ns m') : ∀ n ∈ ns, n.InManager m.handle := by
  intro n hn
  cases hc with
  | moved | raised =>
    rw [List.mem_singleton] at hn
    subst hn
    simp [Notice.InManager]
  | @spoke x sync =>
    rw [List.mem_singleton] at hn
    subst hn
    refine ⟨rfl, fun he => ?_⟩
    subst he
    cases sync
  | confirmed =>
    rw [List.mem_singleton] at hn
    subst hn
    simp [Notice.InManager]
  | walletCreated =>
    simp only [List.mem_cons, List.not_mem_nil, or_false] at hn
    rcases hn with rfl | rfl <;> simp [Notice.InManager]
  | wallet known place change =>
    have hin := (change.inWallet n hn).inManager
    rwa [place] at hin
  | walletRetired | retired =>
    simp only [List.mem_cons, List.not_mem_nil, or_false] at hn
    rcases hn with rfl | rfl | rfl <;> simp [Notice.InManager]
  | modeSet => cases hn

end WalletHub
