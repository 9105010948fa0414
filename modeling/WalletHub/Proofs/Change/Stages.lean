import WalletHub.Proofs.Change.Place
import WalletHub.Proofs.Stages

/-!
# Changes as parts of lives

Every change of the records is one change, or none, in the life of each manager, each wallet and
each transfer, and the notices of the change mark it (`Tree.Change.managerStage`,
`Tree.Change.walletStage`, `Tree.Change.transferStage`). Transfers and wallets are gone at their
end, managers stay.
-/
namespace WalletHub

/-! ## Marks -/

def TransferNotice.mark : TransferNotice → Mark TransferState
  | .created => .opens
  | .changed old new => .moves old new
  | .confirmationsUpdated _ => .speaks
  | .deleted => .closes

def WalletNotice.mark : WalletNotice → Mark WalletState
  | .created => .opens
  | .changed old new => .moves old new
  | .deleted => .closes
  | _ => .speaks

def ManagerNotice.mark : ManagerNotice → Mark ManagerState
  | .created => .opens
  | .changed old new => .moves old new
  | .deleted => .closes
  | _ => .speaks

/-- How a notice marks the life of a transfer. -/
def transferMark? (p : TransferPath) : Notice → Option (Mark TransferState)
  | .transfer q n => if q = p then some n.mark else none
  | _ => none

/-- How a notice marks the life of a wallet. -/
def walletMark? (p : WalletPath) : Notice → Option (Mark WalletState)
  | .wallet q n => if q = p then some n.mark else none
  | _ => none

/-- How a notice marks the life of a manager. -/
def managerMark? (h : ManagerHandle) : Notice → Option (Mark ManagerState)
  | .manager k n => if k = h then some n.mark else none
  | _ => none

def transferMarks (p : TransferPath) (ns : List Notice) : List (Mark TransferState) :=
  ns.filterMap (transferMark? p)

def walletMarks (p : WalletPath) (ns : List Notice) : List (Mark WalletState) :=
  ns.filterMap (walletMark? p)

def managerMarks (h : ManagerHandle) (ns : List Notice) : List (Mark ManagerState) :=
  ns.filterMap (managerMark? h)

abbrev TransferStage :
    Option TransferState → List (Mark TransferState) → Option TransferState → Prop :=
  Stage .created .deleted (fun a b => a.verdict b = .allowed) True

abbrev WalletStage : Option WalletState → List (Mark WalletState) → Option WalletState → Prop :=
  Stage .created .deleted (fun a b => a.verdict b = .allowed) True

abbrev ManagerStage (guarded : Prop) :
    Option ManagerState → List (Mark ManagerState) → Option ManagerState → Prop :=
  Stage .created .deleted (fun a b => a.verdict b = .allowed) guarded

/-! ## Notices of others leave no mark -/

theorem transferMark?_of_inWallet {p : TransferPath} {q : WalletPath} {n : Notice}
    (hn : n.InWallet q) (hne : p.parent ≠ q) : transferMark? p n = none := by
  cases n with
  | transfer r n =>
    have hr : r ≠ p := fun he => hne (he ▸ hn)
    simp [transferMark?, hr]
  | hub | manager | wallet => rfl

theorem transferMark?_of_inManager {p : TransferPath} {h : ManagerHandle} {n : Notice}
    (hn : n.InManager h) (hne : p.manager ≠ h) : transferMark? p n = none := by
  cases n with
  | transfer r n =>
    have hr : r ≠ p := fun he => hne (he ▸ hn)
    simp [transferMark?, hr]
  | hub | manager | wallet => rfl

theorem walletMark?_of_inWallet {p q : WalletPath} {n : Notice} (hn : n.InWallet q)
    (hne : p ≠ q) : walletMark? p n = none := by
  cases n with
  | wallet r n =>
    have hr : r ≠ p := fun he => hne (he ▸ hn.1)
    simp [walletMark?, hr]
  | hub | manager | transfer => rfl

theorem walletMark?_of_inManager {p : WalletPath} {h : ManagerHandle} {n : Notice}
    (hn : n.InManager h) (hne : p.manager ≠ h) : walletMark? p n = none := by
  cases n with
  | wallet r n =>
    have hr : r ≠ p := fun he => hne (he ▸ hn)
    simp [walletMark?, hr]
  | hub | manager | transfer => rfl

theorem managerMark?_of_inManager {k h : ManagerHandle} {n : Notice} (hn : n.InManager h)
    (hne : k ≠ h) : managerMark? k n = none := by
  cases n with
  | manager r n =>
    have hr : r ≠ k := fun he => hne (he ▸ hn.1)
    simp [managerMark?, hr]
  | hub | wallet | transfer => rfl

/-! ## What managers hold -/

variable {made : ManagerHandle → Prop} {guarded : Prop} {t t' : Tree} {ns : List Notice}

/-- What a change of one wallet is to the life of something in a wallet. -/
theorem stage_wallets {σ : Type} {born dead : σ} {R : σ → σ → Prop} {look : Wallet → Option σ}
    {mark? : Notice → Option (Mark σ)} {m : Manager} {h k : WalletHandle} {w w' : Wallet}
    (known : m.wallets.find? k = some w) (place : w.path = ⟨m.handle, k⟩)
    (change : Wallet.Change w ns w')
    (others : ∀ {n q}, n.InWallet q → (⟨m.handle, h⟩ : WalletPath) ≠ q → mark? n = none)
    (own : k = h → Stage born dead R guarded (look w) (ns.filterMap mark?) (look w')) :
    Stage born dead R guarded ((m.wallets.find? h).bind look) (ns.filterMap mark?)
      (((m.wallets.modify k fun _ => w').find? h).bind look) := by
  rw [Registry.find?_modify]
  by_cases hk : k = h
  · subst hk
    simpa only [if_true, known, Option.map_some, Option.bind_some] using own rfl
  · have hne : (⟨m.handle, h⟩ : WalletPath) ≠ w.path := by
      rw [place]
      exact fun he => hk (congrArg WalletPath.wallet he).symm
    have hnone : ns.filterMap mark? = [] :=
      List.filterMap_eq_nil_iff.2 fun n hn => others (change.inWallet n hn) hne
    rw [hnone, if_neg hk]
    exact .still _

/-- What a change of the records is to the life of something in a manager. -/
theorem Tree.Change.stage {σ : Type} {born dead : σ} {R : σ → σ → Prop}
    {look : Manager → Option σ} {mark? : Notice → Option (Mark σ)} {h : ManagerHandle}
    (hc : Tree.Change made guarded t ns t') (ht : t.Sound)
    (bare : ∀ {m}, m.wallets = .empty → look m = none)
    (silent : ∀ k, mark? (.manager k .created) = none ∧ mark? (.hub (.managerAdded k)) = none)
    (others : ∀ {n k}, n.InManager k → h ≠ k → mark? n = none)
    (own : ∀ {m m' ns}, m.handle = h → m.Sound → Manager.Change m ns m' →
      Stage born dead R True (look m) (ns.filterMap mark?) (look m')) :
    Stage born dead R True ((t.manager? h).bind look) (ns.filterMap mark?)
      ((t'.manager? h).bind look) := by
  cases hc with
  | indexed => exact .still _
  | @managerCreated k m fresh _ _ _ _ empty =>
    have hsame : ((t.managers.findOrCreate k m).1.find? h).bind look =
        (t.manager? h).bind look := by
      have hnone : t.managers.find? k = none := fresh
      rw [Registry.find?_findOrCreate, hnone, Option.getD_none]
      split
      · rename_i hk
        rw [← hk, fresh]
        exact bare empty
      · rfl
    rw [List.filterMap_cons_none (silent k).1, List.filterMap_cons_none (silent k).2,
      List.filterMap_nil]
    exact hsame.symm ▸ .still _
  | @manager m m' _ known step =>
    rw [manager?_put known step.2.handle]
    by_cases hk : m.handle = h
    · have hown := own hk (ht.sound known) step.2
      rw [hk] at known
      simpa only [hk, if_true, known, Option.bind_some] using hown
    · have hnone : ns.filterMap mark? = [] :=
        List.filterMap_eq_nil_iff.2 fun n hn => others (step.2.inManager n hn) (Ne.symm hk)
      rw [hnone, if_neg hk]
      exact .still _

/-! ## Transfers -/

/-- The state of a transfer, if the wallet has it. -/
def Wallet.transferState? (w : Wallet) (k : TransferHandle) : Option TransferState :=
  (w.transfers.find? k).map (·.state)

def Manager.transferState? (m : Manager) (h : WalletHandle) (k : TransferHandle) :
    Option TransferState :=
  (m.wallets.find? h).bind (·.transferState? k)

def Tree.transferState? (t : Tree) (p : TransferPath) : Option TransferState :=
  (t.manager? p.manager).bind (·.transferState? p.wallet p.transfer)

theorem Tree.transferState?_eq (t : Tree) (p : TransferPath) :
    t.transferState? p = (t.transfer? p).map (·.state) := by
  unfold transferState? transfer? wallet?
  cases h : t.manager? p.manager with
  | none => simp [TransferPath.parent, h]
  | some m =>
    simp only [Manager.transferState?, TransferPath.parent, h, Option.bind_some]
    cases m.wallets.find? p.wallet <;> rfl

theorem child_eq_iff {p : WalletPath} {h k : TransferHandle} : p.child h = p.child k ↔ h = k := by
  simp [WalletPath.child]

theorem Wallet.Change.transferStage {w w' : Wallet} {ns : List Notice} (hc : Wallet.Change w ns w')
    (k : TransferHandle) :
    TransferStage (w.transferState? k) (transferMarks (w.path.child k) ns)
      (w'.transferState? k) := by
  cases hc with
  | balance | feeBasis => exact .still _
  | @transferCreated h _ t read fresh =>
    simp only [transferMarks, transferMark?, List.filterMap_cons, List.filterMap_nil, child_eq_iff,
      Wallet.transferState?, Registry.find?_findOrCreate, fresh, Option.getD_none]
    by_cases hk : h = k
    · subst hk
      have hborn := (path_of_decodeTransfer read).2
      simp only [if_true, fresh, Option.map_none, Option.map_some, hborn]
      exact .opened
    · simp only [hk, if_false]
      exact .still _
  | @hashed h t _ x known =>
    have hsame : (w.withTransfer h (t.setHash x)).transferState? k = w.transferState? k := by
      simp only [Wallet.transferState?, withTransfer, Registry.find?_modify]
      by_cases hk : h = k
      · subst hk
        simp [known, Transfer.setHash]
      · simp [hk]
    rw [hsame]
    exact .still _
  | @transferMoved h t new known allowed alive =>
    simp only [transferMarks, transferMark?, List.filterMap_cons, List.filterMap_nil, child_eq_iff,
      Wallet.transferState?, withTransfer, Registry.find?_modify]
    by_cases hk : h = k
    · subst hk
      simp only [if_true, known, Option.map_some]
      exact .moved allowed alive
    · simp only [hk, if_false]
      exact .still _
  | @transferRetired h t known live =>
    simp only [transferMarks, transferMark?, List.filterMap_cons, List.filterMap_nil, child_eq_iff,
      Wallet.transferState?, Registry.find?_erase]
    by_cases hk : h = k
    · subst hk
      simp only [if_true, known, Option.map_some, Option.map_none]
      exact .gone (TransferState.verdict_deleted live)
    · simp only [hk, if_false]
      exact .still _

/-- A manager with the same wallets, or the change of one of them, has the same transfers or the
change of that wallet. -/
theorem Manager.Change.transferStage {m m' : Manager} {ns : List Notice}
    (hc : Manager.Change m ns m') (hm : m.Sound) (h : WalletHandle) (k : TransferHandle) :
    TransferStage (m.transferState? h k) (transferMarks ⟨m.handle, h, k⟩ ns)
      (m'.transferState? h k) := by
  cases hc with
  | moved | raised | retired | modeSet => exact .still _
  | spoke => exact .still _
  | @confirmed h' w k' t n wallet known =>
    by_cases hk : (⟨m.handle, h', k'⟩ : TransferPath) = ⟨m.handle, h, k⟩
    · cases hk
      simp only [transferMarks, transferMark?, List.filterMap_cons, List.filterMap_nil, if_true,
        Manager.transferState?, wallet, Option.bind_some, Wallet.transferState?, known,
        Option.map_some]
      exact .spoke fun _ => (hm.sound wallet).live known
    · simp only [transferMarks, transferMark?, List.filterMap_cons, List.filterMap_nil, hk,
        if_false]
      exact .still _
  | @walletCreated h' _ c _ fresh =>
    have hsame : (m.wallets.findOrCreate h' (Wallet.create ⟨m.handle, h'⟩ c
        (m.feeCurrencyFor c))).1.find? h = if h' = h then some (Wallet.create ⟨m.handle, h'⟩ c
        (m.feeCurrencyFor c)) else m.wallets.find? h := by
      rw [Registry.find?_findOrCreate, fresh, Option.getD_none]
    simp only [Manager.transferState?, hsame]
    by_cases hk : h' = h
    · subst hk
      simp only [if_true, fresh]
      exact .still _
    · simp only [hk, if_false]
      exact .still _
  | @wallet h' w w' ns known place change =>
    refine stage_wallets known place change
      (fun hn hne => transferMark?_of_inWallet hn hne) fun hk => ?_
    subst hk
    have hstage := change.transferStage k
    rwa [place] at hstage
  | @walletRetired h' w known born bare =>
    simp only [Manager.transferState?, Registry.find?_erase]
    by_cases hk : h' = h
    · subst hk
      simp only [if_true, known, Option.bind_some, Wallet.transferState?, bare, Option.bind_none]
      exact .still _
    · simp only [hk, if_false]
      exact .still _

/-- **Transfers.** A change of the records is at most one change in the life of a transfer. -/
theorem Tree.Change.transferStage (hc : Tree.Change made guarded t ns t') (ht : t.Sound)
    (p : TransferPath) :
    TransferStage (t.transferState? p) (transferMarks p ns) (t'.transferState? p) := by
  refine hc.stage ht (fun bare => by simp [Manager.transferState?, bare])
    (fun _ => ⟨rfl, rfl⟩) transferMark?_of_inManager fun hm sound change => ?_
  have hstage := change.transferStage sound p.wallet p.transfer
  rwa [hm] at hstage

/-! ## Wallets -/

/-- The state of a wallet, if the manager has it. -/
def Manager.walletState? (m : Manager) (h : WalletHandle) : Option WalletState :=
  (m.wallets.find? h).map (·.state)

def Tree.walletState? (t : Tree) (p : WalletPath) : Option WalletState :=
  (t.manager? p.manager).bind (·.walletState? p.wallet)

/-- A change of a wallet is spoken of once or not at all. -/
theorem Wallet.Change.walletStage {w w' : Wallet} {ns : List Notice} (hc : Wallet.Change w ns w')
    (born : w.state = .created) :
    WalletStage (some w.state) (walletMarks w.path ns) (some w'.state) := by
  rw [hc.state]
  have spoke : WalletStage (some w.state) [.speaks] (some w.state) := .spoke fun _ => by simp [born]
  cases hc with
  | hashed => exact .still _
  | balance | feeBasis | transferCreated | transferRetired =>
    simpa [walletMarks, walletMark?, List.filterMap_cons, WalletNotice.mark] using spoke
  | @transferMoved _ _ new =>
    cases new <;> simpa [walletMarks, walletMark?, List.filterMap_cons, transferNotice,
      WalletNotice.mark] using spoke

theorem Manager.Change.walletStage {m m' : Manager} {ns : List Notice} (hc : Manager.Change m ns m')
    (hm : m.Sound) (h : WalletHandle) :
    WalletStage (m.walletState? h) (walletMarks ⟨m.handle, h⟩ ns) (m'.walletState? h) := by
  cases hc with
  | moved | raised | retired | modeSet | spoke | confirmed => exact .still _
  | @walletCreated h' _ c _ fresh =>
    simp only [walletMarks, walletMark?, List.filterMap_cons, List.filterMap_nil,
      WalletPath.mk.injEq, true_and, Manager.walletState?, Registry.find?_findOrCreate, fresh,
      Option.getD_none]
    by_cases hk : h' = h
    · subst hk
      simp only [if_true, fresh, Option.map_none, Option.map_some]
      exact .opened
    · simp only [hk, if_false]
      exact .still _
  | @wallet h' w w' ns known place change =>
    simp only [Manager.walletState?, Option.map_eq_bind]
    refine stage_wallets known place change walletMark?_of_inWallet fun hk => ?_
    subst hk
    have hstage := change.walletStage (hm.born known)
    rwa [place] at hstage
  | @walletRetired h' w known born bare =>
    simp only [walletMarks, walletMark?, List.filterMap_cons, List.filterMap_nil,
      WalletPath.mk.injEq, true_and, Manager.walletState?, Registry.find?_erase]
    by_cases hk : h' = h
    · subst hk
      simp only [if_true, known, born, Option.map_some, Option.map_none]
      exact .gone rfl
    · simp only [hk, if_false]
      exact .still _

/-- **Wallets.** A change of the records is at most one change in the life of a wallet. -/
theorem Tree.Change.walletStage (hc : Tree.Change made guarded t ns t') (ht : t.Sound)
    (p : WalletPath) : WalletStage (t.walletState? p) (walletMarks p ns) (t'.walletState? p) := by
  refine hc.stage ht (fun bare => by simp [Manager.walletState?, bare])
    (fun _ => ⟨rfl, rfl⟩) walletMark?_of_inManager fun hm sound change => ?_
  have hstage := change.walletStage sound p.wallet
  rwa [hm] at hstage

/-! ## Managers -/

/-- The state of a manager, if there is one. -/
def Tree.managerState? (t : Tree) (h : ManagerHandle) : Option ManagerState :=
  (t.manager? h).map (·.state)

/-- A change of a wallet makes its manager speak once or not at all. -/
theorem Wallet.Change.managerStage {w w' : Wallet} {ns : List Notice} (hc : Wallet.Change w ns w')
    {s : ManagerState} (live : guarded → s ≠ .deleted) :
    ManagerStage guarded (some s) (managerMarks w.path.manager ns) (some s) := by
  have spoke : ManagerStage guarded (some s) [.speaks] (some s) := .spoke live
  cases hc with
  | hashed | transferCreated | transferRetired | transferMoved => exact .still _
  | balance | feeBasis =>
    simpa [managerMarks, managerMark?, List.filterMap_cons, ManagerNotice.mark] using spoke

theorem Manager.Change.managerStage {m m' : Manager} {ns : List Notice}
    (hc : Manager.Change m ns m') (live : guarded → m.state ≠ .deleted) :
    ManagerStage guarded (some m.state) (managerMarks m.handle ns) (some m'.state) := by
  have spoke : ManagerStage guarded (some m.state) [.speaks] (some m.state) := .spoke live
  cases hc with
  | modeSet | confirmed => exact .still _
  | @moved new allowed alive =>
    have moved : ManagerStage guarded (some m.state) [.moves m.state new] (some new) :=
      .moved allowed alive
    simpa [managerMarks, managerMark?, List.filterMap_cons, ManagerNotice.mark] using moved
  | @spoke n sync =>
    cases n with
    | syncStarted | syncProgress | syncEnded =>
      simpa [managerMarks, managerMark?, List.filterMap_cons, ManagerNotice.mark] using spoke
    | _ => cases sync
  | raised | walletCreated | walletRetired =>
    simpa [managerMarks, managerMark?, List.filterMap_cons, ManagerNotice.mark] using spoke
  | wallet known place change =>
    have hstage := change.managerStage live
    rwa [place] at hstage
  | retired hlive =>
    have ended : ManagerStage guarded (some m.state)
        [.moves m.state .deleted, .closes] (some .deleted) :=
      .ended (ManagerState.verdict_deleted hlive)
    simpa [managerMarks, managerMark?, List.filterMap_cons, ManagerNotice.mark] using ended

/-- **Managers.** A change of the records is at most one change in the life of a manager. -/
theorem Tree.Change.managerStage (hc : Tree.Change made guarded t ns t') (h : ManagerHandle) :
    ManagerStage guarded (t.managerState? h) (managerMarks h ns) (t'.managerState? h) := by
  cases hc with
  | indexed => exact .still _
  | @managerCreated k m fresh _ _ born =>
    have hnone : t.managers.find? k = none := fresh
    simp only [managerMarks, managerMark?, List.filterMap_cons, List.filterMap_nil,
      Tree.managerState?, Tree.manager?, Registry.find?_findOrCreate, hnone, Option.getD_none]
    by_cases hk : k = h
    · subst hk
      simp only [if_true, hnone, Option.map_none, Option.map_some, born]
      exact .opened
    · simp only [hk, if_false]
      exact .still _
  | @manager m m' _ known step =>
    simp only [Tree.managerState?, Tree.manager?_put known step.2.handle]
    by_cases hk : m.handle = h
    · subst hk
      simp only [if_true, known, Option.map_some]
      exact step.2.managerStage step.1
    · have hnone : managerMarks h ns = [] := List.filterMap_eq_nil_iff.2 fun n hn =>
        managerMark?_of_inManager (step.2.inManager n hn) (Ne.symm hk)
      rw [hnone, if_neg hk]
      exact .still _

/-! ## Heights -/

/-- The height of a manager is no part of any state. -/
theorem Tree.states_raised {m : Manager} (known : t.manager? m.handle = some m) (height : UInt64) :
    (∀ p, (t.put { m with height := height }).transferState? p = t.transferState? p) ∧
      (∀ p, (t.put { m with height := height }).walletState? p = t.walletState? p) ∧
      ∀ h, (t.put { m with height := height }).managerState? h = t.managerState? h := by
  have look : ∀ {α : Type} (f : Manager → Option α), f { m with height := height } = f m →
      ∀ h, ((t.put { m with height := height }).manager? h).bind f = (t.manager? h).bind f := by
    intro α f hf h
    rw [manager?_put known (by rfl)]
    split
    · rename_i hk
      rw [← hk, known]
      exact hf
    · rfl
  refine ⟨fun p => look _ rfl p.manager, fun p => look _ rfl p.manager, fun h => ?_⟩
  simp only [managerState?, Option.map_eq_bind]
  exact look (some ∘ (·.state)) rfl h

end WalletHub
