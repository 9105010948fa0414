import WalletHub.Proofs.Replay.Replica

/-!
# Echoes

What is told of a record is repeated, shortly, by the record that holds it: a manager says that a
wallet was added, changed or deleted, a wallet says so of its transfers, the hub of its managers. So
echoes can be foretold from the notices that they repeat (`Tree.Change.echoes`), and one who listens
to echoes alone still knows which records there are, and in which order (`sameMembers_replay`).
-/
namespace WalletHub

namespace Notice

/-- Whether a record speaks of one that it holds. -/
def isEcho : Notice → Bool
  | .hub (.managerAdded _) | .hub (.managerDeleted _) => true
  | .manager _ (.walletAdded _) | .manager _ (.walletChanged _) | .manager _ (.walletDeleted _) =>
    true
  | .wallet _ (.transferAdded _) | .wallet _ (.transferChanged _)
  | .wallet _ (.transferSubmitted _) | .wallet _ (.transferDeleted _) => true
  | _ => false

/-- The echo of a notice. A transfer that moves to its end is not said to have changed. -/
def echo? : Notice → Option Notice
  | .manager h .created => some (.hub (.managerAdded h))
  | .manager h .deleted => some (.hub (.managerDeleted h))
  | .wallet p .created => some (.manager p.manager (.walletAdded p.wallet))
  | .wallet p (.balanceUpdated _) | .wallet p (.feeBasisUpdated _) =>
    some (.manager p.manager (.walletChanged p.wallet))
  | .wallet p .deleted => some (.manager p.manager (.walletDeleted p.wallet))
  | .transfer p .created => some (.wallet p.parent (.transferAdded p))
  | .transfer p (.changed _ new) =>
    if new = .deleted then none else some (.wallet p.parent (Wallet.transferNotice p new))
  | .transfer p .deleted => some (.wallet p.parent (.transferDeleted p))
  | _ => none

/-- The creation or the end that an echo repeats. -/
def original? : Notice → Option Notice
  | .hub (.managerAdded h) => some (.manager h .created)
  | .hub (.managerDeleted h) => some (.manager h .deleted)
  | .manager h (.walletAdded w) => some (.wallet ⟨h, w⟩ .created)
  | .manager h (.walletDeleted w) => some (.wallet ⟨h, w⟩ .deleted)
  | .wallet _ (.transferAdded p) => some (.transfer p .created)
  | .wallet _ (.transferDeleted p) => some (.transfer p .deleted)
  | _ => none

/-- Whether a notice is the creation or the end of a record. -/
def isMembership : Notice → Bool
  | .manager _ .created | .manager _ .deleted => true
  | .wallet _ .created | .wallet _ .deleted => true
  | .transfer _ .created | .transfer _ .deleted => true
  | _ => false

theorem isEcho_of_original? {n o : Notice} (h : n.original? = some o) : n.isEcho = true := by
  unfold original? at h
  split at h <;> first | rfl | cases h

/-- Creations and ends, and nothing else, come back from their echoes. -/
theorem original?_echo? (n : Notice) :
    n.echo?.bind original? = if n.isMembership then some n else none := by
  cases n with
  | hub n => rfl
  | manager h n => cases n <;> rfl
  | wallet p n => cases n <;> rfl
  | transfer p n =>
    cases n with
    | changed old new => cases new <;> rfl
    | created | confirmationsUpdated | deleted => rfl

end Notice

/-! ## Every echo is in its place -/

theorem Wallet.Change.echoes {w w' : Wallet} {ns : List Notice} (hc : Wallet.Change w ns w') :
    ns.filter (·.isEcho) = ns.filterMap (·.echo?) := by
  cases hc with
  | balance | feeBasis | transferCreated | hashed | transferRetired => rfl
  | @transferMoved _ _ new _ _ alive =>
    cases new <;> first | rfl | exact absurd rfl alive

theorem Manager.Change.echoes {m m' : Manager} {ns : List Notice} (hc : Manager.Change m ns m') :
    ns.filter (·.isEcho) = ns.filterMap (·.echo?) := by
  cases hc with
  | moved | raised | confirmed | walletCreated | walletRetired | retired | modeSet => rfl
  | @spoke n sync => cases n <;> first | rfl | cases sync
  | wallet _ _ change => exact change.echoes

/-- The echoes of a change are those of its notices, in the same order. -/
theorem Tree.Change.echoes {made : ManagerHandle → Prop} {guarded : Prop} {t t' : Tree}
    {ns : List Notice} (hc : Tree.Change made guarded t ns t') :
    ns.filter (·.isEcho) = ns.filterMap (·.echo?) := by
  cases hc with
  | managerCreated | indexed => rfl
  | manager _ step => exact step.2.echoes

/-! ## Listening to echoes alone -/

/-- The same transfers in the same order. -/
def WalletReplica.SameMembers (a b : WalletReplica) : Prop :=
  Registry.Agree (fun _ _ => True) a.transfers b.transfers

/-- The same wallets and transfers in the same order. -/
def ManagerReplica.SameMembers (a b : ManagerReplica) : Prop :=
  Registry.Agree WalletReplica.SameMembers a.wallets b.wallets

/-- The same managers, wallets and transfers in the same order. -/
def Replica.SameMembers (a b : Replica) : Prop := Registry.Agree ManagerReplica.SameMembers a b

theorem WalletReplica.SameMembers.hear {a b : WalletReplica} (hab : a.SameMembers b)
    (n : Notice) : (a.hear n).SameMembers (if n.isMembership then b.hear n else b) := by
  cases n with
  | hub n | manager h n => cases n <;> exact hab
  | wallet p n => cases n <;> exact hab
  | transfer p n =>
    cases n with
    | created => exact Registry.Agree.findOrCreate hab p.transfer trivial
    | deleted => exact Registry.Agree.erase hab p.transfer
    | confirmationsUpdated => exact hab
    | changed old new =>
      have hmod := Registry.Agree.modify hab p.transfer (f := fun _ => new) (g := fun s => s)
        fun _ _ _ _ => trivial
      rwa [Registry.modify_id] at hmod

theorem ManagerReplica.SameMembers.hear {a b : ManagerReplica} (hab : a.SameMembers b)
    (n : Notice) : (a.hear n).SameMembers (if n.isMembership then b.hear n else b) := by
  -- what a wallet hears changes no wallet but one, and there only the transfers count
  have hwallet : ∀ (h : WalletHandle) (n : Notice),
      Registry.Agree WalletReplica.SameMembers (a.wallets.modify h fun w => w.hear n)
        (b.wallets.modify h fun w => if n.isMembership then w.hear n else w) :=
    fun h n => Registry.Agree.modify hab h fun _ _ _ hw => hw.hear n
  cases n with
  | hub n | manager h n => cases n <;> exact hab
  | wallet p n =>
    have hp := hwallet p.wallet (.wallet p n)
    cases n with
    | created => exact Registry.Agree.findOrCreate hab p.wallet .empty
    | deleted => exact Registry.Agree.erase hab p.wallet
    | _ => simpa [Notice.isMembership, ManagerReplica.SameMembers, ManagerReplica.hear] using hp
  | transfer p n =>
    have hp := hwallet p.wallet (.transfer p n)
    cases n <;>
      simpa [Notice.isMembership, ManagerReplica.SameMembers, ManagerReplica.hear] using hp

theorem Replica.SameMembers.hear {a b : Replica} (hab : Replica.SameMembers a b) (n : Notice) :
    Replica.SameMembers (Replica.hear a n) (if n.isMembership then Replica.hear b n else b) := by
  have hmanager : ∀ (h : ManagerHandle) (n : Notice),
      Registry.Agree ManagerReplica.SameMembers (a.modify h fun m => m.hear n)
        (b.modify h fun m => if n.isMembership then m.hear n else m) :=
    fun h n => Registry.Agree.modify hab h fun _ _ _ hm => hm.hear n
  cases n with
  | hub n => cases n <;> exact hab
  | manager h n =>
    have hp := hmanager h (.manager h n)
    cases n with
    | created => exact Registry.Agree.findOrCreate hab h .empty
    | _ => simpa [Notice.isMembership, Replica.SameMembers, Replica.hear] using hp
  | wallet p n =>
    have hp := hmanager p.manager (.wallet p n)
    cases n <;> simpa [Notice.isMembership, Replica.SameMembers, Replica.hear] using hp
  | transfer p n =>
    have hp := hmanager p.manager (.transfer p n)
    cases n <;> simpa [Notice.isMembership, Replica.SameMembers, Replica.hear] using hp

/-- The creations and the ends alone tell which records there are. -/
theorem sameMembers_foldl {a b : Replica} (hab : Replica.SameMembers a b) (ns : List Notice) :
    Replica.SameMembers (ns.foldl Replica.hear a)
      ((ns.filter (·.isMembership)).foldl Replica.hear b) := by
  induction ns generalizing a b with
  | nil => exact hab
  | cons n ns ih =>
    have hn := hab.hear n
    rw [List.foldl_cons, List.filter_cons]
    by_cases hm : n.isMembership
    · rw [if_pos hm] at hn ⊢
      exact ih hn
    · rw [if_neg hm] at hn ⊢
      exact ih hn

/-- Echoes that are all in their place bring back the creations and the ends. -/
theorem originals_of_echoes {ns : List Notice}
    (h : ns.filter (·.isEcho) = ns.filterMap (·.echo?)) :
    ns.filterMap (·.original?) = ns.filter (·.isMembership) := by
  have hall : ns.filterMap (·.original?) = (ns.filter (·.isEcho)).filterMap (·.original?) := by
    rw [List.filterMap_filter]
    refine List.filterMap_congr fun n _ => ?_
    by_cases he : n.isEcho
    · simp [he]
    · cases ho : n.original? with
      | none => simp
      | some o => exact absurd (Notice.isEcho_of_original? ho) he
  rw [hall, h, List.filterMap_filterMap, ← List.filterMap_eq_filter]
  refine List.filterMap_congr fun n _ => ?_
  rw [Notice.original?_echo?]
  simp [Option.guard]

theorem sameMembers_replay {ns : List Notice}
    (h : ns.filter (·.isEcho) = ns.filterMap (·.echo?)) :
    Replica.SameMembers (Replica.replay ns) (Replica.replay (ns.filterMap (·.original?))) := by
  rw [originals_of_echoes h]
  exact sameMembers_foldl (a := .empty) (b := .empty) .empty ns

/-! ## What is listed -/

/-- A replica lists the transfers of a wallet in their order. -/
def Wallet.Lists (w : Wallet) (r : WalletReplica) : Prop :=
  Registry.Agree (fun _ _ => True) w.transfers r.transfers

/-- A replica lists the wallets and the transfers of a manager in their order. -/
def Manager.Lists (m : Manager) (r : ManagerReplica) : Prop :=
  Registry.Agree Wallet.Lists m.wallets r.wallets

/-- A replica lists the managers, wallets and transfers in their order. -/
def Tree.Lists (t : Tree) (r : Replica) : Prop := Registry.Agree Manager.Lists t.managers r

theorem Tree.Mirrors.lists {t : Tree} {a b : Replica} (hm : t.Mirrors a)
    (hab : Replica.SameMembers a b) : t.Lists b :=
  Registry.Agree.comp hm hab fun _ _ _ hm hr =>
    Registry.Agree.comp hm.wallets hr fun _ _ _ hw hr =>
      Registry.Agree.comp hw.transfers hr fun _ _ _ _ _ => trivial

end WalletHub
