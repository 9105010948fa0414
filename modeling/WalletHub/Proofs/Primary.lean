import WalletHub.Proofs.Run

/-!
# Primary wallets

A manager keeps the handle of its primary wallet beside its wallets. The handle is written when the
first wallet of the native currency is created, and never again. So it is right as long as that
wallet is there (`primary_course`). Once the wallet is deleted the handle leads nowhere, or to
whatever is created under it later, even while another wallet holds the native currency
(`primary_stale`).
-/
namespace WalletHub

/-! ## Codes -/

theorem sameCode_iff {a b : String} : sameCode a b ↔ lowered a = lowered b := by
  simp [sameCode]

namespace Network

theorem sameCode_of_currency? {n : Network} {code : String} {c : Currency}
    (h : n.currency? code = some c) : sameCode c.code code := by
  unfold currency? at h
  simpa using List.find?_some h

/-- A currency is found under every way of writing its code. -/
theorem currency?_congr {n : Network} {a b : String} (h : sameCode a b) :
    n.currency? a = n.currency? b := by
  have hab := sameCode_iff.1 h
  unfold currency?
  congr 1
  funext c
  simp only [sameCode, hab]

/-- A currency of a network is found under its own code. -/
theorem currency?_self {n : Network} {code : String} {c : Currency}
    (listed : n.currency? code = some c) : n.currency? c.code = some c :=
  (currency?_congr (sameCode_of_currency? listed)).trans listed

/-- Among the currencies of a network, the native one is known by its code. -/
theorem native?_eq_some_iff {n : Network} {code : String} {c : Currency}
    (listed : n.currency? code = some c) :
    n.native? = some c ↔ sameCode c.code n.nativeCurrency := by
  constructor
  · exact sameCode_of_currency?
  · intro h
    have hcode := sameCode_of_currency? listed
    rw [← listed, native?]
    refine currency?_congr (sameCode_iff.2 ?_)
    rw [← sameCode_iff.1 h, sameCode_iff.1 hcode]

end Network

/-! ## Managers -/

namespace Manager

/-- The primary wallet of a manager, if its handle is set, is one of its wallets and holds the
native currency; and there is one if any wallet holds the native currency. -/
structure PrimaryHolds (m : Manager) : Prop where
  named : ∀ h, m.primaryWallet = some h →
    ∃ w, m.wallets.find? h = some w ∧ m.network.native? = some w.currency
  found : ∀ h w, m.wallets.find? h = some w → m.network.native? = some w.currency →
    m.primary?.isSome

/-- What is left of that once `ns` was told: the first wallet of the native currency becomes the
primary one, and it stays what it is until it is told to be deleted. -/
structure PrimaryKept (ns : List Notice) (m : Manager) : Prop where
  unset : m.primaryWallet = none →
    ∀ h w, m.wallets.find? h = some w → m.network.native? ≠ some w.currency
  kept : ∀ h, m.primaryWallet = some h → .wallet ⟨m.handle, h⟩ .deleted ∉ ns →
    ∃ w, m.wallets.find? h = some w ∧ m.network.native? = some w.currency

variable {m m' : Manager} {ns told : List Notice}

theorem PrimaryKept.holds (hm : m.PrimaryKept ns)
    (intact : ∀ h, m.primaryWallet = some h → .wallet ⟨m.handle, h⟩ .deleted ∉ ns) :
    m.PrimaryHolds := by
  have named : ∀ h, m.primaryWallet = some h →
      ∃ w, m.wallets.find? h = some w ∧ m.network.native? = some w.currency :=
    fun h hp => hm.kept h hp (intact h hp)
  refine ⟨named, fun h w hw hnative => ?_⟩
  cases hp : m.primaryWallet with
  | none => exact absurd hnative (hm.unset hp h w hw)
  | some p =>
    obtain ⟨v, hv, -⟩ := named p hp
    simp [primary?, hp, hv]

theorem PrimaryHolds.kept (hm : m.PrimaryHolds) (ns : List Notice) : m.PrimaryKept ns := by
  refine ⟨fun hp h w hw hnative => ?_, fun h hp _ => hm.named h hp⟩
  have hsome := hm.found h w hw hnative
  simp [primary?, hp] at hsome

/-- With no wallet of its own that is the native one, nothing is owed. -/
theorem PrimaryKept.of_bare (bare : m.wallets = .empty) (unset : m.primaryWallet = none) :
    m.PrimaryKept ns := by
  refine ⟨fun _ h w hw => ?_, fun h hp => ?_⟩
  · rw [bare] at hw
    cases hw
  · rw [unset] at hp
    cases hp

/-- A change that leaves the wallets of the native currency, and does not delete the primary one,
leaves what is owed. -/
theorem PrimaryKept.mono (hm : m.PrimaryKept told) (handle : m'.handle = m.handle)
    (network : m'.network = m.network) (primary : m'.primaryWallet = m.primaryWallet)
    (back : ∀ {h w'}, m'.wallets.find? h = some w' →
      ∃ w, m.wallets.find? h = some w ∧ w'.currency = w.currency)
    (forth : ∀ {h w}, m.wallets.find? h = some w → .wallet ⟨m.handle, h⟩ .deleted ∉ ns →
      ∃ w', m'.wallets.find? h = some w' ∧ w'.currency = w.currency) :
    m'.PrimaryKept (told ++ ns) := by
  refine ⟨fun hp h w' hw' => ?_, fun h hp hd => ?_⟩
  · obtain ⟨w, hw, hcur⟩ := back hw'
    rw [network, hcur]
    exact hm.unset (primary ▸ hp) h w hw
  · rw [handle, List.mem_append, not_or] at hd
    obtain ⟨w, hw, hnative⟩ := hm.kept h (primary ▸ hp) hd.1
    obtain ⟨w', hw', hcur⟩ := forth hw hd.2
    exact ⟨w', hw', by rw [network, hcur, hnative]⟩

theorem PrimaryKept.more (hm : m.PrimaryKept told) : m.PrimaryKept (told ++ ns) :=
  hm.mono rfl rfl rfl (fun hw => ⟨_, hw, rfl⟩) fun hw _ => ⟨_, hw, rfl⟩

/-- The handle is written once. -/
theorem Change.primary_fixed (hc : Change m ns m') {h : WalletHandle}
    (hp : m.primaryWallet = some h) : m'.primaryWallet = some h := by
  cases hc with
  | walletCreated => simp [primaryWith, hp]
  | moved | spoke | raised | confirmed | wallet | walletRetired | retired | modeSet => exact hp

/-- The first wallet of the native currency becomes the primary one. -/
theorem PrimaryKept.walletCreated (hm : m.PrimaryKept told) {h : WalletHandle} {code : String}
    {c : Currency} (listed : m.network.currency? code = some c) (fresh : m.wallets.find? h = none)
    {w : Wallet} (holds : w.currency = c) :
    { m with
      wallets := (m.wallets.findOrCreate h w).1
      primaryWallet := m.primaryWith h c }.PrimaryKept (told ++ ns) := by
  have look : ∀ k, (m.wallets.findOrCreate h w).1.find? k =
      if h = k then some w else m.wallets.find? k := by
    intro k
    rw [Registry.find?_findOrCreate, fresh, Option.getD_none]
  have native := Network.native?_eq_some_iff listed
  unfold primaryWith
  by_cases hnew : sameCode c.code m.network.nativeCurrency ∧ m.primaryWallet = none
  · refine ⟨fun hp => ?_, fun k hp _ => ?_⟩
    · simp [hnew] at hp
    · simp only [hnew, and_self, if_true, Option.some.injEq] at hp
      subst hp
      exact ⟨w, by rw [look, if_pos rfl], by rw [holds]; exact native.2 hnew.1⟩
  · refine ⟨fun hp k v hv => ?_, fun k hp hd => ?_⟩
    · simp only [hnew, if_false] at hp
      simp only [look] at hv
      split at hv
      · cases hv
        rw [holds, ne_eq, native]
        exact fun hsame => hnew ⟨hsame, hp⟩
      · exact hm.unset hp k v hv
    · simp only [hnew, if_false] at hp
      obtain ⟨v, hv, hcur⟩ := hm.kept k hp fun hold => hd (List.mem_append_left _ hold)
      have hne : h ≠ k := by
        rintro rfl
        rw [fresh] at hv
        cases hv
      exact ⟨v, by simp [look, hne, hv], hcur⟩

theorem Change.primary_kept (hc : Change m ns m') (hm : m.PrimaryKept told) :
    m'.PrimaryKept (told ++ ns) := by
  cases hc with
  | moved | raised | modeSet | spoke | confirmed | retired =>
    exact hm.mono rfl rfl rfl (fun hw => ⟨_, hw, rfl⟩) fun hw _ => ⟨_, hw, rfl⟩
  | walletCreated listed fresh => exact hm.walletCreated listed fresh rfl
  | @wallet h w w' _ known _ change =>
    refine hm.mono rfl rfl rfl (fun {k v} hv => ?_) fun {k v} hv _ => ?_
    · rw [Registry.find?_modify] at hv
      split at hv
      · rename_i hk
        obtain ⟨_, -, rfl⟩ := Option.map_eq_some_iff.1 hv
        exact ⟨w, hk ▸ known, change.currency⟩
      · exact ⟨v, hv, rfl⟩
    · by_cases hk : h = k
      · subst hk
        rw [known] at hv
        cases hv
        exact ⟨w', Registry.modify_find?_self w' known, change.currency⟩
      · exact ⟨v, by rw [Registry.find?_modify, if_neg hk, hv], rfl⟩
  | @walletRetired h w =>
    refine hm.mono rfl rfl rfl (fun {k v} hv => ?_) fun {k v} hv hd => ?_
    · rw [Registry.find?_erase] at hv
      split at hv
      · cases hv
      · exact ⟨v, hv, rfl⟩
    · have hne : h ≠ k := by
        rintro rfl
        simp at hd
      exact ⟨v, by rw [Registry.find?_erase, if_neg hne, hv], rfl⟩

/-! ## New managers -/

/-- A manager is there to be used: it is not deleted, and its primary wallet is one of its wallets
and holds the native currency. -/
structure Usable (m : Manager) : Prop where
  live : m.state ≠ .deleted
  primary : ∃ w, m.primary? = some w ∧ m.network.native? = some w.currency

/-- What an engine says of a new wallet does not change what it holds. -/
theorem currency_newWallet (m : Manager) (reads : EngineReads) (h : WalletHandle) (c : Currency) :
    (m.newWallet reads h c).value.currency = c :=
  (trail_newWallet m reads h c).invariant (P := fun w => w.currency = c)
    (fun change holds => change.currency.trans holds) rfl

/-- A manager without wallets that admits one of the native currency can be used. -/
theorem usable_admitWallet (reads : EngineReads) {native : Currency} (live : m.state ≠ .deleted)
    (hnative : m.network.native? = some native) (bare : m.wallets = .empty)
    (unset : m.primaryWallet = none) (h : WalletHandle) :
    (m.admitWallet reads h native.code).value.Usable := by
  have fresh : m.wallets.find? h = none := by rw [bare]; exact Registry.find?_empty h
  have unknown : ¬m.wallets.contains h = true := by simp [Registry.contains, fresh]
  have primary : m.primaryWith h native = some h := by
    simp [primaryWith, unset, Network.sameCode_of_currency? hnative]
  rw [value_admitWallet reads (Network.currency?_self hnative) unknown, primary]
  refine ⟨live, (m.newWallet reads h native).value, ?_, ?_⟩
  · simp [primary?, Registry.find?_findOrCreate, fresh]
  · rw [currency_newWallet]
    exact hnative

end Manager

/-! ## The tree -/

namespace Tree

/-- Whatever manager there is under a handle keeps its primary wallet. -/
def PrimaryKept (k : ManagerHandle) (told : List Notice) (t : Tree) : Prop :=
  ∀ m, t.manager? k = some m → m.PrimaryKept told

/-- The handle of the primary wallet of a manager, if it is there and the handle is set. -/
def primaryOf? (t : Tree) (k : ManagerHandle) : Option WalletHandle :=
  (t.manager? k).bind (·.primaryWallet)

variable {made : ManagerHandle → Prop} {guarded : Prop} {t t' : Tree} {k : ManagerHandle}
  {ns told : List Notice}

theorem PrimaryKept.put (ht : t.PrimaryKept k told) {m m' : Manager}
    (known : t.manager? m.handle = some m) (same : m'.handle = m.handle)
    (hm : m.PrimaryKept told → m'.PrimaryKept (told ++ ns)) :
    (t.put m').PrimaryKept k (told ++ ns) := by
  intro u hu
  rw [manager?_put known same] at hu
  split at hu
  · rename_i hk
    cases hu
    exact hm (ht m (hk ▸ known))
  · exact (ht u hu).more

theorem Change.primary_kept (hc : Change made guarded t ns t') (ht : t.PrimaryKept k told) :
    t'.PrimaryKept k (told ++ ns) := by
  cases hc with
  | indexed =>
    intro m hm
    exact (ht m hm).more
  | @managerCreated h m fresh _ _ _ _ bare unset =>
    intro u hu
    rw [manager?, Registry.find?_findOrCreate, show t.managers.find? h = none from fresh,
      Option.getD_none] at hu
    split at hu
    · cases hu
      exact .of_bare bare unset
    · exact (ht u hu).more
  | manager known step => exact ht.put known step.2.handle step.2.primary_kept

theorem primaryOf?_put {m m' : Manager} {h : WalletHandle} (known : t.manager? m.handle = some m)
    (same : m'.handle = m.handle) (hm : m.primaryWallet = some h → m'.primaryWallet = some h)
    (ht : t.primaryOf? k = some h) : (t.put m').primaryOf? k = some h := by
  unfold primaryOf? at ht ⊢
  rw [manager?_put known same]
  split
  · rename_i hk
    rw [← hk, known] at ht
    exact hm ht
  · exact ht

theorem Change.primary_fixed {h : WalletHandle} (hc : Change made guarded t ns t')
    (ht : t.primaryOf? k = some h) : t'.primaryOf? k = some h := by
  cases hc with
  | indexed => exact ht
  | @managerCreated j m fresh =>
    have hne : j ≠ k := by
      rintro rfl
      simp [primaryOf?, fresh] at ht
    unfold primaryOf? at ht ⊢
    rw [manager?, Registry.find?_findOrCreate, if_neg hne]
    exact ht
  | manager known step => exact primaryOf?_put known step.2.handle step.2.primary_fixed ht

end Tree

/-! ## Runs -/

namespace Session

variable {s s' : Session} {k : ManagerHandle}

/-- What was told since the beginning of a run, and what is left of a primary wallet then. -/
theorem Run.primary_kept (hs : s.Reachable) (hrun : s.Run s')
    (start : s.hub.tree.PrimaryKept k []) :
    ∃ told, s'.notices = s.notices ++ told ∧ s'.hub.tree.PrimaryKept k told := by
  refine Run.told (P := fun told s => s.hub.tree.PrimaryKept k told) hs hrun start
    (fun {mid told} c hmid _ kept => ?_)
    (fun {mid _} b x kept => (tree_adjusted mid.hub b x).symm ▸ kept) fun _ kept => kept
  cases Hub.outcome_process hmid.sound c with
  | onward _ htrail =>
    exact htrail.told (P := fun _ => True) (Q := fun ns t => t.PrimaryKept k ns)
      (fun _ _ => trivial) (fun hc _ ht => hc.primary_kept ht) trivial kept
  | ending _ _ _ _ tree =>
    intro m hm
    rw [take, after, tree] at hm
    cases hm
  | halting _ notices tree =>
    rw [notices]
    rcases tree with tree | ⟨m, height, known, tree⟩
    · rw [take, after, tree]
      intro m hm
      exact (kept m hm).more
    · rw [take, after, tree]
      refine kept.put known rfl fun hm => ?_
      exact hm.mono rfl rfl rfl (fun hw => ⟨_, hw, rfl⟩) fun hw _ => ⟨_, hw, rfl⟩

/-- A handle that is set stays set as long as there are records. -/
theorem Run.primary_fixed {h : WalletHandle} (hs : s.Reachable) (hrun : s.Run s')
    (start : s.hub.tree.primaryOf? k = some h) :
    s'.hub.tree.primaryOf? k = some h ∨ s'.hub.tree = .empty ∧ s'.life ≠ .running := by
  induction hrun with
  | refl => exact .inl start
  | @tail mid _ hrun hstep ih =>
    have hmid := hs.run hrun
    cases hstep with
    | command c running =>
      have hold := ih.resolve_right fun hx => hx.2 running
      cases Hub.outcome_process hmid.sound c with
      | onward _ htrail => exact .inl (htrail.invariant (P := fun t => t.primaryOf? k = some h)
          Tree.Change.primary_fixed hold)
      | ending life _ _ _ tree => exact .inr ⟨tree, by simp [take, after, life]⟩
      | halting _ _ tree =>
        rcases tree with tree | ⟨m, height, known, tree⟩
        · exact .inl (by rw [take, after, tree]; exact hold)
        · refine .inl ?_
          rw [take, after, tree]
          exact Tree.primaryOf?_put known rfl id hold
    | setting b x => exact (tree_adjusted mid.hub b x).symm ▸ ih
    | clock => exact ih

/-- **Primary wallets.** As long as a manager has no handle of a primary wallet, none of its wallets
holds the native currency. A handle that is set is set for good. From any moment on at which the
primary wallet of a manager is as it should be, it stays so until that very wallet is told to be
deleted. -/
theorem primary_course (hs : s.Reachable) (hrun : s.Run s') {m' : Manager}
    (known : s'.hub.tree.manager? k = some m') :
    (m'.primaryWallet = none → m'.PrimaryHolds) ∧
    (∀ h, s.hub.tree.primaryOf? k = some h → m'.primaryWallet = some h) ∧
    ((∀ m, s.hub.tree.manager? k = some m → m.PrimaryHolds) →
      (∀ h, m'.primaryWallet = some h →
        .wallet ⟨k, h⟩ .deleted ∉ s'.notices.drop s.notices.length) → m'.PrimaryHolds) := by
  have place : m'.handle = k := (hs.run hrun).sound.place known
  refine ⟨fun hp => ?_, fun h hset => ?_, fun holds intact => ?_⟩
  · obtain ⟨strict, hasClient, utxo, account, hopen⟩ := (hs.run hrun).opened_run
    obtain ⟨told, -, hkept⟩ := hopen.primary_kept (k := k) (.opened ..) fun m hm => by cases hm
    refine (hkept m' known).holds fun h hset => ?_
    rw [hp] at hset
    cases hset
  · rcases hrun.primary_fixed hs hset with hfixed | ⟨htree, -⟩
    · simpa [Tree.primaryOf?, known] using hfixed
    · rw [htree] at known
      cases known
  · have start : s.hub.tree.PrimaryKept k [] := fun m hm => (holds m hm).kept []
    obtain ⟨told, hnotices, hkept⟩ := hrun.primary_kept hs start
    refine (hkept m' known).holds fun h hset => ?_
    have hnot := intact h hset
    rwa [hnotices, List.drop_left, ← place] at hnot

/-- A new hub with an engine for accounts. -/
def accountsOnly : Session := opened true false none (some false)

/-- A manager is made with its first wallet, and a second one of the native currency comes and
goes. -/
def secondWallet : Session :=
  accountsOnly.takes
    [.request (.createManager ⟨⟨"dave", 0⟩, .ethereum true, .apiOnly, "/tmp/dave"⟩),
      .callback .account (.wallet 0x2000 0x9000 (.created "ETH")),
      .callback .account (.wallet 0x2000 0x9000 .deleted)]

/-- The first wallet stays the primary one. -/
theorem primary_course_secondWallet :
    ∃ m, secondWallet.hub.tree.manager? ⟨.account, 0x2000⟩ = some m ∧
      m.primaryWallet = some ⟨.account, 0x2001⟩ ∧ m.PrimaryHolds := by
  obtain ⟨m, known⟩ : ∃ m, secondWallet.hub.tree.manager? ⟨.account, 0x2000⟩ = some m :=
    Option.isSome_iff_exists.1 (by decide +kernel)
  have primary : secondWallet.hub.tree.primaryOf? ⟨.account, 0x2000⟩ =
      some ⟨.account, 0x2001⟩ := by
    decide +kernel
  have hm : m.primaryWallet = some ⟨.account, 0x2001⟩ := by
    simpa [Tree.primaryOf?, known] using primary
  have intact : Notice.wallet ⟨⟨.account, 0x2000⟩, ⟨.account, 0x2001⟩⟩ .deleted ∉
      secondWallet.notices.drop accountsOnly.notices.length := by
    decide +kernel
  have hcourse := primary_course (.opened ..) (accountsOnly.run_takes _) known
  refine ⟨m, known, hm, hcourse.2.2 (fun _ hnew => by cases hnew) fun h hset => ?_⟩
  rw [hm] at hset
  cases hset
  exact intact

/-! ## A primary wallet that is gone -/

/-- The first wallet is deleted, and then another one of the native currency is created. -/
def replacedWallet : Session :=
  accountsOnly.takes
    [.request (.createManager ⟨⟨"dave", 0⟩, .ethereum true, .apiOnly, "/tmp/dave"⟩),
      .callback .account (.wallet 0x2000 0x2001 .deleted),
      .callback .account (.wallet 0x2000 0x9000 (.created "eth"))]

/-- A manager may have a wallet of the native currency and no primary wallet. -/
theorem primary_stale :
    ¬∀ s : Session, s.Reachable → ∀ k m, s.hub.tree.manager? k = some m → m.state ≠ .deleted →
      m.PrimaryHolds := by
  intro hall
  obtain ⟨m, known⟩ : ∃ m, replacedWallet.hub.tree.manager? ⟨.account, 0x2000⟩ = some m :=
    Option.isSome_iff_exists.1 (by decide +kernel)
  have here : ((replacedWallet.hub.tree.manager? ⟨.account, 0x2000⟩).all fun m =>
      m.state ≠ .deleted ∧ m.primary? = none ∧
        (m.wallets.find? ⟨.account, 0x9000⟩).any fun w =>
          m.network.native? = some w.currency) = true := by
    decide +kernel
  simp only [known, Option.all_some, decide_eq_true_eq, Option.any_eq_true] at here
  obtain ⟨live, gone, w, hw, hnative⟩ := here
  have hreach : replacedWallet.Reachable := (Reachable.opened ..).takes _
  have hsome := (hall _ hreach _ m known live).found _ w hw hnative
  rw [gone] at hsome
  cases hsome

end Session
end WalletHub
