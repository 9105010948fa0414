import WalletHub.Proofs.Primary

/-!
# The wallets of a manager, in order

Wallets stand in the order in which they were created, and so the notices tell it: one that is
created stands behind the others, and one that is deleted leaves a gap to be closed
(`Notice.enrol`). Nothing else moves a wallet, or changes what it holds. So the first wallet that
holds a currency stays the first until it is told to be deleted.

* `Session.Reachable.rostered`: in every run, the wallets of a manager are those on its roster.
* `Session.Run.first`: the first wallet of a currency stays that.
-/
namespace WalletHub

/-! ## Registries -/

namespace Registry

variable {κ α β : Type} [DecidableEq κ]

/-- Another record under a handle is not noticed by what is the same for both. -/
theorem map_entries_modify {f : κ × α → β} {h : κ} {a b : α} (same : f (h, b) = f (h, a)) :
    ∀ {xs : List (κ × α)}, findIn h xs = some a →
      (modifyIn h (fun _ => b) xs).map f = xs.map f := by
  intro xs
  induction xs with
  | nil => exact fun hf => by cases hf
  | cons e rest ih =>
    obtain ⟨k, x⟩ := e
    intro hf
    by_cases hk : k = h
    · subst hk
      simp only [findIn, if_true, Option.some.injEq] at hf
      subst hf
      simp [modifyIn, same]
    · simp only [findIn, hk, if_false] at hf
      simp [modifyIn, hk, ih hf]

end Registry

/-- What is found first is found first among some of the elements, if it is one of them. -/
theorem find?_filter_of_find? {α : Type} {p q : α → Bool} {a : α} {xs : List α}
    (found : xs.find? p = some a) (kept : q a = true) : (xs.filter q).find? p = some a := by
  induction xs with
  | nil => cases found
  | cons x xs ih =>
    by_cases hx : p x = true
    · rw [List.find?_cons_of_pos hx] at found
      cases found
      rw [List.filter_cons_of_pos kept, List.find?_cons_of_pos hx]
    · rw [List.find?_cons_of_neg hx] at found
      by_cases hq : q x = true
      · rw [List.filter_cons_of_pos hq, List.find?_cons_of_neg hx, ih found]
      · rw [List.filter_cons_of_neg hq, ih found]

/-! ## What is told -/

/-- The wallets of a manager, in order, once this is told. -/
def Notice.enrol (k : ManagerHandle) (roster : List WalletHandle) : Notice → List WalletHandle
  | .wallet p .created => if p.manager = k then roster ++ [p.wallet] else roster
  | .wallet p .deleted => if p.manager = k then roster.filter (· ≠ p.wallet) else roster
  | _ => roster

/-- The wallets of a manager, in order, as far as it was told. -/
def roster (k : ManagerHandle) (ns : List Notice) : List WalletHandle :=
  ns.foldl (Notice.enrol k) []

namespace Manager

/-- The wallets of a manager, in order, each with the currency that it holds. -/
def holdings (m : Manager) : List (WalletHandle × Currency) :=
  m.wallets.entries.map fun e => (e.1, e.2.currency)

/-- The first wallet that holds a currency. -/
def first? (m : Manager) (code : String) : Option WalletHandle :=
  (m.holdings.find? fun x => sameCode x.2.code code).map (·.1)

end Manager

/-- What happens within a wallet does not concern the roster. -/
theorem Wallet.Change.enrol {w w' : Wallet} {ns : List Notice} (hc : Wallet.Change w ns w')
    (k : ManagerHandle) (roster : List WalletHandle) :
    ns.foldl (Notice.enrol k) roster = roster := by
  cases hc with
  | @transferMoved h t new => cases new <;> rfl
  | balance | feeBasis | transferCreated | hashed | transferRetired => rfl

namespace Manager

variable {m m' : Manager} {ns : List Notice}

/-- **Changes.** Wallets come at the end and go from anywhere, and that is told; otherwise the
wallets and what they hold stay as they are. -/
inductive Rehoused (m : Manager) (ns : List Notice) (m' : Manager) : Prop
  | still (same : m'.holdings = m.holdings)
      (untold : ∀ k roster, ns.foldl (Notice.enrol k) roster = roster)
  | came (h : WalletHandle) (c : Currency) (more : m'.holdings = m.holdings ++ [(h, c)])
      (told : ns = [.wallet ⟨m.handle, h⟩ .created, .manager m.handle (.walletAdded h)])
  | went (h : WalletHandle) (less : m'.holdings = m.holdings.filter (·.1 ≠ h))
      (told : ns = [.wallet ⟨m.handle, h⟩ (.changed .created .deleted),
        .wallet ⟨m.handle, h⟩ .deleted, .manager m.handle (.walletDeleted h)])

theorem Change.rehoused (hc : Change m ns m') : m.Rehoused ns m' := by
  cases hc with
  | moved | raised | modeSet | retired | confirmed => exact .still rfl fun _ _ => rfl
  | @spoke n sync => exact .still rfl fun _ _ => by cases n <;> rfl
  | @walletCreated h _ c _ fresh =>
    refine .came h c ?_ rfl
    simp [holdings, Registry.findOrCreate_of_find?_none _ fresh, Wallet.create]
  | @wallet h w w' _ known _ change =>
    refine .still ?_ fun k roster => change.enrol k roster
    exact Registry.map_entries_modify (by rw [change.currency]) known
  | @walletRetired h w =>
    refine .went h ?_ rfl
    simp only [holdings, Registry.erase, Registry.remove, List.filter_map]
    rfl

theorem Change.enrol (hc : Change m ns m') :
    m'.holdings.map (·.1) = ns.foldl (Notice.enrol m.handle) (m.holdings.map (·.1)) := by
  cases hc.rehoused with
  | still same untold => rw [same, untold]
  | came h c more told => simp [more, told, Notice.enrol]
  | went h less told =>
    simp only [less, told, List.foldl_cons, List.foldl_nil, Notice.enrol, if_true, List.filter_map]
    rfl

/-- Other rosters are not concerned. -/
theorem Change.enrol_of_ne (hc : Change m ns m') {k : ManagerHandle} (other : m.handle ≠ k)
    (roster : List WalletHandle) : ns.foldl (Notice.enrol k) roster = roster := by
  cases hc.rehoused with
  | still _ untold => exact untold k roster
  | came h c _ told => simp [told, Notice.enrol, other]
  | went h _ told => simp [told, Notice.enrol, other]

/-- The first wallet of a currency stays that until it is told to be deleted. -/
theorem Change.first (hc : Change m ns m') {code : String} {h : WalletHandle}
    (first : m.first? code = some h) (untold : .wallet ⟨m.handle, h⟩ .deleted ∉ ns) :
    m'.first? code = some h := by
  obtain ⟨⟨k, c⟩, found, rfl⟩ := Option.map_eq_some_iff.1 first
  cases hc.rehoused with
  | still same => rw [first?, same, found]; rfl
  | came h c more =>
    rw [first?, more, List.find?_append, found]
    rfl
  | went h less told =>
    have kept : k ≠ h := by
      rintro rfl
      simp [told] at untold
    rw [first?, less, find?_filter_of_find? found (by simpa using kept)]
    rfl

/-- The oldest wallet of a currency is the first one. -/
theorem map_path_walletFor? (hm : m.Sound) (code : String) :
    (m.walletFor? code).map (·.path) = (m.first? code).map fun h => ⟨m.handle, h⟩ := by
  simp only [walletFor?, first?, holdings, Registry.records, List.find?_map, Option.map_map]
  refine Option.map_congr fun e found => ?_
  exact hm.place (Registry.findIn_of_mem hm.nodup (List.mem_of_find?_eq_some found))

end Manager

/-! ## The tree -/

namespace Tree

/-- The wallets of a manager, in order; none if it is not there. -/
def enrolled (t : Tree) (k : ManagerHandle) : List WalletHandle :=
  (t.manager? k).elim [] fun m => m.holdings.map (·.1)

/-- A manager that is not deleted has a first wallet of a currency. -/
def First (t : Tree) (code : String) (p : WalletPath) : Prop :=
  ∃ m, t.manager? p.manager = some m ∧ m.state ≠ .deleted ∧ m.first? code = some p.wallet

variable {made : ManagerHandle → Prop} {guarded : Prop} {t t' : Tree} {ns : List Notice}

theorem Change.enrolled (hc : Change made guarded t ns t') (k : ManagerHandle) :
    t'.enrolled k = ns.foldl (Notice.enrol k) (t.enrolled k) := by
  cases hc with
  | indexed => rfl
  | @managerCreated h m fresh _ _ _ _ bare =>
    have look : (t.managers.findOrCreate h m).1.find? k =
        if h = k then some m else t.manager? k := by
      rw [Registry.find?_findOrCreate, show t.managers.find? h = none from fresh]
      rfl
    simp only [Tree.enrolled, manager?, look]
    split
    · rename_i hk
      subst hk
      rw [show t.managers.find? h = none from fresh]
      simp [Manager.holdings, bare, Registry.empty, Notice.enrol]
    · rfl
  | @manager m m' ns known step =>
    simp only [Tree.enrolled, manager?_put known step.2.handle]
    split
    · rename_i hk
      subst hk
      simpa [known] using step.2.enrol
    · rename_i other
      exact (step.2.enrol_of_ne other _).symm

theorem Change.first (hc : Change made guarded t ns t') {code : String} {p : WalletPath}
    (first : t.First code p) (untold : .wallet p .deleted ∉ ns) : t'.First code p := by
  obtain ⟨m, known, live, first⟩ := first
  cases hc with
  | indexed => exact ⟨m, known, live, first⟩
  | @managerCreated h m' fresh =>
    have other : h ≠ p.manager := by
      rintro rfl
      rw [fresh] at known
      cases known
    refine ⟨m, ?_, live, first⟩
    rw [manager?, Registry.find?_findOrCreate, if_neg other]
    exact known
  | @manager n n' ns known' step =>
    by_cases same : n.handle = p.manager
    · rw [same, known] at known'
      cases known'
      refine ⟨n', ?_, ?_, step.2.first first (by rwa [same])⟩
      · rw [manager?_put (same ▸ known) step.2.handle, if_pos same]
      · cases step.2 with
        | moved _ alive => exact alive
        | spoke | raised | confirmed | walletCreated | wallet | walletRetired | modeSet =>
          exact live
        | retired _ bare => simp [Manager.first?, Manager.holdings, bare, Registry.empty] at first
    · exact ⟨m, by rw [manager?_put known' step.2.handle, if_neg same, known], live, first⟩

end Tree

/-! ## Runs -/

namespace Session

variable {s s' : Session}

/-- **Rosters.** In every run, the wallets of a manager are those on its roster, in that order. -/
theorem Reachable.rostered (hs : s.Reachable) (going : s.life ≠ .stopped) (k : ManagerHandle) :
    s.hub.tree.enrolled k = roster k s.notices := by
  refine Reachable.invariant
    (P := fun s => s.life ≠ .stopped → s.hub.tree.enrolled k = roster k s.notices)
    (fun _ _ _ _ _ => rfl) (fun s c _ running outcome kept going => ?_)
    (fun s h tree kept going => (congrArg (·.enrolled k) tree).trans (kept going)) hs going
  have kept := kept (by simp [running])
  rw [take, notices_after]
  cases outcome with
  | onward _ told =>
    exact told.told (P := fun _ => True) (Q := fun ns t => t.enrolled k = roster k ns)
      (fun _ _ => trivial)
      (fun hc _ kept => by rw [hc.enrolled, kept, roster, roster, List.foldl_append]) trivial kept
  | ending life => exact absurd life going
  | halting _ notices tree =>
    rw [notices, List.append_nil, ← kept]
    rcases tree with tree | ⟨m, height, known, tree⟩
    · exact congrArg (·.enrolled k) tree
    · refine (congrArg (·.enrolled k) tree).trans ?_
      have same : ({ m with height := height } : Manager).handle = m.handle := rfl
      simp only [Tree.enrolled, Tree.manager?_put known same]
      split
      · rename_i here
        rw [← here, known]
        rfl
      · rfl

/-- **First wallets.** Until it is told to be deleted, the first wallet of a currency stays that. -/
theorem Run.first (hs : s.Reachable) (hrun : s.Run s') {code : String} {p : WalletPath}
    (first : s.hub.tree.First code p)
    (untold : .wallet p .deleted ∉ s'.notices.drop s.notices.length)
    (running : s'.life = .running) : s'.hub.tree.First code p := by
  suffices kept : ∃ told, s'.notices = s.notices ++ told ∧ (.wallet p .deleted ∉ told →
      s'.life = .running → s'.hub.tree.First code p) by
    obtain ⟨told, notices, kept⟩ := kept
    rw [notices, List.drop_left] at untold
    exact kept untold running
  refine Run.told (P := fun told s' => .wallet p .deleted ∉ told → s'.life = .running →
      s'.hub.tree.First code p) hs hrun (fun _ _ => first)
    (fun {mid told} c hmid running kept untold going => ?_)
    (fun {mid told} b x kept untold going => (tree_adjusted mid.hub b x).symm ▸ kept untold going)
    fun _ kept => kept
  rw [List.mem_append, not_or] at untold
  have first := kept untold.1 running
  cases Hub.outcome_process hmid.sound c with
  | onward _ trail =>
    refine trail.told (P := fun _ => True)
      (Q := fun ns t => .wallet p .deleted ∉ ns → t.First code p) (fun _ _ => trivial)
      (fun hc _ first untold => ?_) trivial (s := []) (fun _ => first) untold.2
    rw [List.mem_append, not_or] at untold
    exact hc.first (first untold.1) untold.2
  | ending life => cases life.symm.trans going
  | halting life => cases life.symm.trans going

end Session

end WalletHub
