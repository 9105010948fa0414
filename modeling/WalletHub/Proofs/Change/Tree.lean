import WalletHub.Hub.Teardown
import WalletHub.Proofs.Change.Manager

/-!
# What a hub can do to its records

`Tree.Change` lists every single change of the records of a hub. A trail of one manager is a trail
of the records (`trail_manager`), and the end of a hub is one that leaves nothing but deleted
managers (`trail_parting`). Records are sound if everything is filed under its own handle; every
change keeps that (`Change.sound`).
-/
namespace WalletHub

namespace Tree

/-- The tree with another record of a manager. -/
def put (t : Tree) (m : Manager) : Tree :=
  { t with managers := t.managers.modify m.handle fun _ => m }

/-- One change of the records of a hub, and what is told of it. New managers have handles that are
`made`. -/
inductive Change (made : ManagerHandle → Prop) (guarded : Prop) : Tree → List Notice → Tree → Prop
  | managerCreated {t : Tree} {h : ManagerHandle} {m : Manager} (fresh : t.manager? h = none)
      (new : made h) (place : m.handle = h) (born : m.state = .created) (height : m.height = 0)
      (bare : m.wallets = .empty) (unset : m.primaryWallet = none)
      (home : m.network.backend = h.backend) (native : m.network.native?.isSome) :
      Change made guarded t [.manager h .created, .hub (.managerAdded h)]
        { t with managers := (t.managers.findOrCreate h m).1 }
  | manager {t : Tree} {m m' : Manager} {ns : List Notice} (known : t.manager? m.handle = some m)
      (step : Manager.Step guarded m ns m') : Change made guarded t ns (t.put m')
  /-- The index of accounts and networks is written without a word. -/
  | indexed {t : Tree} {index : Table (String × String) ManagerHandle} :
      Change made guarded t [] { t with index := index }

/-- Managers have distinct handles, carry the handles they are filed under, and are sound. -/
structure Sound (t : Tree) : Prop where
  nodup : t.managers.handles.Nodup
  place : ∀ {h m}, t.manager? h = some m → m.handle = h
  sound : ∀ {h m}, t.manager? h = some m → m.Sound

theorem sound_empty : Tree.empty.Sound :=
  ⟨List.nodup_nil, fun h => (by cases h), fun h => (by cases h)⟩

theorem put_self {t : Tree} {m : Manager} (known : t.manager? m.handle = some m) : t.put m = t := by
  simp only [put, Registry.modify_const_self known]

theorem manager?_put {t : Tree} {m m' : Manager} (known : t.manager? m.handle = some m)
    (same : m'.handle = m.handle) (k : ManagerHandle) :
    (t.put m').manager? k = if m.handle = k then some m' else t.manager? k := by
  simp only [put, manager?, Registry.find?_modify, same]
  split
  · rw [show t.managers.find? m.handle = some m from known]
    rfl
  · rfl

theorem wallet?_of_manager? {t : Tree} {p : WalletPath} {m : Manager}
    (known : t.manager? p.manager = some m) : t.wallet? p = m.wallets.find? p.wallet := by
  rw [wallet?, known]
  rfl

theorem wallet?_congr {t t' : Tree} {p : WalletPath}
    (same : t'.manager? p.manager = t.manager? p.manager) : t'.wallet? p = t.wallet? p := by
  rw [wallet?, wallet?, same]

theorem wallet?_put {t : Tree} {m m' : Manager} (known : t.manager? m.handle = some m)
    (same : m'.handle = m.handle) (p : WalletPath) :
    (t.put m').wallet? p =
      if m.handle = p.manager then m'.wallets.find? p.wallet else t.wallet? p := by
  have look := manager?_put known same p.manager
  split
  · rename_i home
    rw [if_pos home] at look
    exact wallet?_of_manager? look
  · rename_i away
    rw [if_neg away] at look
    exact wallet?_congr look

/-- A manager that keeps its wallets. -/
theorem wallet?_put_same {t : Tree} {m m' : Manager} (known : t.manager? m.handle = some m)
    (same : m'.handle = m.handle) (wallets : m'.wallets = m.wallets) (p : WalletPath) :
    (t.put m').wallet? p = t.wallet? p := by
  rw [wallet?_put known same, wallets]
  split
  · rename_i home
    rw [home] at known
    exact (wallet?_of_manager? known).symm
  · rfl

theorem Sound.path {t : Tree} (hs : t.Sound) {p : WalletPath} {w : Wallet}
    (known : t.wallet? p = some w) : w.path = p := by
  obtain ⟨m, hm, hw⟩ := Option.bind_eq_some_iff.1 known
  rw [(hs.sound hm).place hw, hs.place hm]

theorem ne_none_of_put {t : Tree} {m m' : Manager} (known : t.manager? m.handle = some m)
    (same : m'.handle = m.handle) {k : ManagerHandle} (hk : (t.put m').manager? k ≠ none) :
    t.manager? k ≠ none := by
  rw [manager?_put known same] at hk
  split at hk
  · rename_i he
    subst he
    simp [known]
  · exact hk

theorem Sound.put {t : Tree} {m m' : Manager} (ht : t.Sound)
    (known : t.manager? m.handle = some m) (same : m'.handle = m.handle) (hm : m'.Sound) :
    (t.put m').Sound := by
  have look : ∀ {k u}, (t.put m').manager? k = some u → u.handle = k ∧ u.Sound := by
    intro k u hu
    rw [manager?_put known same] at hu
    split at hu
    · rename_i hk
      cases hu
      exact ⟨same.trans hk, hm⟩
    · exact ⟨ht.place hu, ht.sound hu⟩
  exact ⟨by simpa [Tree.put] using ht.nodup, fun hu => (look hu).1, fun hu => (look hu).2⟩

variable {made : ManagerHandle → Prop} {guarded : Prop} {t : Tree}

theorem Change.sound {t' : Tree} {ns : List Notice} (hc : Change made guarded t ns t')
    (ht : t.Sound) : t'.Sound := by
  cases hc with
  | indexed => exact ⟨ht.nodup, ht.place, ht.sound⟩
  | @managerCreated h m fresh _ place _ _ bare =>
    have look : ∀ {k u}, (t.managers.findOrCreate h m).1.find? k = some u →
        u.handle = k ∧ u.Sound := by
      intro k u hu
      rw [Registry.find?_findOrCreate, show t.managers.find? h = none from fresh,
        Option.getD_none] at hu
      split at hu
      · rename_i hk
        cases hu
        exact ⟨place.trans hk, Manager.sound_of_bare bare⟩
      · exact ⟨ht.place hu, ht.sound hu⟩
    exact ⟨Registry.handles_nodup_findOrCreate h m ht.nodup, fun hu => (look hu).1,
      fun hu => (look hu).2⟩
  | manager known step => exact ht.put known step.2.handle (step.2.sound (ht.sound known))

/-! ## Managers within the tree -/

/-- A trail of a manager is one of its tree. -/
theorem trail_manager {m m' : Manager} {ns : List Notice} (known : t.manager? m.handle = some m)
    (hm : Trail (Manager.Step guarded) m ns m') : Trail (Change made guarded) t ns (t.put m') := by
  induction hm generalizing t with
  | still m =>
    rw [put_self known]
    exact .still t
  | @step a b c xs ys hs hm ih =>
    have hb : (t.put b).manager? b.handle = some b := by
      rw [manager?_put known hs.2.handle, if_pos hs.2.handle.symm]
    have hc : c.handle = b.handle :=
      hm.invariant (P := fun m => m.handle = b.handle) (fun hx => hx.2.handle.trans) rfl
    have hput : (t.put b).put c = t.put c := by
      simp only [put, hc, Registry.modify_modify]
    exact .step (.manager known hs) (hput ▸ ih hb)

/-- A manager that is not deleted yet ends, and the others stay as they are. -/
theorem trail_part (made : ManagerHandle → Prop) (guarded : Prop) (ht : t.Sound)
    {k : ManagerHandle} {m : Manager} (known : t.manager? k = some m) :
    ∃ u, Trail (Change made guarded) t (Hub.parting m) u ∧
      (∀ j, k ≠ j → u.manager? j = t.manager? j) ∧
      ∀ n, u.manager? k = some n → n.state = .deleted := by
  by_cases hd : m.state = .deleted
  · refine ⟨t, by simpa [Hub.parting, hd] using Trail.still t, fun _ _ => rfl, fun n hn => ?_⟩
    rw [known] at hn
    cases hn
    exact hd
  · have place := ht.place known
    subst place
    have look : ∀ j, (t.put m.retire.value).manager? j =
        if m.handle = j then some m.retire.value else t.manager? j := manager?_put known rfl
    refine ⟨t.put m.retire.value, ?_, fun j hj => by rw [look, if_neg hj], fun n hn => ?_⟩
    · have hend : Trail (Change made guarded) t m.retirement (t.put m.retire.value) :=
        trail_manager known (Manager.trail_retire hd (ht.sound known))
      simpa [Hub.parting, hd] using hend
    · rw [look, if_pos rfl] at hn
      cases hn
      rfl

/-- Some of the managers end one by one, and nothing is said of the others. -/
theorem trail_parts (xs : List (ManagerHandle × Manager)) (ht : t.Sound)
    (hn : (xs.map Prod.fst).Nodup) (hx : ∀ x ∈ xs, t.manager? x.1 = some x.2) :
    ∃ u, Trail (Change made guarded) t (xs.flatMap fun m => Hub.parting m.2) u ∧
      ∀ k m, u.manager? k = some m →
        m.state = .deleted ∨ (k ∉ xs.map Prod.fst ∧ t.manager? k = some m) := by
  induction xs generalizing t with
  | nil => exact ⟨t, .still t, fun k m hm => .inr ⟨by simp, hm⟩⟩
  | cons x xs ih =>
    obtain ⟨k, m⟩ := x
    simp only [List.map_cons, List.nodup_cons] at hn
    obtain ⟨v, hpart, others, gone⟩ := trail_part made guarded ht (hx _ List.mem_cons_self)
    obtain ⟨u, hparts, hall⟩ := ih (hpart.invariant Change.sound ht) hn.2 fun y hy => by
      have hne : k ≠ y.1 := fun he => hn.1 (he ▸ List.mem_map_of_mem hy)
      rw [others _ hne]
      exact hx y (List.mem_cons_of_mem _ hy)
    refine ⟨u, hpart.trans hparts, fun j n hj => ?_⟩
    rcases hall j n hj with hdel | ⟨hout, hin⟩
    · exact .inl hdel
    · by_cases hk : k = j
      · subst hk
        exact .inl (gone n hin)
      · rw [others j hk] at hin
        exact .inr ⟨by simp [Ne.symm hk, hout], hin⟩

/-- The managers that are not deleted yet end one by one, oldest first. -/
theorem trail_parting (ht : t.Sound) :
    ∃ t', Trail (Change made guarded) t (t.managers.entries.flatMap fun m => Hub.parting m.2) t' ∧
      ∀ {h m}, t'.manager? h = some m → m.state = .deleted := by
  obtain ⟨t', htrail, hall⟩ := trail_parts t.managers.entries ht ht.nodup
    fun x hx => Registry.findIn_of_mem ht.nodup hx
  refine ⟨t', htrail, fun {h m} hm => (hall h m hm).resolve_right fun ⟨hout, hin⟩ => ?_⟩
  rw [show t.manager? h = none from (Registry.find?_eq_none_iff t.managers h).2 hout] at hin
  cases hin

end Tree

end WalletHub
