import WalletHub.Proofs.Locality

/-!
# One manager for each account and network

The index of accounts and networks is kept beside the records of managers. It is written by one
command only, a request for a new manager, and at the very end of it; whatever fails before leaves
both as they were. So the two agree in every run until the shutdown (`Tree.Indexed`), and an engine
has accepted one request for each entry of the index and none else (`Filed.counted`).

* `Filed.effect`: what a command keeps.
* `Reachable.filed`: what holds in every run.
* `one_manager_each`: one manager for each account and network, however often it is asked for.
-/
namespace WalletHub

namespace Tree

/-- The index leads to the managers that are there, each under its account and network. -/
def Indexed (t : Tree) : Prop :=
  ∀ key k, t.index.get? key = some k ↔ (t.manager? k).map Manager.key = some key

variable {t t' : Tree} {k : ManagerHandle}

theorem indexed_empty : Tree.empty.Indexed := fun _ _ => iff_of_false nofun nofun

/-- Managers keep their account and network. -/
theorem Within.keys (h : t.Within k t') (j : ManagerHandle) :
    (t'.manager? j).map Manager.key = (t.manager? j).map Manager.key := by
  by_cases hj : j = k
  · exact hj ▸ h.key
  · rw [h.others j hj]

theorem Indexed.within (ht : t.Indexed) (h : t.Within k t') : t'.Indexed := by
  intro key j
  rw [h.index, h.keys]
  exact ht key j

/-- A manager that is new goes into the index under a key that is new. -/
theorem Indexed.made (ht : t.Indexed) {m : Manager} (unlisted : t.index.get? m.key = none)
    (unknown : t.manager? m.handle = none) :
    (⟨(t.managers.findOrCreate m.handle m).1, t.index.put m.key m.handle⟩ : Tree).Indexed := by
  intro key j
  have look : Tree.manager? ⟨(t.managers.findOrCreate m.handle m).1,
      t.index.put m.key m.handle⟩ j = if m.handle = j then some m else t.manager? j := by
    simp only [manager?, Registry.find?_findOrCreate, show t.managers.find? m.handle = none from
      unknown, Option.getD_none]
  rw [look, Table.get?_put]
  by_cases hj : m.handle = j
  · subst hj
    have nobody : t.index.get? key ≠ some m.handle := by
      rw [Ne, ht key, unknown]
      simp
    by_cases hkey : m.key = key <;> simp [hkey, nobody]
  · by_cases hkey : m.key = key
    · subst hkey
      have none : (t.manager? j).map Manager.key ≠ some m.key := by
        rw [Ne, ← ht m.key, unlisted]
        simp
      simpa [hj] using none
    · simpa [hj, hkey] using ht key j

end Tree

/-- Whether an engine accepted to make a manager for an account and a network. -/
def Issued.founds (key : String × String) (i : Issued) : Bool :=
  match i.command with
  | .createManager p => i.accepted && decide (p.key = key)
  | _ => false

namespace Hub

/-- How often engines accepted to make a manager for an account and a network. -/
def foundings (h : Hub) (key : String × String) : Nat :=
  (h.log .utxo ++ h.log .account).countP (·.founds key)

open Handling

variable {g h : Hub} {key : String × String} {p : ManagerParams}

theorem foundings_of_logs {P : Backend → Issued → Prop} (logs : h.Logs P g)
    (other : ∀ b i, P b i → i.founds key = false) : g.foundings key = h.foundings key := by
  have none {b : Backend} {more : List Issued} (hmore : ∀ i ∈ more, P b i) :
      more.countP (·.founds key) = 0 :=
    List.countP_eq_zero.2 fun i hi => by simp [other b i (hmore i hi)]
  obtain ⟨us, hu, hus⟩ := logs .utxo
  obtain ⟨as, ha, has⟩ := logs .account
  simp only [foundings, hu, ha, List.countP_append, none hus, none has, Nat.add_zero]

theorem foundings_of_log (same : ∀ b, g.log b = h.log b) : g.foundings key = h.foundings key := by
  simp only [foundings, same]

/-- A manager that is made is accepted once, by the engine of its network. -/
theorem foundings_made (log : ∀ b, g.log b =
    h.log b ++ if b = p.network.backend then [⟨.createManager p, true⟩] else []) :
    g.foundings key = h.foundings key + if p.key = key then 1 else 0 := by
  have one : List.countP (·.founds key) [(⟨.createManager p, true⟩ : Issued)] =
      if p.key = key then 1 else 0 := by
    simp [Issued.founds, List.countP_cons]
  simp only [foundings, log, List.countP_append]
  cases p.network.backend <;> simp [one] <;> omega

/-- The index agrees with the records and with what engines accepted. -/
structure Filed (h : Hub) : Prop where
  indexed : h.tree.Indexed
  counted : ∀ key, h.foundings key = (h.tree.index.get? key).isSome.toNat

variable {c : Command} {t : Turn}

/-- What is heard of one manager makes none. -/
theorem Of.founds {k : ManagerHandle} {b : Backend} {i : Issued} (hi : Of k b i) :
    i.founds key = false := by
  obtain ⟨-, named⟩ := hi
  obtain ⟨c, accepted⟩ := i
  cases c with
  | createManager => cases named
  | _ => rfl

/-- **Commands.** What a command does before the shutdown keeps the index in order. -/
theorem Filed.effect (hf : h.Filed) (effect : h.Effect c t) (going : t.life ≠ .stopped) :
    t.hub.Filed := by
  have quiet {g : Hub} {ns : List Notice} (hq : h.Quiet g ns) : g.Filed :=
    ⟨hq.tree ▸ hf.indexed, fun key => by rw [foundings_of_log hq.log, hq.tree, hf.counted]⟩
  cases effect with
  | about names about =>
    refine ⟨hf.indexed.within about.tree, fun key => ?_⟩
    rw [foundings_of_logs about.logs fun b i hi => hi.founds, about.tree.index, hf.counted]
  | quiet hq => exact quiet hq
  | ending life => exact absurd life going
  | founds asks founds =>
    cases founds with
    | known listed hq => exact quiet hq
    | refused unlisted tree told logs =>
      refine ⟨tree ▸ hf.indexed, fun key => ?_⟩
      rw [foundings_of_logs logs fun b i hi => by rw [hi]; rfl, tree, hf.counted]
    | @made m unlisted unknown key tree named log =>
      rw [← key] at unlisted tree
      refine ⟨tree ▸ hf.indexed.made unlisted unknown, fun key' => ?_⟩
      rw [foundings_made log, hf.counted, tree, Table.get?_put, ← key]
      by_cases hk : m.key = key'
      · simp [← hk, unlisted]
      · simp [hk]

/-- **Entries stay.** Nothing is taken out of the index before the shutdown. -/
theorem Effect.listed {k : ManagerHandle} (effect : h.Effect c t) (going : t.life ≠ .stopped)
    (listed : h.tree.index.get? key = some k) : t.hub.tree.index.get? key = some k := by
  cases effect with
  | about names about => rwa [about.tree.index]
  | quiet hq => rwa [hq.tree]
  | ending life => exact absurd life going
  | founds asks founds =>
    cases founds with
    | known _ hq => rwa [hq.tree]
    | refused _ tree => rwa [tree]
    | made unlisted _ _ tree =>
      rw [tree, Table.get?_put, if_neg, listed]
      intro same
      rw [same, listed] at unlisted
      cases unlisted

/-- A request for a manager that is in the index is answered with it. -/
theorem answer_of_listed {k : ManagerHandle} (listed : h.tree.index.get? p.key = some k) :
    (h.process (.request (.createManager p))).answer = some (.ok (.manager k)) := by
  have found : (h.count .request).createManager p = answer (h.count .request) (.manager k) := by
    unfold createManager
    split
    · rename_i j hj
      cases listed.symm.trans hj
      rfl
    · rename_i hj
      cases listed.symm.trans hj
  simp only [process_request, onRequest, found]
  rfl

/-- A manager that a request is answered with is in the index. -/
theorem listed_of_answer (fresh : h.Fresh) {k : ManagerHandle}
    (answer : (h.process (.request (.createManager p))).answer = some (.ok (.manager k))) :
    (h.process (.request (.createManager p))).hub.tree.index.get? p.key = some k := by
  obtain ⟨made, founds, granted⟩ := founds_process fresh p
  rw [answer] at granted
  cases founds with
  | @known j listed quiet =>
    cases (show some (Answer.manager k) = some (.manager j) from granted)
    rw [quiet.tree, listed]
  | refused => cases granted
  | @made m unlisted unknown key tree =>
    cases (show some (Answer.manager k) = some (.manager m.handle) from granted)
    rw [tree, Table.get?_put, if_pos rfl]

end Hub

namespace Session

variable {s : Session}

/-- Engines of a new session have heard nothing. -/
theorem log_opened (strict hasClient : Bool) (utxo account : Option Bool) (b : Backend) :
    (opened strict hasClient utxo account).hub.log b = [] := by
  unfold Hub.log
  split
  · rename_i e he
    obtain ⟨echo, rfl⟩ := engine_opened he
    rfl
  · rfl

/-- **Index.** Until the shutdown the index agrees with the records and with what engines accepted,
as long as the logs of the engines fit in memory. -/
theorem Reachable.filed (hs : s.Reachable) (fits : s.hub.Fits) (going : s.life ≠ .stopped) :
    s.hub.Filed := by
  obtain ⟨strict, hasClient, utxo, account, hrun⟩ := hs.opened_run
  refine Run.invariant_of_going (P := fun s => s.hub.Filed) (.opened ..) hrun fits going
    ⟨Tree.indexed_empty, fun key => ?_⟩ (fun s c hs fits _ going filed => ?_)
    fun s h tree log filed => ⟨tree ▸ filed.indexed, fun key => ?_⟩
  · simp only [Hub.foundings, log_opened]
    rfl
  · exact filed.effect (Hub.effect_process hs.sound (hs.fresh fits) c) going
  · rw [Hub.foundings_of_log log, tree, filed.counted]

/-- An entry of the index stays until the shutdown. -/
theorem Run.listed {s s' : Session} (hs : s.Reachable) (hrun : s.Run s') (fits : s'.hub.Fits)
    (going : s'.life ≠ .stopped) {key : String × String} {k : ManagerHandle}
    (listed : s.hub.tree.index.get? key = some k) : s'.hub.tree.index.get? key = some k :=
  Run.invariant_of_going (P := fun s => s.hub.tree.index.get? key = some k) hs hrun fits going
    listed
    (fun _ c hs fits _ going => (Hub.effect_process hs.sound (hs.fresh fits) c).listed going)
    fun _ _ tree _ listed => tree ▸ listed

/-- **One manager each.** Until the shutdown, as long as the logs of the engines fit in memory: the
index leads to a manager if and only if it is there and serves the account on the network; no two
managers serve the same; engines have accepted one request for it at most; and once a request is
answered with a manager, every further one for the same is answered with it. -/
theorem one_manager_each (hs : s.Reachable) (fits : s.hub.Fits) (going : s.life ≠ .stopped) :
    (∀ account network k, s.hub.tree.managerFor? account network = some k ↔
      ∃ m, s.hub.tree.manager? k = some m ∧ m.account.id = account ∧ m.network.name = network) ∧
    (∀ k k' m m', s.hub.tree.manager? k = some m → s.hub.tree.manager? k' = some m' →
      m.account.id = m'.account.id → m.network.name = m'.network.name → k = k') ∧
    (∀ key, s.hub.foundings key ≤ 1) ∧
    ∀ p k, s.life = .running →
      (s.hub.process (.request (.createManager p))).answer = some (.ok (.manager k)) →
      ∀ s', (s.take (.request (.createManager p))).Run s' → s'.hub.Fits → s'.life ≠ .stopped →
        ∀ p', p'.account.id = p.account.id → p'.network.name = p.network.name →
          (s'.hub.process (.request (.createManager p'))).answer = some (.ok (.manager k)) := by
  have filed := hs.filed fits going
  have entry (account network : String) (k : ManagerHandle) :
      s.hub.tree.managerFor? account network = some k ↔ ∃ m, s.hub.tree.manager? k = some m ∧
        m.account.id = account ∧ m.network.name = network := by
    rw [Tree.managerFor?, filed.indexed, Option.map_eq_some_iff]
    simp only [Manager.key, Prod.mk.injEq]
  refine ⟨entry, fun k k' m m' known known' account network => ?_, fun key => ?_,
    fun p k running answer s' hrun fits' going' p' account network => ?_⟩
  · have listed := (entry _ _ k).2 ⟨m, known, account, network⟩
    have listed' := (entry _ _ k').2 ⟨m', known', rfl, rfl⟩
    exact Option.some.inj (listed.symm.trans listed')
  · rw [filed.counted]
    exact Bool.toNat_le _
  · have listed := Hub.listed_of_answer (hs.fresh fits) answer
    have same : p'.key = p.key := Prod.ext account network
    exact Hub.answer_of_listed (same ▸ Run.listed (hs.step (.command _ running)) hrun fits' going'
      listed)

/-- A manager for the account and the network of the tour, in some mode and under some path. -/
def daveOn (mode : ManagerMode) (path : String) : Request :=
  .createManager ⟨⟨"dave", 0⟩, .ethereum true, mode, path⟩

/-- The manager of the tour is asked for again, and then it is deleted. -/
def settled : Session :=
  (tour.take (.request (daveOn .p2pOnly "/tmp/elsewhere"))).takes
    [.callback .account (.manager 0x2000 .deleted)]

/-- Even then it is answered with, and nobody makes another. -/
theorem one_manager_each_tour :
    (∃ m, tour.hub.tree.manager? ⟨.account, 0x2000⟩ = some m ∧ m.account.id = "dave" ∧
      m.network.name = (Network.ethereum true).name) ∧
    tour.hub.foundings ("dave", (Network.ethereum true).name) ≤ 1 ∧
    (settled.hub.process (.request (daveOn .apiOnly "/tmp/dave"))).answer =
      some (.ok (.manager ⟨.account, 0x2000⟩)) := by
  have going : tour.life ≠ .stopped := by decide +kernel
  have running : tour.life = .running := by decide +kernel
  have listed : tour.hub.tree.managerFor? "dave" (Network.ethereum true).name =
      some ⟨.account, 0x2000⟩ := by decide +kernel
  have answer : (tour.hub.process (.request (daveOn .p2pOnly "/tmp/elsewhere"))).answer =
      some (.ok (.manager ⟨.account, 0x2000⟩)) := by decide +kernel
  have fits : settled.hub.Fits := by
    apply Hub.fits_of_short
    intro b
    cases b <;> decide +kernel
  have going' : settled.life ≠ .stopped := by decide +kernel
  obtain ⟨entry, -, once, again⟩ := one_manager_each reachable_tour fits_tour going
  exact ⟨(entry _ _ _).1 listed, once _,
    again _ _ running answer settled (run_takes _ _) fits going' _ rfl rfl⟩

end Session
end WalletHub
