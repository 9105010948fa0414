import WalletHub.Proofs.Frozen

/-!
# Managers that are handed out

A request for a manager is answered with the one that serves the account on the network, and makes
it if there is none. A manager that is made can be used: it has its primary wallet from the start.
One that is found is the one in the index, and nothing takes it out of there. So it may have come to
its end before (`handed_out_deleted`), or its primary wallet may have (`handed_out_bereft`), and it
is handed out all the same.

* `Reachable.told_of_deleted`: a manager is deleted if and only if that was told.
* `Reachable.primary_set`: every manager has the handle of a primary wallet from the start.
* `managers_handed_out`: a manager that is handed out can be used unless its primary wallet was told
  to be deleted.
-/
namespace WalletHub

namespace Tree

/-- Every manager has the handle of a primary wallet. -/
def PrimarySet (t : Tree) : Prop := ∀ k, t.manager? k ≠ none → ∃ i, t.primaryOf? k = some i

end Tree

namespace Manager

theorem Usable.primary_set {m : Manager} (hm : m.Usable) : ∃ i, m.primaryWallet = some i := by
  obtain ⟨w, found, -⟩ := hm.primary
  obtain ⟨i, hi, -⟩ := Option.bind_eq_some_iff.1 found
  exact ⟨i, hi⟩

end Manager

namespace Hub

variable {h : Hub} {c : Command} {t : Turn} {k : ManagerHandle} {m : Manager}

/-- The managers that are new after a command can be used. -/
theorem Effect.usable (effect : h.Effect c t) (going : t.life ≠ .stopped)
    (unknown : h.tree.manager? k = none) (known : t.hub.tree.manager? k = some m) : m.Usable := by
  -- nobody came under a handle whose record is the same as before
  have same (still : t.hub.tree.manager? k = h.tree.manager? k) : m.Usable := by
    rw [still, unknown] at known
    cases known
  cases effect with
  | @about j names about =>
    by_cases hk : k = j
    · have key := about.tree.key
      rw [← hk, known, unknown] at key
      cases key
    · exact same (about.tree.others k hk)
  | quiet quiet => exact same (by rw [quiet.tree])
  | ending life => exact absurd life going
  | founds asks founds =>
    cases founds with
    | known listed quiet => exact same (by rw [quiet.tree])
    | refused unlisted tree => exact same (by rw [tree])
    | @made m' unlisted fresh key tree named log usable =>
      by_cases hk : m'.handle = k
      · subst hk
        have fresh : h.tree.managers.find? m'.handle = none := fresh
        rw [tree, Tree.manager?, Registry.find?_findOrCreate, if_pos rfl, fresh] at known
        cases known
        exact usable
      · exact same (by rw [tree, Tree.manager?, Registry.find?_findOrCreate, if_neg hk]; rfl)

end Hub

namespace Session

variable {s s' : Session} {k : ManagerHandle} {m : Manager}

/-- Every manager has the handle of a primary wallet, in every run. -/
theorem Reachable.primary_set (hs : s.Reachable) (fits : s.hub.Fits) (going : s.life ≠ .stopped) :
    s.hub.tree.PrimarySet := by
  obtain ⟨strict, hasClient, utxo, account, hrun⟩ := hs.opened_run
  refine Run.invariant_of_going (P := fun s => s.hub.tree.PrimarySet) (.opened ..) hrun fits going
    (fun k known => absurd rfl known) (fun s c hs fits running going set k known => ?_)
    fun s h tree _ set => tree ▸ set
  by_cases before : s.hub.tree.manager? k = none
  · obtain ⟨m, known⟩ := Option.ne_none_iff_exists'.1 known
    have usable := (Hub.effect_process hs.sound (hs.fresh fits) c).usable going before known
    obtain ⟨i, primary⟩ := usable.primary_set
    exact ⟨i, by rw [Tree.primaryOf?, known]; exact primary⟩
  · obtain ⟨i, primary⟩ := set k before
    refine ⟨i, (Run.primary_fixed hs (.single (.command c running)) primary).resolve_right ?_⟩
    rintro ⟨empty, -⟩
    rw [empty] at known
    exact known rfl

/-- A manager that is there is deleted if and only if that was told. -/
theorem Reachable.told_of_deleted (hs : s.Reachable) (fits : s.hub.Fits)
    (running : s.life = .running) (known : s.hub.tree.manager? k = some m) :
    m.state = .deleted ↔ .manager k .deleted ∈ s.notices := by
  obtain ⟨bracketing, handles, -⟩ := (hs.ordered_or_closed fits).1 running
  have closes : .closes ∈ strokes (.manager k) s.notices ↔ .manager k .deleted ∈ s.notices := by
    rw [mem_strokes]
    refine ⟨?_, fun told => ⟨_, told, rfl, rfl⟩⟩
    rintro ⟨n, hn, subject, stroke⟩
    cases n with
    | manager j n =>
      cases subject
      cases n <;> cases stroke
      exact hn
    | hub | wallet | transfer => cases subject
  have came : 0 < (strokes (.manager k) s.notices).count .opens := by
    have listed : k ∈ founded s.notices := by
      rw [← handles]
      exact List.mem_map.2 ⟨_, Registry.mem_of_findIn known, rfl⟩
    obtain ⟨n, hn, founds⟩ := List.mem_filterMap.1 listed
    refine List.count_pos_iff.2 (mem_strokes.2 ⟨n, hn, ?_⟩)
    cases n with
    | manager j n =>
      cases n <;> cases founds
      exact ⟨rfl, rfl⟩
    | hub | wallet | transfer => cases founds
  -- it came once, and its ends are one fewer than that while it is not deleted
  have once := bracketing.once k
  rw [show s.hub.tree.managerState? k = some m.state by simp [Tree.managerState?, known],
    Option.isSome_some, Bool.toNat_true] at once
  have balance := (bracketing.rows (.manager k)).balance
  rw [show s.hub.tree.holds (.manager k) = decide (m.state ≠ .deleted) by
    simp [Tree.holds, Tree.managerState?, known, alive]] at balance
  rw [← closes, ← List.count_pos_iff]
  by_cases deleted : m.state = .deleted
  · rw [decide_eq_false (not_not.2 deleted), Bool.toNat_false] at balance
    exact iff_of_true deleted (by omega)
  · rw [decide_eq_true deleted, Bool.toNat_true] at balance
    exact iff_of_false deleted (by omega)

/-- A manager has its primary wallet until that is told to be deleted. -/
theorem Reachable.usable_or_told (hs : s.Reachable) (fits : s.hub.Fits)
    (known : s.hub.tree.manager? k = some m) {i : WalletHandle}
    (primary : m.primaryWallet = some i) : m.Usable ∨ .wallet ⟨k, i⟩ .deleted ∈ s.notices := by
  by_cases told : .wallet ⟨k, i⟩ .deleted ∈ s.notices
  · exact .inr told
  obtain ⟨strict, hasClient, utxo, account, hrun⟩ := hs.opened_run
  obtain ⟨later, notices, kept⟩ := hrun.primary_kept (k := k) (.opened ..) fun m hm => by cases hm
  have untold : .wallet ⟨m.handle, i⟩ .deleted ∉ later := by
    rw [hs.sound.place known]
    exact fun hl => told (notices ▸ List.mem_append_right _ hl)
  obtain ⟨w, found, native⟩ := (kept m known).kept i primary untold
  refine .inl ⟨fun deleted => ?_, w, by simp [Manager.primary?, primary, found], native⟩
  -- a deleted manager has let go of its wallets
  rw [hs.bare fits k m known deleted] at found
  cases found

/-- **New managers.** In every run, as long as the logs of the engines fit in memory: when a request
is answered with a manager, the manager is there from then on and serves the account on the network.
If it is new, it can be used. It is deleted if and only if that was told, and it can be used unless
its primary wallet was told to be deleted. -/
theorem managers_handed_out (hs : s.Reachable) (running : s.life = .running) (fits : s.hub.Fits)
    {p : ManagerParams} (answered : (s.hub.process (.request (.createManager p))).answer =
      some (.ok (.manager k))) :
    (s.hub.tree.manager? k = none →
      ∃ m, (s.take (.request (.createManager p))).hub.tree.manager? k = some m ∧ m.Usable) ∧
    ∀ s', (s.take (.request (.createManager p))).Run s' → s'.hub.Fits → s'.life = .running →
      ∃ m i, s'.hub.tree.manager? k = some m ∧ m.account.id = p.account.id ∧
        m.network.name = p.network.name ∧
        (m.state = .deleted ↔ .manager k .deleted ∈ s'.notices) ∧
        m.primaryWallet = some i ∧ (m.Usable ∨ .wallet ⟨k, i⟩ .deleted ∈ s'.notices) := by
  have fresh := hs.fresh fits
  have hs₁ := hs.step (.command (.request (.createManager p)) running)
  refine ⟨fun unknown => ?_, fun s' hrun fits' running' => ?_⟩
  · obtain ⟨made, founds, granted⟩ := Hub.founds_process fresh p
    rw [answered] at granted
    cases founds with
    | @known j listed =>
      cases (show some (Answer.manager k) = some (.manager j) from granted)
      have filed := hs.filed fits (by simp [running])
      rw [filed.indexed, unknown] at listed
      cases listed
    | refused => cases granted
    | @made m unlisted new key tree named log usable =>
      cases (show some (Answer.manager k) = some (.manager m.handle) from granted)
      have new : s.hub.tree.managers.find? m.handle = none := new
      refine ⟨m, ?_, usable⟩
      rw [take, after, tree, Tree.manager?, Registry.find?_findOrCreate, if_pos rfl, new]
      rfl
  · have hs' := hs₁.run hrun
    have going : s'.life ≠ .stopped := by simp [running']
    have listed := hrun.listed hs₁ fits' going (Hub.listed_of_answer fresh answered)
    have there := ((hs'.filed fits' going).indexed _ _).1 listed
    obtain ⟨m, known, key⟩ := Option.map_eq_some_iff.1 there
    obtain ⟨i, primary⟩ := hs'.primary_set fits' going k (by simp [known])
    rw [Tree.primaryOf?, known] at primary
    exact ⟨m, i, known, congrArg Prod.fst key, congrArg Prod.snd key,
      hs'.told_of_deleted fits' running' known, primary, hs'.usable_or_told fits' known primary⟩

/-- A manager is made, and then another wallet of the native currency comes and goes. -/
def served : Session :=
  (accountsOnly.take (.request (daveOn .apiOnly "/tmp/dave"))).takes
    [.callback .account (.wallet 0x2000 0x9000 (.created "ETH")),
      .callback .account (.wallet 0x2000 0x9000 .deleted),
      .callback .account (.manager 0x2000 .connected)]

theorem managers_handed_out_served :
    (∃ m, (accountsOnly.take (.request (daveOn .apiOnly "/tmp/dave"))).hub.tree.manager?
      ⟨.account, 0x2000⟩ = some m ∧ m.Usable) ∧
    ∃ m, served.hub.tree.manager? ⟨.account, 0x2000⟩ = some m ∧ m.account.id = "dave" ∧
      m.network.name = (Network.ethereum true).name ∧ m.Usable := by
  have fits : accountsOnly.hub.Fits := by
    apply Hub.fits_of_short
    intro b
    cases b <;> decide +kernel
  have fits' : served.hub.Fits := by
    apply Hub.fits_of_short
    intro b
    cases b <;> decide +kernel
  have answered : (accountsOnly.hub.process (.request (daveOn .apiOnly "/tmp/dave"))).answer =
      some (.ok (.manager ⟨.account, 0x2000⟩)) := by decide +kernel
  have set : served.hub.tree.primaryOf? ⟨.account, 0x2000⟩ = some ⟨.account, 0x2001⟩ := by
    decide +kernel
  have intact : Notice.wallet ⟨⟨.account, 0x2000⟩, ⟨.account, 0x2001⟩⟩ .deleted ∉
      served.notices := by decide +kernel
  obtain ⟨new, later⟩ := managers_handed_out (.opened ..) (by decide +kernel) fits answered
  obtain ⟨m, i, known, account, network, -, primary, usable⟩ :=
    later served (run_takes _ _) fits' (by decide +kernel)
  rw [Tree.primaryOf?, known] at set
  cases primary.symm.trans set
  exact ⟨new (by decide +kernel), m, known, account, network, usable.resolve_right intact⟩

/-- A manager that was deleted is handed out again. -/
theorem handed_out_deleted :
    ¬∀ s : Session, s.Reachable → s.life = .running → ∀ p k,
      (s.hub.process (.request (.createManager p))).answer = some (.ok (.manager k)) →
        ∃ m, (s.take (.request (.createManager p))).hub.tree.manager? k = some m ∧
          m.account.id = p.account.id ∧ m.network.name = p.network.name ∧ m.Usable := by
  intro usable
  obtain ⟨m, known, -, -, usable⟩ := usable deserted ((Reachable.opened ..).takes _)
    (by decide +kernel) ⟨⟨"dave", 0⟩, .ethereum true, .apiOnly, "/tmp/dave"⟩ ⟨.account, 0x2000⟩
    (by decide +kernel)
  have deleted : ((deserted.take (.request (daveOn .apiOnly "/tmp/dave"))).hub.tree.manager?
      ⟨.account, 0x2000⟩).map (·.state) = some .deleted := by decide +kernel
  obtain ⟨m', known', deleted⟩ := Option.map_eq_some_iff.1 deleted
  cases known.symm.trans known'
  exact usable.live deleted

/-- A manager whose primary wallet its engine deletes. -/
def bereft : Session :=
  accountsOnly.takes
    [.request (daveOn .apiOnly "/tmp/dave"), .callback .account (.wallet 0x2000 0x2001 .deleted)]

/-- A manager that is not deleted but has lost its primary wallet is handed out again. -/
theorem handed_out_bereft :
    ¬∀ s : Session, s.Reachable → s.life = .running → ∀ p k,
      (s.hub.process (.request (.createManager p))).answer = some (.ok (.manager k)) →
        ∀ m, (s.take (.request (.createManager p))).hub.tree.manager? k = some m →
          m.state ≠ .deleted → m.Usable := by
  intro usable
  have here : ((bereft.take (.request (daveOn .apiOnly "/tmp/dave"))).hub.tree.manager?
      ⟨.account, 0x2000⟩).any (fun m => m.state ≠ .deleted ∧ m.primary? = none) = true := by
    decide +kernel
  obtain ⟨m, known, state⟩ := (Option.any_eq_true _ _).1 here
  obtain ⟨live, gone⟩ := of_decide_eq_true state
  obtain ⟨w, held, -⟩ := (usable bereft ((Reachable.opened ..).takes _) (by decide +kernel)
    ⟨⟨"dave", 0⟩, .ethereum true, .apiOnly, "/tmp/dave"⟩ ⟨.account, 0x2000⟩ (by decide +kernel)
    m known live).primary
  cases gone.symm.trans held

end Session
end WalletHub
