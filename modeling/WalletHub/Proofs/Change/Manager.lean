import WalletHub.Proofs.Change.Wallet
import WalletHub.Reaction.Manager

/-!
# What a manager can do

`Manager.Change` lists every single change of a manager and of what it holds. A deleted manager does
not change, unless an engine hands out its number again; `Manager.Step guarded` is a change that
takes the first for granted where `guarded` holds. Reactions are trails of steps, short of a count
of confirmations that cannot be held (`trail_react`, `trail_reactWallet`, `trail_reactTransfer`),
and so is the end of a manager, whose wallets go one by one (`trail_retire`).
-/
namespace WalletHub

/-- Whether a notice tells of the progress of a sync. -/
def ManagerNotice.isSync : ManagerNotice → Bool
  | .syncStarted | .syncProgress .. | .syncEnded _ => true
  | _ => false

theorem ManagerState.verdict_deleted {s : ManagerState} (h : s ≠ .deleted) :
    s.verdict .deleted = .allowed := by
  cases s <;> simp_all [verdict]

namespace Manager

/-- What a state machine says of a new state, with the record that comes of it. -/
theorem transition_cases (m : Manager) (new : ManagerState) :
    (m.state.verdict new = .same ∧ m.transition new = .ok none) ∨
    (m.state.verdict new = .allowed ∧ m.transition new = .ok (some { m with state := new })) ∨
    (m.state.verdict new = .refused ∧ m.transition new = .error (m.refusal new)) := by
  unfold transition
  cases m.state.verdict new <;> simp

/-- The primary wallet once a wallet of currency `c` was admitted. -/
def primaryWith (m : Manager) (h : WalletHandle) (c : Currency) : Option WalletHandle :=
  if sameCode c.code m.network.nativeCurrency ∧ m.primaryWallet = none then some h
  else m.primaryWallet

/-- One change of a manager, and what is told of it. -/
inductive Change : Manager → List Notice → Manager → Prop
  | moved {m : Manager} {new : ManagerState} (allowed : m.state.verdict new = .allowed)
      (alive : new ≠ .deleted) :
      Change m [.manager m.handle (.changed m.state new)] { m with state := new }
  | spoke {m : Manager} {n : ManagerNotice} (sync : n.isSync) : Change m [.manager m.handle n] m
  | raised {m : Manager} {height : UInt64} (new : m.height ≠ height) :
      Change m [.manager m.handle (.blockUpdated height)] { m with height := height }
  | confirmed {m : Manager} {h : WalletHandle} {w : Wallet} {k : TransferHandle} {t : Transfer}
      {n : UInt64} (wallet : m.wallets.find? h = some w) (known : w.transfers.find? k = some t) :
      Change m [.transfer ⟨m.handle, h, k⟩ (.confirmationsUpdated n)] m
  | walletCreated {m : Manager} {h : WalletHandle} {code : String} {c : Currency}
      (listed : m.network.currency? code = some c) (fresh : m.wallets.find? h = none)
      (side : h.backend = m.handle.backend) :
      Change m [.wallet ⟨m.handle, h⟩ .created, .manager m.handle (.walletAdded h)]
        { m with
          wallets := (m.wallets.findOrCreate h
            (Wallet.create ⟨m.handle, h⟩ c (m.feeCurrencyFor c))).1
          primaryWallet := m.primaryWith h c }
  | wallet {m : Manager} {h : WalletHandle} {w w' : Wallet} {ns : List Notice}
      (known : m.wallets.find? h = some w) (place : w.path = ⟨m.handle, h⟩)
      (change : Wallet.Change w ns w') :
      Change m ns { m with wallets := m.wallets.modify h fun _ => w' }
  | walletRetired {m : Manager} {h : WalletHandle} {w : Wallet}
      (known : m.wallets.find? h = some w) (born : w.state = .created)
      (bare : w.transfers = .empty) :
      Change m [.wallet ⟨m.handle, h⟩ (.changed .created .deleted), .wallet ⟨m.handle, h⟩ .deleted,
        .manager m.handle (.walletDeleted h)] { m with wallets := m.wallets.erase h }
  | retired {m : Manager} (live : m.state ≠ .deleted) (bare : m.wallets = .empty) :
      Change m [.manager m.handle (.changed m.state .deleted), .manager m.handle .deleted,
        .hub (.managerDeleted m.handle)] { m with state := .deleted }
  /-- A mode changes without a word. -/
  | modeSet {m : Manager} {mode : ManagerMode} : Change m [] { m with mode := mode }

/-- A change of a manager that is not deleted, if that is to be taken for granted. -/
def Step (guarded : Prop) (m : Manager) (ns : List Notice) (m' : Manager) : Prop :=
  (guarded → m.state ≠ .deleted) ∧ Change m ns m'

/-! ## Soundness -/

/-- Wallets have distinct handles, carry the paths they are filed under, are not deleted, and are
sound. -/
structure Sound (m : Manager) : Prop where
  nodup : m.wallets.handles.Nodup
  place : ∀ {h w}, m.wallets.find? h = some w → w.path = ⟨m.handle, h⟩
  born : ∀ {h w}, m.wallets.find? h = some w → w.state = .created
  sound : ∀ {h w}, m.wallets.find? h = some w → w.Sound

theorem sound_of_bare {m : Manager} (bare : m.wallets = .empty) : m.Sound := by
  have none : ∀ {h w}, m.wallets.find? h ≠ some w := by simp [bare]
  exact ⟨bare ▸ List.nodup_nil, fun hk => absurd hk none, fun hk => absurd hk none,
    fun hk => absurd hk none⟩

theorem Change.handle {m m' : Manager} {ns : List Notice} (hc : Change m ns m') :
    m'.handle = m.handle := by
  cases hc <;> rfl

/-- A manager with other wallets, each of which may be there. -/
theorem Sound.with_wallets {m m' : Manager} (handle : m'.handle = m.handle)
    (nodup : m'.wallets.handles.Nodup)
    (look : ∀ {h w}, m'.wallets.find? h = some w →
      w.path = ⟨m.handle, h⟩ ∧ w.state = .created ∧ w.Sound) : m'.Sound :=
  ⟨nodup, fun hw => handle ▸ (look hw).1, fun hw => (look hw).2.1, fun hw => (look hw).2.2⟩

theorem Sound.look {m : Manager} (hm : m.Sound) {h : WalletHandle} {w : Wallet}
    (hw : m.wallets.find? h = some w) : w.path = ⟨m.handle, h⟩ ∧ w.state = .created ∧ w.Sound :=
  ⟨hm.place hw, hm.born hw, hm.sound hw⟩

theorem sound_modify {m : Manager} {h : WalletHandle} {w : Wallet} (hm : m.Sound)
    (hp : w.path = ⟨m.handle, h⟩) (hb : w.state = .created) (hw : w.Sound) :
    { m with wallets := m.wallets.modify h fun _ => w }.Sound := by
  refine Sound.with_wallets (m := m) rfl (by simpa using hm.nodup) fun {k u} hu => ?_
  rw [Registry.find?_modify] at hu
  split at hu
  · rename_i hk
    obtain ⟨_, _, rfl⟩ := Option.map_eq_some_iff.1 hu
    exact ⟨hk ▸ hp, hb, hw⟩
  · exact hm.look hu

theorem Change.sound {m m' : Manager} {ns : List Notice} (hc : Change m ns m') (hm : m.Sound) :
    m'.Sound := by
  cases hc with
  | moved | raised | retired | modeSet => exact Sound.with_wallets rfl hm.nodup hm.look
  | spoke | confirmed => exact hm
  | @walletCreated h _ c _ fresh =>
    refine Sound.with_wallets rfl (Registry.handles_nodup_findOrCreate h _ hm.nodup)
      fun {k u} hu => ?_
    rw [Registry.find?_findOrCreate, fresh, Option.getD_none] at hu
    split at hu
    · rename_i hk
      cases hu
      exact ⟨hk ▸ rfl, rfl, Wallet.sound_create _ _ _⟩
    · exact hm.look hu
  | wallet known place change =>
    exact sound_modify hm (change.path.trans place) (change.state.trans (hm.born known))
      (change.sound (hm.sound known))
  | @walletRetired h w known =>
    refine Sound.with_wallets rfl (Registry.handles_nodup_erase h hm.nodup) fun {k u} hu => ?_
    rw [Registry.find?_erase] at hu
    split at hu
    · cases hu
    · exact hm.look hu

/-! ## Wallets within their manager -/

variable {guarded : Prop} {m : Manager}

theorem trail_one {m' : Manager} {ns : List Notice} (live : guarded → m.state ≠ .deleted)
    (hc : Change m ns m') : Trail (Step guarded) m ns m' :=
  .one ⟨live, hc⟩

/-- Notices that change nothing, one after the other. -/
theorem trail_say (live : guarded → m.state ≠ .deleted) :
    ∀ ns : List Notice, (∀ n ∈ ns, Change m [n] m) → Trail (Step guarded) m ns m
  | [], _ => .still m
  | n :: ns, h =>
    .trans (.one ⟨live, h n List.mem_cons_self⟩)
      (trail_say live ns fun x hx => h x (List.mem_cons_of_mem _ hx))

/-- A trail of a wallet is one of its manager. -/
theorem trail_wallet {h : WalletHandle} {w w' : Wallet} {ns : List Notice}
    (live : guarded → m.state ≠ .deleted) (known : m.wallets.find? h = some w)
    (place : w.path = ⟨m.handle, h⟩) (ht : Trail Wallet.Change w ns w') :
    Trail (Step guarded) m ns { m with wallets := m.wallets.modify h fun _ => w' } := by
  induction ht generalizing m with
  | still => rw [Registry.modify_const_self known]; exact .still m
  | @step a b c xs ys hc _ ih =>
    have hk : (m.wallets.modify h fun _ => b).find? h = some b :=
      Registry.modify_find?_self b known
    have hrest := ih (m := { m with wallets := m.wallets.modify h fun _ => b }) live hk
      (hc.path.trans place)
    simp only [Registry.modify_modify] at hrest
    exact .step ⟨live, .wallet known place hc⟩ hrest

/-- A wallet goes with all its transfers. -/
theorem trail_walletRetired {h : WalletHandle} {w : Wallet} (live : guarded → m.state ≠ .deleted)
    (hm : m.Sound) (known : m.wallets.find? h = some w) :
    Trail (Step guarded) m w.retirement { m with wallets := m.wallets.erase h } := by
  have place := hm.place known
  have born := hm.born known
  have hgone := trail_wallet live known place (Wallet.trail_empty (hm.sound known))
  have hk := Registry.modify_find?_self { w with transfers := .empty } known
  have hlast := trail_one (m := { m with wallets := m.wallets.modify h fun _ =>
    { w with transfers := .empty } }) live (.walletRetired hk born rfl)
  simp only [Registry.erase_modify] at hlast
  rw [Wallet.retirement_eq born, place]
  exact hgone.trans hlast

/-- **Ends.** A manager that is not deleted lets go of its wallets one by one, oldest first, and
then ends. -/
theorem trail_retire (live : m.state ≠ .deleted) (hm : m.Sound) :
    Trail (Step guarded) m m.retire.notices m.retire.value := by
  suffices hwallets : Trail (Step guarded) m (m.wallets.records.flatMap Wallet.retirement)
      { m with wallets := .empty } from
    hwallets.trans (trail_one (fun _ => live) (.retired live rfl))
  obtain ⟨handle, account, network, mode, storage, state, height, ⟨entries⟩, primary⟩ := m
  induction entries with
  | nil => exact .still _
  | cons e rest ih =>
    obtain ⟨h, w⟩ := e
    have known : (Registry.mk ((h, w) :: rest)).find? h = some w := by
      simp [Registry.find?, Registry.findIn]
    have hfirst : Trail (Step guarded) _ w.retirement _ :=
      trail_walletRetired (fun _ => live) hm known
    have hsound := hfirst.invariant (fun hs => hs.2.sound) hm
    simp only [Registry.erase_head hm.nodup] at hfirst hsound
    exact hfirst.trans (ih live hsound)

/-! ## Reactions as trails -/

theorem trail_moveTo {new : ManagerState} (live : guarded → m.state ≠ .deleted)
    (alive : new ≠ .deleted) (more : List ManagerNotice) (hs : ∀ n ∈ more, n.isSync) :
    Trail (Step guarded) m (m.moveTo new (more.map (.manager m.handle))).notices
      (m.moveTo new (more.map (.manager m.handle))).value := by
  unfold moveTo
  rcases m.transition_cases new with ⟨-, ht⟩ | ⟨allowed, ht⟩ | ⟨-, ht⟩
  · rw [ht]; exact .still m
  · rw [ht]
    refine .step ⟨live, .moved allowed alive⟩ (trail_say (fun _ => alive) _ fun x hx => ?_)
    obtain ⟨n, hn, rfl⟩ := List.mem_map.1 hx
    exact .spoke (m := { m with state := new }) (hs n hn)
  · rw [ht]; exact .still m

/-- A transfer of a manager is found where its path says. -/
theorem find_of_mem_transfers (hm : m.Sound) {t : Transfer} (ht : t ∈ m.transfers) :
    ∃ h w k, m.wallets.find? h = some w ∧ w.transfers.find? k = some t ∧
      t.path = ⟨m.handle, h, k⟩ := by
  obtain ⟨w, hw, ht⟩ := List.mem_flatMap.1 ht
  obtain ⟨⟨h, _⟩, hwe, rfl⟩ := List.mem_map.1 hw
  obtain ⟨⟨k, _⟩, hte, rfl⟩ := List.mem_map.1 ht
  have hfw := Registry.findIn_of_mem hm.nodup hwe
  have hft := Registry.findIn_of_mem (hm.sound hfw).nodup hte
  refine ⟨h, _, k, hfw, hft, ?_⟩
  rw [(hm.sound hfw).place hft, hm.place hfw]
  rfl

/-- What transfers say at a new height: each at most its confirmations. -/
theorem mem_of_confirmationNotices {height : UInt64} {limit : UInt32} {ts : List Transfer}
    {nss : List (List Notice)} (h : ts.mapM (confirmationNotices? height limit) = some nss) :
    ∀ x ∈ nss.flatten, ∃ t ∈ ts, ∃ n, x = .transfer t.path (.confirmationsUpdated n) := by
  induction ts generalizing nss with
  | nil => cases h; simp
  | cons t ts ih =>
    rw [List.mapM_cons] at h
    simp only [bind, Option.bind_eq_some_iff, pure, Option.some.injEq] at h
    obtain ⟨ns, hn, rest, hrest, rfl⟩ := h
    intro x hx
    rw [List.flatten_cons, List.mem_append] at hx
    rcases hx with hx | hx
    · refine ⟨t, List.mem_cons_self, ?_⟩
      unfold confirmationNotices? at hn
      repeat' split at hn
      all_goals cases hn
      all_goals simp at hx
      exact ⟨_, hx⟩
    · obtain ⟨u, hu, n, rfl⟩ := ih hrest x hx
      exact ⟨u, List.mem_cons_of_mem _ hu, n, rfl⟩

theorem trail_receiveHeight (live : guarded → m.state ≠ .deleted) (hm : m.Sound) (height : UInt64)
    (held : (m.receiveHeight height).fault ≠ some .overflow) :
    Trail (Step guarded) m (m.receiveHeight height).notices (m.receiveHeight height).value := by
  unfold receiveHeight setHeight at held ⊢
  by_cases hh : m.height = height
  · simp only [hh, if_true]; exact .still m
  · simp only [hh, if_false] at held ⊢
    cases hc : m.transfers.mapM (confirmationNotices? height m.network.confirmationsUntilFinal) with
    | none => rw [hc] at held; exact absurd rfl held
    | some nss =>
      refine .step ⟨live, .raised hh⟩ (trail_say (m := { m with height := height }) live _
        fun x hx => ?_)
      obtain ⟨t, ht, n, rfl⟩ := mem_of_confirmationNotices hc x hx
      obtain ⟨h, w, k, hw, hk, place⟩ := find_of_mem_transfers hm ht
      rw [place]
      exact .confirmed (m := { m with height := height }) hw hk

theorem trail_reactLive (live : guarded → m.state ≠ .deleted) (hm : m.Sound) (c : ManagerCallback)
    (held : (m.reactLive c).fault ≠ some .overflow) :
    Trail (Step guarded) m (m.reactLive c).notices (m.reactLive c).value := by
  cases c with
  | created | deleted => exact .still m
  | connected => exact trail_moveTo live (by simp) [] (by simp)
  | disconnected reason => exact trail_moveTo live (by simp) [] (by simp)
  | syncStarted => exact trail_moveTo live (by simp) [.syncStarted] (by simp [ManagerNotice.isSync])
  | syncProgress percent timestamp =>
    simp only [reactLive]
    split
    · exact trail_one live (.spoke rfl)
    · exact .still m
  | syncStopped reason =>
    simp only [reactLive]
    split
    · exact trail_moveTo live (by simp) [.syncEnded reason] (by simp [ManagerNotice.isSync])
    · exact trail_one live (.spoke rfl)
  | blockHeightUpdated height => exact trail_receiveHeight live hm height held

/-- A callback that comes for a deleted manager does nothing. -/
theorem trail_ifLive {r : Reaction Manager}
    (hr : m.state ≠ .deleted → Trail (Step guarded) m r.notices r.value) :
    Trail (Step guarded) m (m.ifLive r).notices (m.ifLive r).value := by
  unfold ifLive
  split
  · exact .still m
  · rename_i live; exact hr live

/-- **Managers.** Whatever a callback about a manager does to it is a trail of steps, unless a
number of confirmations cannot be held. -/
theorem trail_react (hm : m.Sound) (c : ManagerCallback)
    (held : (m.react c).fault ≠ some .overflow) :
    Trail (Step guarded) m (m.react c).notices (m.react c).value := by
  have hlive : c ≠ .deleted → Trail (Step guarded) m (m.react c).notices (m.react c).value := by
    intro hc
    have heq : m.react c = m.ifLive (m.reactLive c) := by
      cases c <;> first | rfl | exact absurd rfl hc
    rw [heq] at held ⊢
    refine trail_ifLive fun live => trail_reactLive (fun _ => live) hm c ?_
    simpa [ifLive, live] using held
  by_cases hc : c = .deleted
  · subst hc
    simp only [react]
    split
    · exact .still m
    · rename_i live; exact trail_retire live hm
  · exact hlive hc

theorem trail_withWallet {h : WalletHandle} {f : Wallet → Reaction Wallet}
    (live : guarded → m.state ≠ .deleted) (hm : m.Sound)
    (hf : ∀ w, w.path = ⟨m.handle, h⟩ → w.Sound →
      Trail Wallet.Change w (f w).notices (f w).value) :
    Trail (Step guarded) m (m.withWallet h f).notices (m.withWallet h f).value := by
  unfold withWallet
  split
  · exact .still m
  · rename_i w known
    have place := hm.place known
    exact trail_wallet live known place (hf w place (hm.sound known))

/-- A wallet that is admitted stands behind the others. -/
theorem value_admitWallet (reads : EngineReads) {m : Manager} {h : WalletHandle} {code : String}
    {c : Currency} (listed : m.network.currency? code = some c)
    (unknown : ¬m.wallets.contains h = true) :
    (m.admitWallet reads h code).value = { m with
      wallets := (m.wallets.findOrCreate h (m.newWallet reads h c).value).1
      primaryWallet := m.primaryWith h c } := by
  simp only [admitWallet, listed, unknown, if_false, Bool.false_eq_true]
  rfl

/-- What a new wallet takes over from its engine is a trail of changes. -/
theorem trail_newWallet (m : Manager) (reads : EngineReads) (h : WalletHandle) (c : Currency) :
    Trail Wallet.Change (.create ⟨m.handle, h⟩ c (m.feeCurrencyFor c))
      (m.newWallet reads h c).notices (m.newWallet reads h c).value :=
  Wallet.trail_andThen (Wallet.trail_refreshBalance reads _) (Wallet.trail_refreshFeeBasis reads _)

theorem trail_admitWallet (reads : EngineReads) {h : WalletHandle} (code : String)
    (side : h.backend = m.handle.backend) (live : guarded → m.state ≠ .deleted) :
    Trail (Step guarded) m (m.admitWallet reads h code).notices
      (m.admitWallet reads h code).value := by
  unfold admitWallet
  split
  · exact .still m
  · rename_i c listed
    by_cases hk : m.wallets.contains h
    · simp only [hk, if_true]; exact .still m
    · simp only [hk, if_false, Bool.false_eq_true]
      have fresh : m.wallets.find? h = none := by simpa [Registry.contains] using hk
      have hnew := Change.walletCreated listed fresh side
      let w := Wallet.create ⟨m.handle, h⟩ c (m.feeCurrencyFor c)
      have known : (m.wallets.findOrCreate h w).1.find? h = some w := by
        simp [Registry.find?_findOrCreate, fresh]
      have hwallet : Trail (Step guarded) _ _ _ :=
        trail_wallet (m := { m with
            wallets := (m.wallets.findOrCreate h w).1, primaryWallet := m.primaryWith h c })
          live known rfl (trail_newWallet m reads h c)
      rw [Registry.modify_findOrCreate _ _ fresh] at hwallet
      exact .step ⟨live, hnew⟩ hwallet

theorem trail_dropWallet (h : WalletHandle) (live : guarded → m.state ≠ .deleted) (hm : m.Sound) :
    Trail (Step guarded) m (m.dropWallet h).notices (m.dropWallet h).value := by
  unfold dropWallet
  split
  · exact .still m
  · rename_i w known; exact trail_walletRetired live hm known

/-- **Wallets.** Whatever a callback about a wallet does to its manager is a trail of steps. -/
theorem trail_reactWallet (reads : EngineReads) (hm : m.Sound) {h : WalletHandle}
    (side : h.backend = m.handle.backend) (c : WalletCallback) :
    Trail (Step guarded) m (m.reactWallet reads h c).notices (m.reactWallet reads h c).value := by
  refine trail_ifLive fun live => ?_
  cases c with
  | created code => exact trail_admitWallet reads code side fun _ => live
  | balanceUpdated raw =>
    refine trail_withWallet (fun _ => live) hm fun w _ _ => ?_
    split
    · exact .still w
    · rename_i read; exact Wallet.trail_receiveBalance read
  | defaultFeeBasisUpdated raw =>
    refine trail_withWallet (fun _ => live) hm fun w _ _ => ?_
    split
    · exact .still w
    · rename_i read; exact Wallet.trail_receiveFeeBasis read
  | deleted => exact trail_dropWallet h (fun _ => live) hm

/-- **Transfers.** Whatever a callback about a transfer does to its manager is a trail of steps. -/
theorem trail_reactTransfer (reads : EngineReads) (hm : m.Sound) (h : WalletHandle)
    {t : TransferHandle} (side : t.backend = m.handle.backend) (c : TransferCallback) :
    Trail (Step guarded) m (m.reactTransfer reads h t c).notices
      (m.reactTransfer reads h t c).value :=
  trail_ifLive fun live => trail_withWallet (fun _ => live) hm fun _ place hw =>
    Wallet.trail_reactTransfer reads hw (by rw [place]; exact side) c

end Manager
end WalletHub
