import WalletHub.Proofs.Reports
import WalletHub.Proofs.Run

/-!
# Callbacks delivered twice

An engine may deliver a callback more than once. The second delivery finds in the records what the
first one wrote, so it writes the same again or nothing, and there is nothing to tell. It does not
matter what the engine says of balances and fees in between: it is asked only by the delivery that
admits, settles or drops a record. Two callbacks are told each time they come: the progress of a
sync, and its end.

`Reaction.Idle` says that a reaction does nothing, and `Manager.Again` that one reaction of a
manager comes again after another.

* `Wallet.again_reactTransfer`: transfers within their wallet.
* `Manager.again_react`, `Manager.again_reactWallet`, `Manager.again_reactTransfer`: the second of
  two deliveries to a manager.
* `Session.redelivered`: the same in every run, and creations of records that are there.
-/
namespace WalletHub

namespace Reaction

variable {α β : Type}

@[simp] theorem value_still (a : α) : (still a).value = a := rfl

@[simp] theorem value_announce (a : α) (ns : List Notice) : (announce a ns).value = a := rfl

@[simp] theorem value_discard (a : α) (e : HubError) : (Reaction.discard a e).value = a := rfl

/-- The record stays as it is, and nothing is said. -/
structure Idle (r : Reaction α) (a : α) : Prop where
  value : r.value = a
  notices : r.notices = []

theorem idle_still (a : α) : (still a).Idle a := ⟨rfl, rfl⟩

theorem idle_discard (a : α) (e : HubError) : (discard a e).Idle a := ⟨rfl, rfl⟩

theorem Idle.map {r : Reaction α} {a : α} (h : r.Idle a) (f : α → β) : (r.map f).Idle (f a) :=
  ⟨congrArg f h.value, h.notices⟩

end Reaction

open Reaction

@[simp] theorem TransferState.verdict_self (s : TransferState) : s.verdict s = .same := by
  simp [verdict]

@[simp] theorem ManagerState.verdict_self (s : ManagerState) : s.verdict s = .same := by
  simp [verdict]

/-- Only a state itself is the same. -/
theorem TransferState.eq_of_same {s new : TransferState} (h : s.verdict new = .same) : s = new := by
  by_contra hne
  unfold verdict at h
  rw [if_neg hne] at h
  split at h
  all_goals first | cases h | skip
  split at h <;> cases h

namespace Wallet

/-! ## Wallets -/

theorem idle_receiveBalance (w : Wallet) (b : Amount) :
    ({ w with balance := b }.receiveBalance b).Idle { w with balance := b } := by
  simp only [receiveBalance, if_true]
  exact idle_still _

theorem idle_receiveFeeBasis (w : Wallet) (b : FeeBasis) :
    ({ w with defaultFeeBasis := some b }.receiveFeeBasis b).Idle
      { w with defaultFeeBasis := some b } := by
  simp only [receiveFeeBasis, if_true]
  exact idle_still _

theorem value_andThen_refreshBalance (reads : EngineReads) {r : Reaction Wallet}
    (done : r.fault = none) :
    ∃ b, (r.andThen (refreshBalance reads)).value = { r.value with balance := b } := by
  simp only [andThen, done]
  exact ⟨_, value_refreshBalance reads r.value⟩

/-- A transfer that is there is not admitted again, whatever is said of it. -/
theorem idle_admitTransfer (reads : EngineReads) {w : Wallet} {h : TransferHandle} {t : Transfer}
    (known : w.transfers.find? h = some t) (raw : RawTransfer) :
    (w.admitTransfer reads h raw).Idle w := by
  unfold admitTransfer
  split
  · exact idle_discard w _
  · rw [Registry.findOrCreate_of_find?_some _ known]
    exact idle_still w

/-- A transfer in a state, with a hash if one comes along, is not moved there. -/
theorem idle_advance (reads : EngineReads) {w : Wallet} {h : TransferHandle} {t : Transfer}
    {hash : Option TransferHash} {new : TransferState} (known : w.transfers.find? h = some t)
    (there : t.state = new) (kept : hashed t hash = t) : (w.advance reads h hash new).Idle w := by
  have same : t.transition new = .ok none := by simp [Transfer.transition, there]
  have still : w.advance reads h hash new = .still (w.withTransfer h t) := by
    cases hash with
    | none => simp only [advance, known, same]
    | some x =>
      have kept : t.setHash x = t := kept
      simp only [advance, known, kept, same]
  rw [still, withTransfer_self known]
  exact idle_still w

@[simp] theorem hashed_hashed (t : Transfer) (hash : Option TransferHash) :
    hashed (hashed t hash) hash = hashed t hash := by
  cases hash <;> rfl

@[simp] theorem state_hashed (t : Transfer) (hash : Option TransferHash) :
    (hashed t hash).state = t.state := by
  cases hash <;> rfl

/-- A move leaves the transfer in its new state, with its hash. -/
theorem value_advance (reads : EngineReads) {w : Wallet} {h : TransferHandle} {t : Transfer}
    (hash : Option TransferHash) {new : TransferState} (known : w.transfers.find? h = some t)
    (follows : t.state.verdict new ≠ .refused) :
    ∃ b, (w.advance reads h hash new).value =
      { w.withTransfer h { hashed t hash with state := new } with balance := b } := by
  have moved : ∀ {w : Wallet} {t : Transfer}, w.transfers.find? h = some t →
      t.state.verdict new ≠ .refused → ∃ b, (w.advance reads h none new).value =
        { w.withTransfer h { t with state := new } with balance := b } := by
    intro w t known follows
    simp only [advance, known]
    rcases t.transition_cases new with ⟨same, ht⟩ | ⟨-, ht⟩ | ⟨refused, -⟩
    · have there := TransferState.eq_of_same same
      subst there
      rw [ht]
      exact ⟨w.balance, rfl⟩
    · rw [ht]
      cases new with
      | included c => exact value_andThen_refreshBalance reads rfl
      | failed f => exact value_andThen_refreshBalance reads rfl
      | created | signed | submitted | deleted => exact ⟨w.balance, rfl⟩
    · exact absurd refused follows
  cases hash with
  | none => exact moved known follows
  | some x =>
    rw [advance_some reads x new known]
    obtain ⟨b, hb⟩ := moved (find?_withTransfer (t.setHash x) known) follows
    rw [withTransfer_withTransfer] at hb
    exact ⟨b, hb⟩

/-- Moving a transfer changes no more than the transfers and the balance of its wallet. -/
theorem frame_advance (reads : EngineReads) (w : Wallet) (h : TransferHandle)
    (hash : Option TransferHash) (new : TransferState) :
    ∃ ts b, (w.advance reads h hash new).value = { w with transfers := ts, balance := b } := by
  cases known : w.transfers.find? h with
  | none =>
    rw [advance_unknown reads hash new known]
    exact ⟨w.transfers, w.balance, rfl⟩
  | some t =>
    by_cases refused : t.state.verdict new = .refused
    · rw [advance_refused reads hash known refused]
      exact ⟨_, w.balance, rfl⟩
    · obtain ⟨b, hb⟩ := value_advance reads hash known refused
      exact ⟨_, b, hb⟩

/-- A move that was made, or refused, comes again. -/
theorem again_advance (reads reads' : EngineReads) (w : Wallet) (h : TransferHandle)
    (hash : Option TransferHash) (new : TransferState) :
    ((w.advance reads h hash new).value.advance reads' h hash new).Idle
      (w.advance reads h hash new).value := by
  cases known : w.transfers.find? h with
  | none =>
    rw [advance_unknown reads hash new known, value_discard, advance_unknown reads' hash new known]
    exact idle_discard w _
  | some t =>
    by_cases refused : t.state.verdict new = .refused
    · -- the first delivery left the hash; the second one is refused with the hash in place
      have left : (w.advance reads h hash new).value = w.withTransfer h (hashed t hash) := by
        rw [advance_refused reads hash known refused]
        rfl
      have known' := find?_withTransfer (hashed t hash) known
      rw [left, advance_refused reads' hash known' (by simpa using refused), hashed_hashed,
        withTransfer_withTransfer]
      exact idle_discard _ _
    · obtain ⟨b, left⟩ := value_advance reads hash known refused
      rw [left]
      refine idle_advance reads' (t := { hashed t hash with state := new }) ?_ rfl ?_
      · exact find?_withTransfer _ known
      · cases hash <;> rfl

theorem again_admitTransfer (reads reads' : EngineReads) (w : Wallet) (h : TransferHandle)
    (raw : RawTransfer) :
    ((w.admitTransfer reads h raw).value.admitTransfer reads' h raw).Idle
      (w.admitTransfer reads h raw).value := by
  cases read : w.decodeTransfer h raw with
  | error e =>
    have refused : ∀ rs : EngineReads, w.admitTransfer rs h raw = .discard w (.decode e) := by
      intro rs
      simp only [admitTransfer, read]
    rw [refused, value_discard, refused]
    exact idle_discard w _
  | ok t =>
    cases known : w.transfers.find? h with
    | some u =>
      rw [(idle_admitTransfer reads known raw).value]
      exact idle_admitTransfer reads' known raw
    | none =>
      have found : (w.transfers.findOrCreate h t).1.find? h = some t := by
        rw [Registry.find?_findOrCreate, known]
        simp
      simp only [admitTransfer, read, Registry.findOrCreate_of_find?_none t known] at found ⊢
      obtain ⟨b, left⟩ := value_andThen_refreshBalance reads (r := .announce
        { w with transfers := ⟨w.transfers.entries ++ [(h, t)]⟩ }
        [.transfer (w.path.child h) .created, .wallet w.path (.transferAdded (w.path.child h))]) rfl
      rw [left]
      exact idle_admitTransfer reads' (t := t) found raw

theorem again_dropTransfer (reads reads' : EngineReads) (w : Wallet) (h : TransferHandle) :
    ((w.dropTransfer reads h).value.dropTransfer reads' h).Idle (w.dropTransfer reads h).value := by
  have lost : ∀ {v : Wallet}, v.transfers.find? h = none → (v.dropTransfer reads' h).Idle v := by
    intro v unknown
    simp only [dropTransfer, unknown]
    exact idle_discard v _
  cases known : w.transfers.find? h with
  | none =>
    simp only [dropTransfer, known]
    exact lost known
  | some t =>
    obtain ⟨b, left⟩ := value_andThen_refreshBalance reads
      (r := .announce { w with transfers := w.transfers.erase h } t.retirement) rfl
    have dropped : (w.dropTransfer reads h).value =
        { w with transfers := w.transfers.erase h, balance := b } := by
      simp only [dropTransfer, known]
      exact left
    rw [dropped]
    apply lost
    simp [Registry.find?_erase]

theorem again_advanceHashed (reads reads' : EngineReads) (w : Wallet) (h : TransferHandle)
    (hash : Option (List UInt8)) (new : TransferState) :
    ((w.advanceHashed reads h hash new).value.advanceHashed reads' h hash new).Idle
      (w.advanceHashed reads h hash new).value := by
  cases read : hash.mapM (TransferHash.decode w.backend) with
  | error e =>
    have unread (rs : EngineReads) : w.advanceHashed rs h hash new = .discard w (.decode e) := by
      simp only [advanceHashed, read]
    rw [unread, value_discard, unread]
    exact idle_discard w _
  | ok x =>
    have first : w.advanceHashed reads h hash new = w.advance reads h x new := by
      simp only [advanceHashed, read]
    obtain ⟨ts, b, left⟩ := frame_advance reads w h x new
    have backend : (w.advance reads h x new).value.backend = w.backend := by rw [left]; rfl
    rw [first, advanceHashed, backend, read]
    exact again_advance reads reads' w h x new

/-- **Transfers.** A callback about a transfer that comes again does nothing to its wallet. -/
theorem again_reactTransfer (reads reads' : EngineReads) (w : Wallet) (h : TransferHandle)
    (c : TransferCallback) :
    ((w.reactTransfer reads h c).value.reactTransfer reads' h c).Idle
      (w.reactTransfer reads h c).value := by
  cases c with
  | created attributes => exact again_admitTransfer reads reads' w h attributes
  | signed hash => exact again_advanceHashed reads reads' w h hash _
  | submitted hash => exact again_advanceHashed reads reads' w h hash _
  | included n i s fee =>
    cases read : Amount.parse fee w.feeCurrency with
    | error e =>
      have unread (rs : EngineReads) :
          w.reactTransfer rs h (.included n i s fee) = .discard w (.decode e) := by
        simp only [reactTransfer, read]
      rw [unread, value_discard, unread]
      exact idle_discard w _
    | ok paid =>
      obtain ⟨ts, b, left⟩ := frame_advance reads w h none (.included ⟨n, i, s, paid⟩)
      have fees : (w.advance reads h none (.included ⟨n, i, s, paid⟩)).value.feeCurrency =
          w.feeCurrency := by rw [left]
      simp only [reactTransfer, read, fees]
      exact again_advance reads reads' w h none _
  | errored error => exact again_advance reads reads' w h none _
  | deleted => exact again_dropTransfer reads reads' w h

end Wallet

/-- Whether a callback is told each time it comes: the progress of a sync, and its end. -/
def ManagerCallback.isReport : ManagerCallback → Bool
  | .syncProgress .. | .syncStopped _ => true
  | _ => false

namespace Manager

/-! ## Managers -/

/-- The manager `m` reacts as `r`, and then as `r'` when the same comes again: its record stays, and
nothing is said unless it is said `aloud` each time. -/
structure Again (m : Manager) (r r' : Reaction Manager) (aloud : Bool) : Prop where
  handle : r.value.handle = m.handle
  value : r'.value = r.value
  silent : aloud = false → r'.notices = []

theorem Again.of_idle {m : Manager} {r r' : Reaction Manager} (aloud : Bool)
    (handle : r.value.handle = m.handle) (idle : r'.Idle r.value) : m.Again r r' aloud :=
  ⟨handle, idle.value, fun _ => idle.notices⟩

/-- What comes for a deleted manager is discarded both times. -/
theorem again_ifLive {m : Manager} {r : Reaction Manager} {f : Manager → Reaction Manager}
    {aloud : Bool} (live : m.state ≠ .deleted → m.Again r (f r.value) aloud) :
    m.Again (m.ifLive r) ((m.ifLive r).value.ifLive (f (m.ifLive r).value)) aloud := by
  by_cases gone : m.state = .deleted
  · have first : m.ifLive r = .discard m (.resolution (.managerDeleted m.handle)) := by
      simp only [ifLive, gone, if_true]
    rw [first]
    simp only [value_discard, ifLive, gone, if_true]
    exact .of_idle aloud rfl (idle_discard m _)
  · have first : m.ifLive r = r := by simp only [ifLive, gone, if_false]
    have again := live gone
    rw [first]
    unfold ifLive
    split
    · exact .of_idle aloud again.handle (idle_discard _ _)
    · exact again

theorem again_moveTo (m : Manager) (new : ManagerState) (more more' : List Notice) (aloud : Bool) :
    m.Again (m.moveTo new more) ((m.moveTo new more).value.moveTo new more') aloud := by
  rcases m.transition_cases new with ⟨-, ht⟩ | ⟨-, ht⟩ | ⟨-, ht⟩
  · simp only [moveTo, ht, value_still]
    exact .of_idle aloud rfl (idle_still m)
  · have there : { m with state := new }.transition new = .ok none := by simp [transition]
    simp only [moveTo, ht, value_announce, there]
    exact .of_idle aloud rfl (idle_still _)
  · simp only [moveTo, ht, value_discard]
    exact .of_idle aloud rfl (idle_discard m _)

theorem again_receiveHeight (m : Manager) (height : UInt64) (aloud : Bool) :
    m.Again (m.receiveHeight height) ((m.receiveHeight height).value.receiveHeight height)
      aloud := by
  have left : (m.receiveHeight height).value = { m with height := height } := by
    unfold receiveHeight setHeight
    by_cases hh : m.height = height
    · subst hh
      simp [still]
    · simp only [hh, if_false]
      split <;> rfl
  rw [left]
  refine .of_idle aloud (by rw [left]) ?_
  rw [left]
  simp only [receiveHeight, setHeight, if_true]
  exact idle_still _

/-- **Managers.** A callback about a manager that comes again does nothing to it. -/
theorem again_react (m : Manager) (c : ManagerCallback) :
    m.Again (m.react c) ((m.react c).value.react c) c.isReport := by
  cases c with
  | deleted =>
    by_cases gone : m.state = .deleted
    · simp only [react, gone, if_true, value_still]
      exact .of_idle _ rfl (idle_still m)
    · simp only [react, gone, if_false, retire, value_announce, if_true]
      exact .of_idle _ rfl (idle_still _)
  | created =>
    refine again_ifLive (f := fun m => m.reactLive _) fun _ => ?_
    exact .of_idle _ rfl (idle_still m)
  | connected | disconnected reason | syncStarted =>
    exact again_ifLive (f := fun m => m.reactLive _) fun _ => again_moveTo m _ _ _ _
  | blockHeightUpdated height =>
    exact again_ifLive (f := fun m => m.reactLive _) fun _ => again_receiveHeight m height _
  | syncProgress percent timestamp =>
    have same : ∀ m : Manager, (m.reactLive (.syncProgress percent timestamp)).value = m := by
      intro m
      simp only [reactLive]
      split <;> rfl
    refine again_ifLive (f := fun m => m.reactLive _) fun _ => ?_
    exact ⟨by rw [same], by rw [same], fun quiet => by cases quiet⟩
  | syncStopped reason =>
    refine again_ifLive (f := fun m => m.reactLive _) fun _ => ?_
    refine ⟨?_, ?_, fun quiet => by cases quiet⟩
    · simp only [reactLive]
      split
      · exact (again_moveTo m .connected _ [] true).handle
      · rfl
    · by_cases hs : m.state = .syncing
      · have moved :
            (m.reactLive (.syncStopped reason)).value = { m with state := .connected } := by
          simp [reactLive, hs, moveTo, transition, ManagerState.verdict, announce]
        rw [moved]
        simp [reactLive, announce]
      · simp [reactLive, hs, announce]

/-- What comes again to a wallet comes again to its manager. -/
theorem again_withWallet {m : Manager} {h : WalletHandle} {f g : Wallet → Reaction Wallet}
    (aloud : Bool) (again : ∀ w, (g (f w).value).Idle (f w).value) :
    m.Again (m.withWallet h f) ((m.withWallet h f).value.withWallet h g) aloud := by
  cases known : m.wallets.find? h with
  | none =>
    simp only [withWallet, known, value_discard]
    exact .of_idle aloud rfl (idle_discard m _)
  | some w =>
    have known' := Registry.modify_find?_self (f w).value known
    simp only [withWallet, known, value_map, known']
    refine .of_idle aloud rfl ?_
    have idle := (again w).map fun w' => ({ m with
      wallets := (m.wallets.modify h fun _ => (f w).value).modify h fun _ => w' } : Manager)
    simp only [Registry.modify_const_self known'] at idle
    exact idle

/-- A wallet that is there is not admitted again, in whatever currency. -/
theorem idle_admitWallet (reads : EngineReads) {m : Manager} {h : WalletHandle}
    (known : m.wallets.contains h = true) (code : String) :
    (m.admitWallet reads h code).Idle m := by
  unfold admitWallet
  split
  · exact idle_discard m _
  · rw [if_pos known]
    exact idle_still m

theorem again_admitWallet (reads reads' : EngineReads) (m : Manager) (h : WalletHandle)
    (code : String) (aloud : Bool) :
    m.Again (m.admitWallet reads h code)
      ((m.admitWallet reads h code).value.admitWallet reads' h code) aloud := by
  by_cases known : m.wallets.contains h = true
  · have first := (idle_admitWallet reads known code).value
    rw [first]
    exact .of_idle aloud (by rw [first]) (first.symm ▸ idle_admitWallet reads' known code)
  · cases listed : m.network.currency? code with
    | none =>
      have refused : ∀ rs : EngineReads, m.admitWallet rs h code =
          .discard m (.resolution (.unknownCurrency m.network.name code)) := by
        intro rs
        simp only [admitWallet, listed]
      rw [refused, value_discard, refused]
      exact .of_idle aloud rfl (idle_discard m _)
    | some c =>
      have left := value_admitWallet reads listed known
      refine .of_idle aloud (by rw [left]) ?_
      rw [left]
      apply idle_admitWallet reads'
      simp [Registry.contains, Registry.find?_findOrCreate]

theorem again_dropWallet (m : Manager) (h : WalletHandle) (aloud : Bool) :
    m.Again (m.dropWallet h) ((m.dropWallet h).value.dropWallet h) aloud := by
  cases known : m.wallets.find? h with
  | none =>
    simp only [dropWallet, known, value_discard]
    exact .of_idle aloud rfl (idle_discard m _)
  | some w =>
    have gone : (m.wallets.erase h).find? h = none := by simp [Registry.find?_erase]
    simp only [dropWallet, known, value_announce, gone]
    exact .of_idle aloud rfl (idle_discard _ _)

/-- **Wallets.** A callback about a wallet that comes again does nothing to its manager. -/
theorem again_reactWallet (reads reads' : EngineReads) (m : Manager) (h : WalletHandle)
    (c : WalletCallback) (aloud : Bool) :
    m.Again (m.reactWallet reads h c) ((m.reactWallet reads h c).value.reactWallet reads' h c)
      aloud := by
  cases c with
  | created code =>
    exact again_ifLive (f := fun m => m.admitWallet reads' h code) fun _ =>
      again_admitWallet reads reads' m h code aloud
  | balanceUpdated raw =>
    refine again_ifLive (f := fun m => m.withWallet h _) fun _ =>
      again_withWallet aloud fun w => ?_
    cases read : w.normalizeBalance raw with
    | error e =>
      simp only [value_discard, read]
      exact idle_discard w _
    | ok b =>
      have read' : { w with balance := b }.normalizeBalance raw = .ok b := read
      simp only [Wallet.value_receiveBalance, read']
      exact w.idle_receiveBalance b
  | defaultFeeBasisUpdated raw =>
    refine again_ifLive (f := fun m => m.withWallet h _) fun _ =>
      again_withWallet aloud fun w => ?_
    cases read : w.normalizeFeeBasis raw with
    | error e =>
      simp only [value_discard, read]
      exact idle_discard w _
    | ok b =>
      have read' : { w with defaultFeeBasis := some b }.normalizeFeeBasis raw = .ok b := read
      simp only [Wallet.value_receiveFeeBasis, read']
      exact w.idle_receiveFeeBasis b
  | deleted =>
    exact again_ifLive (f := fun m => m.dropWallet h) fun _ => again_dropWallet m h aloud

/-- **Transfers.** A callback about a transfer that comes again does nothing to its manager. -/
theorem again_reactTransfer (reads reads' : EngineReads) (m : Manager) (h : WalletHandle)
    (t : TransferHandle) (c : TransferCallback) (aloud : Bool) :
    m.Again (m.reactTransfer reads h t c)
      ((m.reactTransfer reads h t c).value.reactTransfer reads' h t c) aloud :=
  again_ifLive (f := fun m => m.withWallet h fun w => w.reactTransfer reads' t c) fun _ =>
    again_withWallet aloud fun w => w.again_reactTransfer reads reads' t c

end Manager

/-- Whether a callback is told each time it comes. -/
def EngineCallback.isReport : EngineCallback → Bool
  | .manager _ event => event.isReport
  | _ => false

/-- A callback announces the creation of a wallet or a transfer that is there. -/
def Tree.Knows (t : Tree) (b : Backend) : EngineCallback → Prop
  | .wallet m w (.created _) => t.wallet? ⟨⟨b, m⟩, ⟨b, w⟩⟩ ≠ none
  | .transfer m w k (.created _) => t.transfer? ⟨⟨b, m⟩, ⟨b, w⟩, ⟨b, k⟩⟩ ≠ none
  | _ => False

namespace Hub

open Handling

/-! ## The hub -/

variable {h g : Hub}

/-- Where a manager keeps its record, the hub keeps its records. -/
theorem tree_toManager_self {k : ManagerHandle} {m : Manager} {f : Manager → Reaction Manager}
    (known : g.tree.manager? k = some m) (place : m.handle = k) (kept : (f m).value = m) :
    (g.toManager k f).hub.tree = g.tree := by
  simp only [toManager, known]
  change g.tree.put (f m).value = g.tree
  rw [kept]
  exact Tree.put_self (place ▸ known)

/-- What comes again to a manager comes again to the hub. -/
theorem again_toManager (hs : h.tree.Sound) {k : ManagerHandle}
    {f f' : Manager → Reaction Manager} {aloud : Bool}
    (again : ∀ m : Manager, m.Again (f m) (f' (f m).value) aloud)
    (hg : g.tree = (h.toManager k f).hub.tree) :
    (g.toManager k f').hub.tree = g.tree ∧ (aloud = false → (g.toManager k f').notices = []) := by
  cases known : h.tree.manager? k with
  | none =>
    have unknown : g.tree.manager? k = none := by
      simp only [toManager, known] at hg
      rw [hg]
      exact known
    simp only [toManager, unknown]
    exact ⟨rfl, fun _ => rfl⟩
  | some m =>
    have place := hs.place known
    subst place
    have same := (again m).handle
    have known' : g.tree.manager? m.handle = some (f m).value := by
      simp only [toManager, known] at hg
      rw [hg]
      change (h.tree.put (f m).value).manager? m.handle = _
      rw [Tree.manager?_put known same, if_pos rfl]
    refine ⟨tree_toManager_self known' same (again m).value, fun quiet => ?_⟩
    simp only [toManager, known']
    exact (again m).silent quiet

/-- The second of two deliveries, however the engines were set up in between. -/
theorem again_onCallback (hs : h.tree.Sound) (b : Backend) (c : EngineCallback)
    (hg : g.tree = (h.onCallback b c).hub.tree) :
    (g.onCallback b c).hub.tree = g.tree ∧
      (c.isReport = false → (g.onCallback b c).notices = []) := by
  cases c with
  | manager k event => exact again_toManager hs (fun m => m.again_react event) hg
  | wallet k w event =>
    exact again_toManager hs (fun m => m.again_reactWallet (h.reads b) (g.reads b) _ event _) hg
  | transfer k w t event =>
    exact again_toManager hs (fun m => m.again_reactTransfer (h.reads b) (g.reads b) _ _ event _) hg
  | queryRequested k i q =>
    obtain ⟨quiet, kept, -⟩ := silent_onQuery g b k i q
    exact ⟨kept, fun _ => quiet⟩

theorem tree_concludeCallback (h : Hub) (r : Handling) :
    (concludeCallback h r).hub.tree = r.hub.tree := by
  unfold concludeCallback
  split
  · rfl
  · split
    · rfl
    · split <;> rfl

theorem mail_concludeCallback (h : Hub) {r : Handling} (quiet : r.notices = []) :
    (concludeCallback h r).mail = [] := by
  unfold concludeCallback
  split
  · exact mail_conclude quiet _ _
  · split
    · rfl
    · split
      · exact mail_conclude quiet _ _
      · exact mail_conclude quiet _ _

/-- **Two deliveries.** -/
theorem again_process (hs : h.tree.Sound) (b : Backend) (c : EngineCallback)
    (hg : g.tree = (h.process (.callback b c)).hub.tree) :
    (g.process (.callback b c)).hub.tree = g.tree ∧
      (c.isReport = false → (g.process (.callback b c)).mail = []) := by
  simp only [process, tree_concludeCallback] at hg ⊢
  obtain ⟨kept, quiet⟩ := again_onCallback (h := (h.count _).count _) (g := (g.count _).count _)
    hs b c hg
  exact ⟨kept, fun hc => mail_concludeCallback g (quiet hc)⟩

/-- **Creations.** What is there is not created again. -/
theorem known_process (hs : h.tree.Sound) {b : Backend} {c : EngineCallback}
    (known : h.tree.Knows b c) :
    (h.process (.callback b c)).hub.tree = h.tree ∧ (h.process (.callback b c)).mail = [] := by
  -- the manager that is found does nothing
  have led : ∀ {g : Hub} {k m} {f : Manager → Reaction Manager}, g.tree = h.tree →
      h.tree.manager? k = some m → (m.ifLive (f m)).Idle m →
        (g.toManager k fun m => m.ifLive (f m)).hub.tree = h.tree ∧
          (g.toManager k fun m => m.ifLive (f m)).notices = [] := by
    intro g k m f hg hm idle
    have hm' : g.tree.manager? k = some m := hg ▸ hm
    refine ⟨(tree_toManager_self hm' (hs.place hm) idle.value).trans hg, ?_⟩
    simp only [toManager, hm']
    exact idle.notices
  have guarded : ∀ {m : Manager} {r : Reaction Manager}, r.Idle m → (m.ifLive r).Idle m := by
    intro m r idle
    unfold Manager.ifLive
    split
    · exact idle_discard m _
    · exact idle
  suffices handled : ∀ g : Hub, g.tree = h.tree →
      (g.onCallback b c).hub.tree = h.tree ∧ (g.onCallback b c).notices = [] by
    obtain ⟨kept, quiet⟩ := handled ((h.count _).count _) rfl
    simp only [process, tree_concludeCallback]
    exact ⟨kept, mail_concludeCallback h quiet⟩
  intro g hg
  cases c with
  | manager k event | queryRequested k i q => cases known
  | wallet k w event =>
    cases event with
    | balanceUpdated | defaultFeeBasisUpdated | deleted => cases known
    | created code =>
      obtain ⟨v, hv⟩ := Option.ne_none_iff_exists'.1 known
      obtain ⟨m, hm, hw⟩ := Option.bind_eq_some_iff.1 hv
      have there : m.wallets.contains ⟨b, w⟩ = true := by simp [Registry.contains, hw]
      exact led (f := fun m => m.admitWallet (g.reads b) ⟨b, w⟩ code) hg hm
        (guarded (Manager.idle_admitWallet _ there code))
  | transfer k w t event =>
    cases event with
    | signed | submitted | included | errored | deleted => cases known
    | created raw =>
      obtain ⟨u, hu⟩ := Option.ne_none_iff_exists'.1 known
      obtain ⟨v, hv, ht⟩ := Option.bind_eq_some_iff.1 hu
      obtain ⟨m, hm, hw⟩ := Option.bind_eq_some_iff.1 hv
      have idle : (m.withWallet ⟨b, w⟩ fun v => v.admitTransfer (g.reads b) ⟨b, t⟩ raw).Idle m := by
        have hw : m.wallets.find? ⟨b, w⟩ = some v := hw
        have same := (Wallet.idle_admitTransfer (g.reads b) ht raw).map fun w' =>
          ({ m with wallets := m.wallets.modify ⟨b, w⟩ fun _ => w' } : Manager)
        simp only [Registry.modify_const_self hw] at same
        simp only [Manager.withWallet, hw]
        exact same
      exact led (f := fun m => m.withWallet ⟨b, w⟩ fun v =>
        v.admitTransfer (g.reads b) ⟨b, t⟩ raw) hg hm (guarded idle)

end Hub

namespace Session

/-- **Redelivery.** In every run, let a callback be handled, and let it come again, at once or after
engines were set up differently and time went by: at any `u` with the records that the first
delivery left. Then the records stay as they are and, unless the callback reports on a sync, nothing
is told. And a callback that announces the creation of a wallet or a transfer that is there changes
nothing and is not told, the first time and whatever it says of it. -/
theorem redelivered {s : Session} (hs : s.Reachable) (b : Backend) (c : EngineCallback) :
    (∀ u : Session, u.hub.tree = (s.take (.callback b c)).hub.tree →
      (u.take (.callback b c)).hub.tree = u.hub.tree ∧
        (c.isReport = false → (u.take (.callback b c)).mail = u.mail)) ∧
      (s.hub.tree.Knows b c →
        (s.take (.callback b c)).hub.tree = s.hub.tree ∧
          (s.take (.callback b c)).mail = s.mail) := by
  constructor
  · intro u hu
    obtain ⟨kept, quiet⟩ := Hub.again_process hs.sound b c hu
    refine ⟨kept, fun hc => ?_⟩
    simp [take, after, quiet hc]
  · intro known
    obtain ⟨kept, quiet⟩ := Hub.known_process hs.sound known
    refine ⟨kept, ?_⟩
    simp [take, after, quiet]

/-- The transfer of the tour is included. -/
def tourInclusion : EngineCallback :=
  .transfer 0x2000 0x2001 0x6000 (.included 9 0 0 "21000")

/-- Its creation is announced once more, with other attributes. -/
def tourCreation : EngineCallback :=
  .transfer 0x2000 0x2001 0x6000 (.created ⟨none, none, "7", .received, none, none⟩)

/-- The first inclusion is written and told, the second is not, and the transfer is not created
again. -/
theorem redelivered_tour :
    (tour.take (.callback .account tourInclusion)).hub.tree ≠ tour.hub.tree ∧
      ((tour.take (.callback .account tourInclusion)).take
        (.callback .account tourInclusion)).hub.tree =
          (tour.take (.callback .account tourInclusion)).hub.tree ∧
      ((tour.take (.callback .account tourInclusion)).take
        (.callback .account tourInclusion)).mail =
          (tour.take (.callback .account tourInclusion)).mail ∧
      (tour.take (.callback .account tourCreation)).hub.tree = tour.hub.tree ∧
      (tour.take (.callback .account tourCreation)).mail = tour.mail :=
  have twice := (redelivered reachable_tour .account tourInclusion).1 _ rfl
  have known := (redelivered reachable_tour .account tourCreation).2 (by
    simp only [Tree.Knows, tourCreation]
    decide +kernel)
  ⟨by decide +kernel, twice.1, twice.2 rfl, known.1, known.2⟩

end Session
end WalletHub
