import WalletHub.Proofs.Registry
import WalletHub.Proofs.Trail
import WalletHub.Reaction.Wallet

/-!
# What a wallet can do

`Wallet.Change` lists every single change of a wallet and of the transfers it holds, with the
notices that tell of it. All reactions of wallets are trails of these changes
(`trail_reactTransfer`), and a wallet goes by letting go of its transfers one by one
(`trail_empty`). A wallet is sound if its transfers carry the paths they are filed under and none of
them is deleted; every change keeps that (`Change.sound`).
-/
namespace WalletHub

/-- What a state machine says of a new state, with the record that comes of it. -/
theorem Transfer.transition_cases (t : Transfer) (new : TransferState) :
    (t.state.verdict new = .same ∧ t.transition new = .ok none) ∨
    (t.state.verdict new = .allowed ∧ t.transition new = .ok (some { t with state := new })) ∨
    (t.state.verdict new = .refused ∧ t.transition new = .error (t.refusal new)) := by
  unfold transition
  cases t.state.verdict new <;> simp

/-- A transfer that is not deleted yet can be. -/
theorem TransferState.verdict_deleted {s : TransferState} (h : s ≠ .deleted) :
    s.verdict .deleted = .allowed := by
  cases s <;> simp_all [verdict]

/-- The end of a transfer in full. -/
theorem Transfer.retirement_eq {t : Transfer} (live : t.state ≠ .deleted) :
    t.retirement = [.transfer t.path (.changed t.state .deleted), .transfer t.path .deleted,
      .wallet t.path.parent (.transferDeleted t.path)] := by
  simp [retirement, transition, TransferState.verdict_deleted live]

/-- What was read, of something that may be missing, was read from it. -/
theorem read_of_mapM {ε α β : Type} {f : α → Except ε β} {o : Option α} {r : Option β}
    (h : o.mapM f = .ok r) {b : β} (hb : r = some b) : ∃ a, f a = .ok b := by
  subst hb
  cases o with
  | none => cases h
  | some a =>
    simp only [Option.mapM_some] at h
    cases hf : f a with
    | error e => rw [hf] at h; cases h
    | ok c => rw [hf] at h; cases h; exact ⟨a, hf⟩

namespace Wallet

/-- The end of a wallet in full: its transfers go first. -/
theorem retirement_eq {w : Wallet} (born : w.state = .created) :
    w.retirement = w.transfers.records.flatMap Transfer.retirement ++
      [.wallet w.path (.changed .created .deleted), .wallet w.path .deleted,
        .manager w.path.manager (.walletDeleted w.path.wallet)] := by
  simp [retirement, transition, born, WalletState.verdict]

/-- One change of a wallet, and what is told of it. -/
inductive Change : Wallet → List Notice → Wallet → Prop
  | balance {w : Wallet} {raw : RawBalance} {b : Amount} (read : w.normalizeBalance raw = .ok b)
      (new : b ≠ w.balance) :
      Change w [.wallet w.path (.balanceUpdated b),
        .manager w.path.manager (.walletChanged w.path.wallet)] { w with balance := b }
  | feeBasis {w : Wallet} {raw : RawFeeBasis} {b : FeeBasis}
      (read : w.normalizeFeeBasis raw = .ok b) (new : w.defaultFeeBasis ≠ some b) :
      Change w [.wallet w.path (.feeBasisUpdated b),
        .manager w.path.manager (.walletChanged w.path.wallet)] { w with defaultFeeBasis := some b }
  | transferCreated {w : Wallet} {h : TransferHandle} {raw : RawTransfer} {t : Transfer}
      (read : w.decodeTransfer h raw = .ok t) (fresh : w.transfers.find? h = none)
      (side : h.backend = w.path.manager.backend) :
      Change w [.transfer (w.path.child h) .created,
        .wallet w.path (.transferAdded (w.path.child h))]
        { w with transfers := (w.transfers.findOrCreate h t).1 }
  /-- A hash is taken over without a word. -/
  | hashed {w : Wallet} {h : TransferHandle} {t : Transfer} {raw : List UInt8} {x : TransferHash}
      (known : w.transfers.find? h = some t) (read : TransferHash.decode w.backend raw = .ok x) :
      Change w [] (w.withTransfer h (t.setHash x))
  | transferMoved {w : Wallet} {h : TransferHandle} {t : Transfer} {new : TransferState}
      (known : w.transfers.find? h = some t) (allowed : t.state.verdict new = .allowed)
      (alive : new ≠ .deleted)
      (paid : ∀ c, new = .included c → ∃ raw, Amount.parse raw w.feeCurrency = .ok c.fee) :
      Change w [.transfer (w.path.child h) (.changed t.state new),
        .wallet w.path (transferNotice (w.path.child h) new)]
        (w.withTransfer h { t with state := new })
  | transferRetired {w : Wallet} {h : TransferHandle} {t : Transfer}
      (known : w.transfers.find? h = some t) (live : t.state ≠ .deleted) :
      Change w [.transfer (w.path.child h) (.changed t.state .deleted),
        .transfer (w.path.child h) .deleted, .wallet w.path (.transferDeleted (w.path.child h))]
        { w with transfers := w.transfers.erase h }

/-! ## Soundness -/

/-- Transfers have distinct handles, carry the paths they are filed under, and are not deleted. -/
structure Sound (w : Wallet) : Prop where
  nodup : w.transfers.handles.Nodup
  place : ∀ {h t}, w.transfers.find? h = some t → t.path = w.path.child h
  live : ∀ {h t}, w.transfers.find? h = some t → t.state ≠ .deleted

theorem sound_create (p : WalletPath) (c f : Currency) : (Wallet.create p c f).Sound :=
  ⟨List.nodup_nil, fun h => (by cases h), fun h => (by cases h)⟩

theorem path_of_decodeTransfer {w : Wallet} {h : TransferHandle} {raw : RawTransfer} {t : Transfer}
    (hd : w.decodeTransfer h raw = .ok t) : t.path = w.path.child h ∧ t.state = .created := by
  unfold decodeTransfer at hd
  simp only [bind, Except.bind, pure, Except.pure] at hd
  repeat' split at hd
  all_goals cases hd
  exact ⟨rfl, rfl⟩

theorem sound_withTransfer {w : Wallet} {h : TransferHandle} {t : Transfer} (hw : w.Sound)
    (hp : t.path = w.path.child h) (hl : t.state ≠ .deleted) : (w.withTransfer h t).Sound := by
  have look : ∀ {k u}, (w.withTransfer h t).transfers.find? k = some u →
      u.path = w.path.child k ∧ u.state ≠ .deleted := by
    intro k u hu
    simp only [withTransfer, Registry.find?_modify] at hu
    split at hu
    · rename_i hk
      obtain ⟨_, _, rfl⟩ := Option.map_eq_some_iff.1 hu
      exact ⟨hk ▸ hp, hl⟩
    · exact ⟨hw.place hu, hw.live hu⟩
  exact ⟨by simpa [withTransfer] using hw.nodup, fun hu => (look hu).1, fun hu => (look hu).2⟩

theorem Change.path {w w' : Wallet} {ns : List Notice} (hc : Change w ns w') :
    w'.path = w.path := by
  cases hc <;> rfl

theorem Change.state {w w' : Wallet} {ns : List Notice} (hc : Change w ns w') :
    w'.state = w.state := by
  cases hc <;> rfl

theorem Change.currency {w w' : Wallet} {ns : List Notice} (hc : Change w ns w') :
    w'.currency = w.currency := by
  cases hc <;> rfl

theorem Change.sound {w w' : Wallet} {ns : List Notice} (hc : Change w ns w') (hw : w.Sound) :
    w'.Sound := by
  cases hc with
  | balance | feeBasis => exact ⟨hw.nodup, hw.place, hw.live⟩
  | @transferCreated h _ t read fresh =>
    have look : ∀ {k u}, (w.transfers.findOrCreate h t).1.find? k = some u →
        u.path = w.path.child k ∧ u.state ≠ .deleted := by
      intro k u hu
      rw [Registry.find?_findOrCreate, fresh, Option.getD_none] at hu
      split at hu
      · rename_i hk
        cases hu
        have hnew := path_of_decodeTransfer read
        exact ⟨hk ▸ hnew.1, by simp [hnew.2]⟩
      · exact ⟨hw.place hu, hw.live hu⟩
    exact ⟨Registry.handles_nodup_findOrCreate h t hw.nodup, fun hu => (look hu).1,
      fun hu => (look hu).2⟩
  | hashed known =>
    have place := hw.place known
    have live := hw.live known
    exact sound_withTransfer hw place live
  | transferMoved known _ alive =>
    have place := hw.place known
    exact sound_withTransfer hw place alive
  | @transferRetired h t =>
    have look : ∀ {k u}, (w.transfers.erase h).find? k = some u →
        w.transfers.find? k = some u := by
      intro k u hu
      rw [Registry.find?_erase] at hu
      split at hu
      · cases hu
      · exact hu
    exact ⟨Registry.handles_nodup_erase h hw.nodup, fun hu => hw.place (look hu),
      fun hu => hw.live (look hu)⟩

/-! ## Reactions as trails -/

theorem trail_receiveBalance {w : Wallet} {raw : RawBalance} {b : Amount}
    (read : w.normalizeBalance raw = .ok b) :
    Trail Change w (w.receiveBalance b).notices (w.receiveBalance b).value := by
  unfold receiveBalance
  split
  · exact .still w
  · rename_i hb; exact .one (.balance read hb)

theorem trail_receiveFeeBasis {w : Wallet} {raw : RawFeeBasis} {b : FeeBasis}
    (read : w.normalizeFeeBasis raw = .ok b) :
    Trail Change w (w.receiveFeeBasis b).notices (w.receiveFeeBasis b).value := by
  unfold receiveFeeBasis
  split
  · exact .still w
  · rename_i hb; exact .one (.feeBasis read hb)

theorem trail_refreshBalance (reads : EngineReads) (w : Wallet) :
    Trail Change w (w.refreshBalance reads).notices (w.refreshBalance reads).value := by
  unfold refreshBalance
  split
  · exact .still w
  · split
    · rename_i read; exact trail_receiveBalance read
    · exact .still w

theorem trail_refreshFeeBasis (reads : EngineReads) (w : Wallet) :
    Trail Change w (w.refreshFeeBasis reads).notices (w.refreshFeeBasis reads).value := by
  unfold refreshFeeBasis
  split
  · exact .still w
  · split
    · rename_i read; exact trail_receiveFeeBasis read
    · exact .still w

/-- One reaction after the other is one trail after the other. -/
theorem trail_andThen {w : Wallet} {r : Reaction Wallet} {f : Wallet → Reaction Wallet}
    (hr : Trail Change w r.notices r.value)
    (hf : Trail Change r.value (f r.value).notices (f r.value).value) :
    Trail Change w (r.andThen f).notices (r.andThen f).value := by
  unfold Reaction.andThen
  split
  · exact hr
  · exact hr.trans hf

theorem trail_admitTransfer (reads : EngineReads) (w : Wallet) {h : TransferHandle}
    (raw : RawTransfer) (side : h.backend = w.path.manager.backend) :
    Trail Change w (w.admitTransfer reads h raw).notices (w.admitTransfer reads h raw).value := by
  unfold admitTransfer
  split
  · exact .still w
  · rename_i t read
    cases hf : w.transfers.find? h with
    | some u => rw [Registry.findOrCreate_of_find?_some t hf]; exact .still w
    | none =>
      have hnew := Change.transferCreated read hf side
      rw [Registry.findOrCreate_of_find?_none t hf] at hnew ⊢
      exact trail_andThen (.one hnew) (trail_refreshBalance reads _)

theorem withTransfer_withTransfer (w : Wallet) (h : TransferHandle) (t u : Transfer) :
    (w.withTransfer h t).withTransfer h u = w.withTransfer h u := by
  simp [withTransfer]

theorem withTransfer_self {w : Wallet} {h : TransferHandle} {t : Transfer}
    (known : w.transfers.find? h = some t) : w.withTransfer h t = w := by
  simp only [withTransfer, Registry.modify_const_self known]

theorem find?_withTransfer {w : Wallet} {h : TransferHandle} {t : Transfer} (u : Transfer)
    (known : w.transfers.find? h = some t) : (w.withTransfer h u).transfers.find? h = some u :=
  Registry.modify_find?_self u known

/-- The part of `advance` after the hash was seen to. -/
theorem trail_advance_none (reads : EngineReads) {w : Wallet} {h : TransferHandle} {t : Transfer}
    {new : TransferState} (known : w.transfers.find? h = some t) (alive : new ≠ .deleted)
    (paid : ∀ c, new = .included c → ∃ raw, Amount.parse raw w.feeCurrency = .ok c.fee) :
    Trail Change w (w.advance reads h none new).notices (w.advance reads h none new).value := by
  simp only [advance, known]
  rcases t.transition_cases new with ⟨-, ht⟩ | ⟨allowed, ht⟩ | ⟨-, ht⟩
  · rw [ht]
    simp only [Reaction.still, withTransfer_self known]
    exact .still w
  · rw [ht]
    have hmove := Trail.one (Change.transferMoved known allowed alive paid)
    cases new with
    | included c => exact trail_andThen hmove (trail_refreshBalance reads _)
    | failed f => exact trail_andThen hmove (trail_refreshBalance reads _)
    | created | signed | submitted | deleted => exact hmove
  · rw [ht]
    simp only [Reaction.discard, withTransfer_self known]
    exact .still w

/-- Moving with a hash is taking over the hash and then moving. -/
theorem advance_some (reads : EngineReads) {w : Wallet} {h : TransferHandle} {t : Transfer}
    (x : TransferHash) (new : TransferState) (known : w.transfers.find? h = some t) :
    w.advance reads h (some x) new = (w.withTransfer h (t.setHash x)).advance reads h none new := by
  have hk := find?_withTransfer (t.setHash x) known
  simp only [advance, known, hk, withTransfer_withTransfer]
  rfl

theorem trail_advance (reads : EngineReads) {w : Wallet} {h : TransferHandle}
    {hash : Option TransferHash} {new : TransferState} (alive : new ≠ .deleted)
    (paid : ∀ c, new = .included c → ∃ raw, Amount.parse raw w.feeCurrency = .ok c.fee)
    (read : ∀ x, hash = some x → ∃ raw, TransferHash.decode w.backend raw = .ok x) :
    Trail Change w (w.advance reads h hash new).notices (w.advance reads h hash new).value := by
  cases known : w.transfers.find? h with
  | none => simp only [advance, known]; exact .still w
  | some t =>
    cases hash with
    | none => exact trail_advance_none reads known alive paid
    | some x =>
      obtain ⟨raw, hx⟩ := read x rfl
      rw [advance_some reads x new known]
      exact .step (.hashed known hx)
        (trail_advance_none reads (find?_withTransfer _ known) alive paid)

theorem trail_advanceHashed (reads : EngineReads) (w : Wallet) (h : TransferHandle)
    (hash : Option (List UInt8)) {new : TransferState} (alive : new ≠ .deleted)
    (early : ∀ c, new ≠ .included c) :
    Trail Change w (w.advanceHashed reads h hash new).notices
      (w.advanceHashed reads h hash new).value := by
  unfold advanceHashed
  split
  · exact .still w
  · rename_i hx
    exact trail_advance reads alive (fun c hc => absurd hc (early c)) fun _ hy => read_of_mapM hx hy

theorem change_retirement {w : Wallet} (hw : w.Sound) {h : TransferHandle} {t : Transfer}
    (known : w.transfers.find? h = some t) :
    Change w t.retirement { w with transfers := w.transfers.erase h } := by
  rw [Transfer.retirement_eq (hw.live known), hw.place known]
  exact .transferRetired known (hw.live known)

theorem trail_dropTransfer (reads : EngineReads) {w : Wallet} (hw : w.Sound) (h : TransferHandle) :
    Trail Change w (w.dropTransfer reads h).notices (w.dropTransfer reads h).value := by
  unfold dropTransfer
  split
  · exact .still w
  · rename_i t known
    exact trail_andThen (.one (change_retirement hw known)) (trail_refreshBalance reads _)

/-- **Transfers.** Whatever a callback about a transfer does to its wallet is a trail of changes. -/
theorem trail_reactTransfer (reads : EngineReads) {w : Wallet} (hw : w.Sound) {h : TransferHandle}
    (side : h.backend = w.path.manager.backend) (c : TransferCallback) :
    Trail Change w (w.reactTransfer reads h c).notices (w.reactTransfer reads h c).value := by
  cases c with
  | created attributes => exact trail_admitTransfer reads w attributes side
  | signed hash => exact trail_advanceHashed reads w h hash (by simp) (by simp)
  | submitted hash => exact trail_advanceHashed reads w h hash (by simp) (by simp)
  | included n i s fee =>
    simp only [reactTransfer]
    split
    · exact .still w
    · rename_i a ha
      refine trail_advance reads (by simp) (fun c hc => ?_) (by simp)
      cases hc
      exact ⟨fee, ha⟩
  | errored e => exact trail_advance reads (by simp) (by simp) (by simp)
  | deleted => exact trail_dropTransfer reads hw h

/-- The transfers of a wallet go one by one, oldest first. -/
theorem trail_empty {w : Wallet} (hw : w.Sound) :
    Trail Change w (w.transfers.records.flatMap Transfer.retirement)
      { w with transfers := .empty } := by
  obtain ⟨path, currency, feeCurrency, state, balance, basis, ⟨entries⟩⟩ := w
  induction entries with
  | nil => exact .still _
  | cons e rest ih =>
    obtain ⟨h, t⟩ := e
    have known : (Registry.mk ((h, t) :: rest)).find? h = some t := by
      simp [Registry.find?, Registry.findIn]
    have hstep := change_retirement (w := ⟨path, currency, feeCurrency, state, balance, basis,
      ⟨(h, t) :: rest⟩⟩) hw known
    have hrest := hstep.sound hw
    simp only [Registry.erase_head hw.nodup] at hstep hrest
    exact .step hstep (ih hrest)

end Wallet
end WalletHub
