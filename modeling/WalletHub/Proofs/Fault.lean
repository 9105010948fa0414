import WalletHub.Proofs.Change.Manager

/-!
# What a fault leaves behind

A reaction that ends in an error has said nothing, and it has left its record as it was, with one
exception: a transfer that is told of a hash too late keeps the hash, although its state does not
follow. `Reaction.Leaves` is the statement for one reaction.

* `Wallet.leaves_reactTransfer`, `Manager.leaves_reactWallet`, `Manager.leaves_reactTransfer`: what
  discarded callbacks leave.
* `Manager.leaves_react`: only a count of confirmations that cannot be held ends otherwise.
-/
namespace WalletHub

/-- A reaction does its work, or it ends in an error, has said nothing and has left `a`. -/
def Reaction.Leaves {α : Type} (r : Reaction α) (a : α) : Prop :=
  r.fault = none ∨ ∃ e, r = .discard a e

namespace Reaction

variable {α β : Type}

theorem leaves_discard (a : α) (e : HubError) : (discard a e).Leaves a := .inr ⟨e, rfl⟩

theorem leaves_of_none {r : Reaction α} {a : α} (h : r.fault = none) : r.Leaves a := .inl h

theorem leaves_map {r : Reaction α} {a : α} (f : α → β) (h : r.Leaves a) :
    (r.map f).Leaves (f a) := by
  rcases h with h | ⟨e, rfl⟩
  · exact .inl h
  · exact .inr ⟨e, rfl⟩

/-- The fault of a reaction that leaves something is an error. -/
theorem Leaves.error {r : Reaction α} {a : α} {f : Fault} (h : r.Leaves a) (hf : r.fault = some f) :
    ∃ e, f = .error e ∧ r = .discard a e := by
  rcases h with h | ⟨e, rfl⟩
  · rw [h] at hf; cases hf
  · cases hf; exact ⟨e, rfl, rfl⟩

theorem fault_andThen {r : Reaction α} {f : α → Reaction α} (hr : r.fault = none)
    (hf : ∀ a, (f a).fault = none) : (r.andThen f).fault = none := by
  simp [andThen, hr, hf]

end Reaction

/-- The octets of the hash that a callback brings, and the state it brings them for. -/
def TransferCallback.hash? : TransferCallback → Option (List UInt8 × TransferState)
  | .signed (some raw) => some (raw, .signed)
  | .submitted (some raw) => some (raw, .submitted)
  | _ => none

open Reaction

namespace Wallet

/-! ## Wallets -/

theorem fault_receiveBalance (w : Wallet) (b : Amount) : (w.receiveBalance b).fault = none := by
  unfold receiveBalance
  split <;> rfl

theorem fault_receiveFeeBasis (w : Wallet) (b : FeeBasis) :
    (w.receiveFeeBasis b).fault = none := by
  unfold receiveFeeBasis
  split <;> rfl

theorem fault_refreshBalance (reads : EngineReads) (w : Wallet) :
    (w.refreshBalance reads).fault = none := by
  unfold refreshBalance
  split
  · rfl
  · split
    · exact fault_receiveBalance w _
    · rfl

theorem fault_refreshFeeBasis (reads : EngineReads) (w : Wallet) :
    (w.refreshFeeBasis reads).fault = none := by
  unfold refreshFeeBasis
  split
  · rfl
  · split
    · exact fault_receiveFeeBasis w _
    · rfl

theorem leaves_admitTransfer (reads : EngineReads) (w : Wallet) (h : TransferHandle)
    (raw : RawTransfer) : (w.admitTransfer reads h raw).Leaves w := by
  unfold admitTransfer
  split
  · exact leaves_discard w _
  · split
    · exact leaves_of_none rfl
    · exact leaves_of_none (fault_andThen rfl (fault_refreshBalance reads))

theorem leaves_dropTransfer (reads : EngineReads) (w : Wallet) (h : TransferHandle) :
    (w.dropTransfer reads h).Leaves w := by
  unfold dropTransfer
  split
  · exact leaves_discard w _
  · exact leaves_of_none (fault_andThen rfl (fault_refreshBalance reads))

/-- The transfer with the hash that came along, if one did. -/
def hashed (t : Transfer) : Option TransferHash → Transfer
  | some x => t.setHash x
  | none => t

/-- A move that the state machine does not have: the hash is taken over and nothing else. -/
theorem advance_refused (reads : EngineReads) {w : Wallet} {h : TransferHandle} {t : Transfer}
    (hash : Option TransferHash) {new : TransferState} (known : w.transfers.find? h = some t)
    (refused : t.state.verdict new = .refused) :
    w.advance reads h hash new =
      .discard (w.withTransfer h (hashed t hash)) (.transition (t.refusal new)) := by
  have hr : ∀ t' : Transfer, t'.state = t.state → t'.refusal new = t.refusal new →
      t'.transition new = .error (t.refusal new) := by
    intro t' hs he
    rcases t'.transition_cases new with ⟨hv, -⟩ | ⟨hv, -⟩ | ⟨-, ht⟩
    · rw [hs, refused] at hv; cases hv
    · rw [hs, refused] at hv; cases hv
    · rw [ht, he]
  cases hash with
  | none => simp only [advance, known, hr t rfl rfl]; rfl
  | some x => simp only [advance, known, hr (t.setHash x) rfl rfl]; rfl

theorem fault_advance (reads : EngineReads) {w : Wallet} {h : TransferHandle} {t : Transfer}
    (hash : Option TransferHash) {new : TransferState} (known : w.transfers.find? h = some t)
    (follows : t.state.verdict new ≠ .refused) : (w.advance reads h hash new).fault = none := by
  have hmove : ∀ {w : Wallet} {t : Transfer}, w.transfers.find? h = some t →
      t.state.verdict new ≠ .refused → (w.advance reads h none new).fault = none := by
    intro w t known follows
    simp only [advance, known]
    rcases t.transition_cases new with ⟨-, ht⟩ | ⟨-, ht⟩ | ⟨hv, -⟩
    · rw [ht]; rfl
    · rw [ht]
      cases new with
      | included c => exact fault_andThen rfl (fault_refreshBalance reads)
      | failed f => exact fault_andThen rfl (fault_refreshBalance reads)
      | created | signed | submitted | deleted => rfl
    · exact absurd hv follows
  cases hash with
  | none => exact hmove known follows
  | some x =>
    rw [advance_some reads x new known]
    exact hmove (find?_withTransfer _ known) follows

theorem advance_unknown (reads : EngineReads) {w : Wallet} {h : TransferHandle}
    (hash : Option TransferHash) (new : TransferState) (unknown : w.transfers.find? h = none) :
    w.advance reads h hash new =
      .discard w (.resolution (.unknownTransfer (w.path.child h))) := by
  simp only [advance, unknown]

/-- A move without a hash leaves the wallet when it is refused. -/
theorem leaves_advance_none (reads : EngineReads) (w : Wallet) (h : TransferHandle)
    (new : TransferState) : (w.advance reads h none new).Leaves w := by
  cases known : w.transfers.find? h with
  | none => rw [advance_unknown reads none new known]; exact leaves_discard w _
  | some t =>
    by_cases refused : t.state.verdict new = .refused
    · rw [advance_refused reads none known refused, hashed, withTransfer_self known]
      exact leaves_discard w _
    · exact leaves_of_none (fault_advance reads none known refused)

/-- The hash that a callback brings too late: it can be read, and its transfer no longer moves to
the state that it comes for. -/
def lateHash? (w : Wallet) (h : TransferHandle) (c : TransferCallback) : Option TransferHash := do
  let (raw, new) ← c.hash?
  let t ← w.transfers.find? h
  let x ← (TransferHash.decode w.backend raw).toOption
  if t.state.verdict new = .refused then some x else none

theorem find?_of_lateHash? {w : Wallet} {h : TransferHandle} {c : TransferCallback}
    {x : TransferHash} (hx : w.lateHash? h c = some x) : ∃ t, w.transfers.find? h = some t := by
  simp only [lateHash?, Option.bind_eq_bind, Option.bind_eq_some_iff] at hx
  obtain ⟨_, -, t, ht, -⟩ := hx
  exact ⟨t, ht⟩

/-- The wallet once a callback about a transfer was discarded: it keeps a late hash. -/
def afterDiscard (w : Wallet) (h : TransferHandle) (c : TransferCallback) : Wallet :=
  match w.lateHash? h c with
  | some x => { w with transfers := w.transfers.modify h fun t => t.setHash x }
  | none => w

theorem leaves_advanceHashed (reads : EngineReads) (w : Wallet) (h : TransferHandle)
    {hash : Option (List UInt8)} {new : TransferState} {c : TransferCallback}
    (brings : c.hash? = hash.map fun raw => (raw, new)) :
    (w.advanceHashed reads h hash new).Leaves (w.afterDiscard h c) := by
  unfold afterDiscard lateHash? advanceHashed
  cases hash with
  | none =>
    simp only [brings, Option.map_none, Option.bind_eq_bind, Option.bind_none]
    exact leaves_advance_none reads w h new
  | some raw =>
    simp only [brings, Option.map_some, Option.mapM_some, Option.bind_eq_bind, Option.bind_some]
    cases read : TransferHash.decode w.backend raw with
    | error e =>
      have hlate : (w.transfers.find? h).bind (fun t =>
          (Except.toOption (.error e : Except DecodeError TransferHash)).bind fun x =>
            if t.state.verdict new = .refused then some x else none) = none := by
        cases w.transfers.find? h <;> rfl
      rw [hlate]
      exact leaves_discard w _
    | ok x =>
      cases known : w.transfers.find? h with
      | none =>
        change (w.advance reads h (some x) new).Leaves w
        rw [advance_unknown reads _ new known]
        exact leaves_discard w _
      | some t =>
        change (w.advance reads h (some x) new).Leaves _
        simp only [Option.bind_some, Except.toOption]
        by_cases refused : t.state.verdict new = .refused
        · rw [advance_refused reads _ known refused, if_pos refused]
          simp only [Registry.modify_congr known]
          exact leaves_discard _ _
        · exact leaves_of_none (fault_advance reads _ known refused)

/-- **Discarded callbacks about transfers.** Nothing is said, and only a late hash is kept. -/
theorem leaves_reactTransfer (reads : EngineReads) (w : Wallet) (h : TransferHandle)
    (c : TransferCallback) : (w.reactTransfer reads h c).Leaves (w.afterDiscard h c) := by
  cases c with
  | created attributes => exact leaves_admitTransfer reads w h attributes
  | signed hash => exact leaves_advanceHashed reads w h (by cases hash <;> rfl)
  | submitted hash => exact leaves_advanceHashed reads w h (by cases hash <;> rfl)
  | included n i s fee =>
    change (w.reactTransfer reads h (.included n i s fee)).Leaves w
    simp only [reactTransfer]
    split
    · exact leaves_discard w _
    · exact leaves_advance_none reads w h _
  | errored e => exact leaves_advance_none reads w h _
  | deleted => exact leaves_dropTransfer reads w h

end Wallet

namespace Manager

/-! ## Managers -/

theorem leaves_ifLive {m a : Manager} {r : Reaction Manager}
    (gone : m.state = .deleted → a = m) (hr : m.state ≠ .deleted → r.Leaves a) :
    (m.ifLive r).Leaves a := by
  unfold ifLive
  split
  · rename_i hd; rw [gone hd]; exact leaves_discard m _
  · rename_i hd; exact hr hd

theorem leaves_moveTo (m : Manager) (new : ManagerState) (more : List Notice) :
    (m.moveTo new more).Leaves m := by
  unfold moveTo
  split
  · exact leaves_discard m _
  · exact leaves_of_none rfl
  · exact leaves_of_none rfl

theorem leaves_withWallet {m : Manager} {h : WalletHandle} {f : Wallet → Reaction Wallet}
    {g : Wallet → Wallet} (hf : ∀ w, m.wallets.find? h = some w → (f w).Leaves (g w)) :
    (m.withWallet h f).Leaves { m with wallets := m.wallets.modify h g } := by
  unfold withWallet
  split
  · rename_i unknown
    rw [Registry.modify_none g unknown]
    exact leaves_discard m _
  · rename_i w known
    rw [Registry.modify_congr known]
    exact leaves_map (fun w' => { m with wallets := m.wallets.modify h fun _ => w' }) (hf w known)

/-- A wallet that leaves itself leaves its manager. -/
theorem leaves_withWallet_self {m : Manager} {h : WalletHandle} {f : Wallet → Reaction Wallet}
    (hf : ∀ w, (f w).Leaves w) : (m.withWallet h f).Leaves m := by
  have hw := leaves_withWallet (m := m) (h := h) (g := fun w => w) fun w _ => hf w
  rwa [Registry.modify_id] at hw

theorem leaves_admitWallet (m : Manager) (reads : EngineReads) (h : WalletHandle) (code : String) :
    (m.admitWallet reads h code).Leaves m := by
  unfold admitWallet
  split
  · exact leaves_discard m _
  · split
    · exact leaves_of_none rfl
    · exact leaves_of_none
        (fault_andThen (Wallet.fault_refreshBalance reads _) (Wallet.fault_refreshFeeBasis reads))

/-- **Discarded callbacks about wallets** leave the manager as it was. -/
theorem leaves_reactWallet (m : Manager) (reads : EngineReads) (h : WalletHandle)
    (c : WalletCallback) : (m.reactWallet reads h c).Leaves m := by
  refine leaves_ifLive (fun _ => rfl) fun _ => ?_
  cases c with
  | created code => exact leaves_admitWallet m reads h code
  | balanceUpdated raw =>
    refine leaves_withWallet_self fun w => ?_
    split
    · exact leaves_discard w _
    · exact leaves_of_none (w.fault_receiveBalance _)
  | defaultFeeBasisUpdated raw =>
    refine leaves_withWallet_self fun w => ?_
    split
    · exact leaves_discard w _
    · exact leaves_of_none (w.fault_receiveFeeBasis _)
  | deleted =>
    change (m.dropWallet h).Leaves m
    unfold dropWallet
    split
    · exact leaves_discard m _
    · exact leaves_of_none rfl

/-- The manager once a callback about a transfer was discarded. -/
def afterDiscard (m : Manager) (h : WalletHandle) (t : TransferHandle) (c : TransferCallback) :
    Manager :=
  if m.state = .deleted then m
  else { m with wallets := m.wallets.modify h fun w => w.afterDiscard t c }

theorem leaves_reactTransfer (m : Manager) (reads : EngineReads) (h : WalletHandle)
    (t : TransferHandle) (c : TransferCallback) :
    (m.reactTransfer reads h t c).Leaves (m.afterDiscard h t c) := by
  refine leaves_ifLive (fun gone => by simp [afterDiscard, gone]) fun live => ?_
  simp only [afterDiscard, live, if_false]
  exact leaves_withWallet fun w _ => w.leaves_reactTransfer reads t c

/-- **Discarded callbacks about managers** leave the manager as it was. Only a new height from which
confirmations cannot be counted stays, without a word. -/
theorem leaves_react (m : Manager) (c : ManagerCallback) :
    (m.react c).Leaves m ∨
      ∃ height, m.react c = ⟨{ m with height := height }, [], 0, some .overflow⟩ := by
  have hlive : c ≠ .deleted → m.react c = m.ifLive (m.reactLive c) := by
    intro hc
    cases c <;> first | rfl | exact absurd rfl hc
  cases c with
  | deleted =>
    left
    simp only [react]
    split <;> exact leaves_of_none rfl
  | blockHeightUpdated height =>
    rw [hlive (by simp)]
    unfold ifLive
    split
    · exact .inl (leaves_discard m _)
    · simp only [reactLive, receiveHeight, setHeight]
      by_cases hh : m.height = height
      · simp only [hh, if_true]; exact .inl (leaves_of_none rfl)
      · simp only [hh, if_false]
        split
        · exact .inr ⟨height, rfl⟩
        · exact .inl (leaves_of_none rfl)
  | created => rw [hlive (by simp)]; exact .inl (leaves_ifLive (fun _ => rfl) fun _ => .inl rfl)
  | connected | disconnected _ | syncStarted =>
    rw [hlive (by simp)]
    exact .inl (leaves_ifLive (fun _ => rfl) fun _ => leaves_moveTo m _ _)
  | syncProgress p s =>
    rw [hlive (by simp)]
    refine .inl (leaves_ifLive (fun _ => rfl) fun _ => ?_)
    simp only [reactLive]
    split <;> exact leaves_of_none rfl
  | syncStopped r =>
    rw [hlive (by simp)]
    refine .inl (leaves_ifLive (fun _ => rfl) fun _ => ?_)
    simp only [reactLive]
    split
    · exact leaves_moveTo m _ _
    · exact leaves_of_none rfl

end Manager
end WalletHub
