import WalletHub.Proofs.Reports
import WalletHub.Proofs.Run

/-!
# Records are in order

Engines and applications may send anything: payloads of the other backend, amounts of another
currency, handles that belong elsewhere. What gets into the records is in order all the same. Every
record is filed under its own handle and its path leads to where it is; everything under a manager
is of the manager's backend; amounts are in the currency of their wallet and fees in the native
currency of the network. `Transfer.Normal`, `Wallet.Normal`, `Manager.Normal` and `Tree.Normal` say
so for each kind of record.

Whatever is read from an engine is in order when it is read (`Amount.in_of_parse`,
`Wallet.in_of_normalizeBalance`, `RawFeeBasis.backend_of_decode`, `Address.backend_of_decode`,
`Transfer.normal_of_decode`), every single change keeps records in order (`Change.normal`), and so
does every run (`Session.records_normal`).
-/
namespace WalletHub

/-! ## What is read -/

/-- An amount has the code of the currency and is shown in its default unit. -/
structure Amount.In (c : Currency) (a : Amount) : Prop where
  code : a.currency = c.code
  unit : a.decimals = c.defaultUnit.decimals

theorem Amount.in_ofBase (v : Word256) (c : Currency) : (Amount.ofBase v c).In c := ⟨rfl, rfl⟩

theorem Amount.in_of_parse {raw : String} {c : Currency} {a : Amount}
    (h : Amount.parse raw c = .ok a) : a.In c := by
  unfold Amount.parse at h
  cases hw : Word256.parse raw with
  | error e => rw [hw] at h; cases h
  | ok w =>
    rw [hw] at h
    cases h
    exact Amount.in_ofBase w c

theorem Wallet.in_of_normalizeBalance {w : Wallet} {raw : RawBalance} {b : Amount}
    (h : w.normalizeBalance raw = .ok b) : b.In w.currency := by
  unfold normalizeBalance at h
  split at h
  · cases h
    exact Amount.in_ofBase _ _
  · exact Amount.in_of_parse h
  · cases h

theorem RawFeeBasis.backend_of_decode {raw : RawFeeBasis} {side : Backend} {b : FeeBasis}
    (h : raw.decode side = .ok b) : b.backend = side := by
  cases decode_eq_ok_iff.1 h <;> rfl

theorem Address.backend_of_bytes {bytes : List UInt8} {a : Address}
    (h : Address.ofBytes bytes = .ok a) : a.backend = .account := by
  unfold ofBytes at h
  split at h <;> cases h
  rfl

theorem Address.backend_of_parseStripped {side : Backend} {cs : List Char} {a : Address}
    (h : Address.parseStripped side cs = .ok a) : a.backend = side := by
  cases side with
  | utxo =>
    simp only [parseStripped] at h
    cases hc : (if looksSegwit cs then checkSegwit cs else checkBase58 cs) with
    | error f => rw [hc] at h; cases h
    | ok _ => rw [hc] at h; cases h; rfl
  | account =>
    simp only [parseStripped] at h
    split at h
    · cases h
    · exact backend_of_bytes h

/-- An error put into other words is still an error. -/
theorem ok_of_mapError {ε ε' α : Type} {f : ε → ε'} {r : Except ε α} {a : α}
    (h : r.mapError f = .ok a) : r = .ok a := by
  cases r <;> cases h
  rfl

theorem Address.backend_of_decode {side : Backend} {raw : List UInt8} {a : Address}
    (h : Address.decode side raw = .ok a) : a.backend = side := by
  cases side with
  | utxo =>
    simp only [decode] at h
    split at h
    · cases h
    · exact backend_of_parseStripped (ok_of_mapError h)
  | account => exact backend_of_bytes (ok_of_mapError h)

theorem TransferHash.backend_of_decode {side : Backend} {raw : List UInt8} {x : TransferHash}
    (h : TransferHash.decode side raw = .ok x) : x.backend = side := by
  unfold decode at h
  split at h <;> cases h
  rfl

/-! ## Records in order -/

/-- A transfer of the wallet at `p`, which holds `currency` and pays fees in `feeCurrency`, is in
order under the handle `k`. -/
structure Transfer.Normal (p : WalletPath) (currency feeCurrency : Currency) (k : TransferHandle)
    (t : Transfer) : Prop where
  key : t.path.transfer = k
  parent : t.path.parent = p
  side : t.path.transfer.backend = p.manager.backend
  amount : t.amount.In currency
  /-- The estimate is the price of the fee basis that is stored. -/
  priced : t.estimatedFee = t.feeBasis.map fun b => .ofBase b.fee feeCurrency
  estimated : ∀ a, t.estimatedFee = some a → a.In feeCurrency
  paid : ∀ c, t.confirmation? = some c → c.fee.In feeCurrency
  feeBasis : ∀ b, t.feeBasis = some b → b.backend = p.wallet.backend
  source : ∀ a, t.source = some a → a.backend = p.wallet.backend
  target : ∀ a, t.target = some a → a.backend = p.wallet.backend
  hash : ∀ x, t.hash = some x → x.backend = p.wallet.backend

/-- A wallet of the manager `home` on a network is in order under the handle `k`. -/
structure Wallet.Normal (home : ManagerHandle) (network : Network) (k : WalletHandle) (w : Wallet) :
    Prop where
  key : w.handle = k
  parent : w.path.manager = home
  side : w.backend = home.backend
  listed : w.currency ∈ network.currencies
  fees : network.native? = some w.feeCurrency
  balance : w.balance.In w.currency
  feeBasis : ∀ b, w.defaultFeeBasis = some b → b.backend = w.backend
  transfers : w.transfers.All (Transfer.Normal w.path w.currency w.feeCurrency)

/-- A manager is in order under the handle `k`. -/
structure Manager.Normal (k : ManagerHandle) (m : Manager) : Prop where
  key : m.handle = k
  home : m.network.backend = m.handle.backend
  native : m.network.native?.isSome
  wallets : m.wallets.All (Wallet.Normal m.handle m.network)

/-- All records are in order. -/
def Tree.Normal (t : Tree) : Prop := t.managers.All Manager.Normal

/-! ## Wallets -/

/-- What an engine's attributes describe is in order, or it is not read. -/
theorem Transfer.normal_of_decode {w : Wallet} {h : TransferHandle} {raw : RawTransfer}
    {t : Transfer} (side : h.backend = w.path.manager.backend)
    (read : w.decodeTransfer h raw = .ok t) : t.Normal w.path w.currency w.feeCurrency h := by
  unfold Wallet.decodeTransfer at read
  simp only [bind, Except.bind, pure, Except.pure] at read
  split at read; · cases read
  rename_i amount hamount
  split at read; · cases read
  rename_i source hsource
  split at read; · cases read
  rename_i target htarget
  split at read; · cases read
  rename_i basis hbasis
  split at read; · cases read
  rename_i hash hhash
  cases read
  refine ⟨rfl, rfl, side, Amount.in_of_parse hamount, rfl, fun a ha => ?_,
    fun c hc => (by cases hc), fun b hb => ?_, fun a ha => ?_, fun a ha => ?_, fun x hx => ?_⟩
  · obtain ⟨b, -, rfl⟩ := Option.map_eq_some_iff.1 ha
    exact Amount.in_ofBase _ _
  · obtain ⟨_, hread⟩ := read_of_mapM hbasis hb
    exact RawFeeBasis.backend_of_decode hread
  · obtain ⟨_, hread⟩ := read_of_mapM hsource ha
    exact Address.backend_of_decode hread
  · obtain ⟨_, hread⟩ := read_of_mapM htarget ha
    exact Address.backend_of_decode hread
  · obtain ⟨_, hread⟩ := read_of_mapM hhash hx
    exact TransferHash.backend_of_decode hread

/-- A transfer in a new state is in order if its fee is. -/
theorem Transfer.Normal.moved {p : WalletPath} {currency feeCurrency : Currency}
    {k : TransferHandle} {t : Transfer} (ht : t.Normal p currency feeCurrency k)
    {new : TransferState} (paid : ∀ c, new = .included c → c.fee.In feeCurrency) :
    { t with state := new }.Normal p currency feeCurrency k := by
  refine ⟨ht.key, ht.parent, ht.side, ht.amount, ht.priced, ht.estimated, fun c hc => ?_,
    ht.feeBasis, ht.source, ht.target, ht.hash⟩
  cases new with
  | included d => cases hc; exact paid _ rfl
  | created | signed | submitted | failed | deleted => cases hc

theorem Transfer.Normal.hashed {p : WalletPath} {currency feeCurrency : Currency}
    {k : TransferHandle} {t : Transfer} (ht : t.Normal p currency feeCurrency k)
    {x : TransferHash} (side : x.backend = p.wallet.backend) :
    (t.setHash x).Normal p currency feeCurrency k :=
  ⟨ht.key, ht.parent, ht.side, ht.amount, ht.priced, ht.estimated, ht.paid, ht.feeBasis, ht.source,
    ht.target, fun y hy => by cases hy; exact side⟩

namespace Wallet

variable {home : ManagerHandle} {network : Network} {k : WalletHandle} {w : Wallet}

/-- A wallet with other transfers is in order if they are. -/
theorem Normal.with_transfers (hw : w.Normal home network k)
    {ts : Registry TransferHandle Transfer}
    (hts : ts.All (Transfer.Normal w.path w.currency w.feeCurrency)) :
    { w with transfers := ts }.Normal home network k :=
  ⟨hw.key, hw.parent, hw.side, hw.listed, hw.fees, hw.balance, hw.feeBasis, hts⟩

theorem Change.normal {w' : Wallet} {ns : List Notice} (hc : Change w ns w')
    (hw : w.Normal home network k) : w'.Normal home network k := by
  cases hc with
  | balance read =>
    exact ⟨hw.key, hw.parent, hw.side, hw.listed, hw.fees, in_of_normalizeBalance read, hw.feeBasis,
      hw.transfers⟩
  | feeBasis read =>
    refine ⟨hw.key, hw.parent, hw.side, hw.listed, hw.fees, hw.balance, fun b hb => ?_,
      hw.transfers⟩
    cases hb
    exact RawFeeBasis.backend_of_decode read
  | transferCreated read _ side =>
    have hnew := Transfer.normal_of_decode side read
    exact hw.with_transfers (hw.transfers.findOrCreate hnew)
  | hashed known read =>
    have hold := hw.transfers.find? known
    have hnew := hold.hashed (TransferHash.backend_of_decode read)
    exact hw.with_transfers (hw.transfers.modify hnew)
  | transferMoved known _ _ paid =>
    have hold := hw.transfers.find? known
    have hnew := hold.moved fun c hc => by
      obtain ⟨_, hread⟩ := paid c hc
      exact Amount.in_of_parse hread
    exact hw.with_transfers (hw.transfers.modify hnew)
  | @transferRetired h => exact hw.with_transfers (hw.transfers.erase h)

end Wallet

/-! ## Managers -/

theorem Network.mem_of_currency? {n : Network} {code : String} {c : Currency}
    (h : n.currency? code = some c) : c ∈ n.currencies := List.mem_of_find?_eq_some h

namespace Manager

variable {k : ManagerHandle} {m : Manager}

/-- A new wallet for a currency of the network is in order. -/
theorem Normal.wallet_create (hm : m.Normal k) {h : WalletHandle} {code : String} {c : Currency}
    (listed : m.network.currency? code = some c) (side : h.backend = m.handle.backend) :
    (Wallet.create ⟨m.handle, h⟩ c (m.feeCurrencyFor c)).Normal m.handle m.network h := by
  obtain ⟨native, hnative⟩ := Option.isSome_iff_exists.1 hm.native
  refine ⟨rfl, rfl, side, Network.mem_of_currency? listed, ?_, Amount.in_ofBase _ _,
    fun b hb => (by cases hb), Registry.All.empty⟩
  rw [hnative]
  simp only [Wallet.create, feeCurrencyFor, hnative, Option.getD_some]

theorem Change.normal {m' : Manager} {ns : List Notice} (hc : Change m ns m') (hm : m.Normal k) :
    m'.Normal k := by
  cases hc with
  | moved | raised | retired | modeSet => exact ⟨hm.key, hm.home, hm.native, hm.wallets⟩
  | spoke | confirmed => exact hm
  | walletCreated listed _ side =>
    have hnew := hm.wallet_create listed side
    exact ⟨hm.key, hm.home, hm.native, hm.wallets.findOrCreate hnew⟩
  | wallet known _ change =>
    have hnew := change.normal (hm.wallets.find? known)
    exact ⟨hm.key, hm.home, hm.native, hm.wallets.modify hnew⟩
  | @walletRetired h => exact ⟨hm.key, hm.home, hm.native, hm.wallets.erase h⟩

end Manager

/-! ## The tree -/

namespace Tree

theorem Normal.put {t : Tree} (ht : t.Normal) {m : Manager} (hm : m.Normal m.handle) :
    (t.put m).Normal := Registry.All.modify ht hm

theorem Change.normal {made : ManagerHandle → Prop} {guarded : Prop} {t t' : Tree}
    {ns : List Notice} (hc : Change made guarded t ns t') (ht : t.Normal) : t'.Normal := by
  cases hc with
  | indexed => exact ht
  | managerCreated _ _ place _ _ bare _ home native =>
    have hnew : Manager.Normal _ _ := ⟨place, place ▸ home, native, bare ▸ Registry.All.empty⟩
    exact Registry.All.findOrCreate ht hnew
  | manager known step =>
    have hold : Manager.Normal _ _ := Registry.All.find? ht known
    have hnew := step.2.normal hold
    exact ht.put (hnew.key.symm ▸ hnew)

/-- The parts of the path of a transfer that is there are of one backend. -/
theorem Normal.backends {t : Tree} (ht : t.Normal) {p : TransferPath} {x : Transfer}
    (there : t.transfer? p = some x) :
    p.wallet.backend = p.manager.backend ∧ p.transfer.backend = p.manager.backend := by
  obtain ⟨w, hw, hx⟩ := Option.bind_eq_some_iff.1 there
  obtain ⟨m, hm, hw⟩ := Option.bind_eq_some_iff.1 hw
  have manager : m.Normal p.manager := Registry.All.find? ht hm
  have wallet : w.Normal m.handle m.network p.wallet := manager.wallets.find? hw
  have transfer := wallet.transfers.find? hx
  constructor
  · rw [← manager.key, ← wallet.key]
    exact wallet.side
  · rw [← transfer.key, transfer.side, wallet.parent, manager.key]

/-- No two transfers of a backend have the same numbers. -/
theorem Normal.unique {t : Tree} (ht : t.Normal) {p q : TransferPath} {x y : Transfer}
    (hp : t.transfer? p = some x) (hq : t.transfer? q = some y)
    (backend : p.manager.backend = q.manager.backend) (manager : p.manager.raw = q.manager.raw)
    (wallet : p.wallet.raw = q.wallet.raw) (transfer : p.transfer.raw = q.transfer.raw) :
    p = q := by
  have hp := ht.backends hp
  have hq := ht.backends hq
  obtain ⟨⟨mb, m⟩, ⟨wb, w⟩, ⟨tb, t⟩⟩ := p
  obtain ⟨⟨mb', m'⟩, ⟨wb', w'⟩, ⟨tb', t'⟩⟩ := q
  simp_all

end Tree

/-! ## Runs -/

namespace Session

theorem Reachable.normal {s : Session} (hs : s.Reachable) : s.hub.tree.Normal :=
  hs.records Registry.All.empty Tree.Change.normal fun _ known ht =>
    have hold : Manager.Normal _ _ := Registry.All.find? ht known
    ht.put ⟨hold.key, hold.home, hold.native, hold.wallets⟩

/-- **Order.** Whatever engines and the application send, every record is filed under its own handle
and in its own place, is of the backend of its manager and of its manager's network, and counts in
the currencies of its wallet. -/
theorem records_normal {s : Session} (hs : s.Reachable) : s.hub.tree.Normal := hs.normal

/-- A run in which an engine for accounts sends payloads of both backends for one wallet. -/
def mixed : Session :=
  (opened false false none (some false)).takes
    [.request (.createManager ⟨⟨"dave", 0⟩, .ethereum true, .apiOnly, "/tmp/dave"⟩),
      .callback .account (.wallet 0x2000 0x2001 (.balanceUpdated (.utxo 9 4))),
      .callback .account (.wallet 0x2000 0x2001 (.defaultFeeBasisUpdated (.utxo 1000 226))),
      .callback .account (.wallet 0x2000 0x2001 (.balanceUpdated (.account "0x10"))),
      .callback .account (.transfer 0x2000 0x2001 0x6000
        (.created ⟨none, none, "1000", .sent, some (.utxo 1000 226), none⟩)),
      .callback .account (.transfer 0x2000 0x2001 0x6000
        (.created ⟨none, none, "1000", .sent, some (.account "7" 3), none⟩))]

/-- Of the two kinds of payloads, those of the wallet's backend came through. -/
theorem records_normal_mixed :
    mixed.hub.tree.Normal ∧
      (mixed.hub.tree.wallet? ⟨⟨.account, 0x2000⟩, ⟨.account, 0x2001⟩⟩).map
        (fun w => (w.balance.value.toNat, w.defaultFeeBasis.isSome)) = some (16, false) ∧
      (mixed.hub.tree.transfer? ⟨⟨.account, 0x2000⟩, ⟨.account, 0x2001⟩, ⟨.account, 0x6000⟩⟩).map
        (fun t => (t.estimatedFee.map (·.value.toNat), t.feeBasis.map (·.backend))) =
          some (some 21, some .account) :=
  ⟨records_normal ((Reachable.opened ..).takes _), by decide +kernel, by decide +kernel⟩

end Session
end WalletHub
