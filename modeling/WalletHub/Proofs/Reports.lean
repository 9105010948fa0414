import WalletHub.Proofs.Change.Place
import WalletHub.Proofs.Fault

/-!
# What wallets hear from their engines

An engine reports a balance or a fee basis of a wallet in a callback, or because it is asked. It is
asked when certain things happen to the wallet, and these are told, so what it is asked can be read
off the notices (`Notice.asks`). A wallet keeps the last balance and the last fee basis that it
could read, and tells whenever what it keeps is not what it kept before (`Wallet.Hears`).

* `Wallet.hears_receiveBalance`, `Wallet.hears_refreshBalance`: a report that comes and one that is
  asked for.
* `Wallet.hears_newWallet`: what a wallet hears when it is created.
* `Wallet.hearsAsked_reactTransfer`: what it hears when one of its transfers reports something.
-/
namespace WalletHub

/-! ## Reports -/

/-- What an engine reports of a wallet. -/
inductive Report where
  | balance (raw : RawBalance)
  | feeBasis (raw : RawFeeBasis)
  deriving DecidableEq, Repr

namespace EngineReads

/-- What the engine says when it is asked for the balance of a wallet. -/
def balanceReport (reads : EngineReads) (h : WalletHandle) : List Report :=
  (reads.balance h).toList.map .balance

/-- What the engine says when it is asked for the fee basis of a wallet. -/
def feeBasisReport (reads : EngineReads) (h : WalletHandle) : List Report :=
  (reads.feeBasis h).toList.map .feeBasis

end EngineReads

/-- Whether a transfer is included or has failed. -/
def TransferState.settles : TransferState → Bool
  | .included _ | .failed _ => true
  | _ => false

namespace Notice

/-- What the engine says of the wallet at `p` when this is told. It is asked for the balance when a
transfer is added, settles or is deleted, and for both values when the wallet is created. -/
def asks (reads : EngineReads) (p : WalletPath) : Notice → List Report
  | .wallet q .created =>
    if q = p then reads.balanceReport p.wallet ++ reads.feeBasisReport p.wallet else []
  | .wallet q (.transferAdded _) | .wallet q (.transferDeleted _) =>
    if q = p then reads.balanceReport p.wallet else []
  | .transfer q (.changed _ new) =>
    if q.parent = p ∧ new.settles then reads.balanceReport p.wallet else []
  | _ => []

/-- Whether this tells of a value that the wallet at `p` keeps. -/
def isNews (p : WalletPath) : Notice → Bool
  | .wallet q (.balanceUpdated _) | .wallet q (.feeBasisUpdated _) => q = p
  | .manager k (.walletChanged h) => (⟨k, h⟩ : WalletPath) = p
  | _ => false

/-- Whether this tells that the wallet at `p` begins or ends. -/
def isEdge (p : WalletPath) : Notice → Bool
  | .wallet q .created | .wallet q .deleted => q = p
  | _ => false

/-- The wallet that this is about, or one of whose transfers it is about. -/
def wallet? : Notice → Option WalletPath
  | .wallet q _ => some q
  | .transfer q _ => some q.parent
  | .manager k (.walletChanged h) => some ⟨k, h⟩
  | _ => none

/-- This is nothing that the values of the wallet at `p` depend on, nor does it tell of them. -/
structure Apart (p : WalletPath) (n : Notice) : Prop where
  asks (reads : EngineReads) : n.asks reads p = []
  isNews : n.isNews p = false
  isEdge : n.isEdge p = false

variable {p : WalletPath} {n : Notice}

theorem apart_of_wallet?_ne (other : n.wallet? ≠ some p) : n.Apart p := by
  cases n with
  | hub n => exact ⟨fun _ => rfl, rfl, rfl⟩
  | manager k n =>
    cases n with
    | walletChanged h =>
      have elsewhere : (⟨k, h⟩ : WalletPath) ≠ p := fun same => other (congrArg some same)
      exact ⟨fun _ => rfl, by simpa [Notice.isNews] using elsewhere, rfl⟩
    | _ => exact ⟨fun _ => rfl, rfl, rfl⟩
  | wallet q n =>
    have elsewhere : q ≠ p := fun same => other (congrArg some same)
    cases n <;> exact ⟨fun _ => by simp [Notice.asks, elsewhere],
      by simp [Notice.isNews, elsewhere], by simp [Notice.isEdge, elsewhere]⟩
  | transfer q n =>
    have elsewhere : q.parent ≠ p := fun same => other (congrArg some same)
    cases n <;> exact ⟨fun _ => by simp [Notice.asks, elsewhere], rfl, rfl⟩

/-- Whatever wallet this is about is the one at `q`. -/
def Beside (q : WalletPath) (n : Notice) : Prop := n.wallet? = none ∨ n.wallet? = some q

/-- What happens to another wallet, or to its transfers, does not matter. -/
theorem Beside.apart {q : WalletPath} (hn : n.Beside q) (other : q ≠ p) : n.Apart p := by
  refine apart_of_wallet?_ne ?_
  rcases hn with hn | hn <;> simp [hn, other]

theorem InWallet.beside {q : WalletPath} (hn : n.InWallet q) : n.Beside q := by
  right
  cases n with
  | hub n => exact hn.elim
  | manager k n => obtain ⟨rfl, rfl⟩ := hn; rfl
  | wallet q' n => exact congrArg some hn.1
  | transfer q' n => exact congrArg some (show q'.parent = q from hn)

/-- What tells of a value does not make the engine be asked. -/
theorem asks_of_isNews (h : n.isNews p = true) (reads : EngineReads) (q : WalletPath) :
    n.asks reads q = [] := by
  cases n with
  | hub n => cases h
  | manager k n => rfl
  | wallet q' n => cases n <;> first | rfl | cases h
  | transfer q' n => cases h

/-- What tells of a value does not tell that a wallet begins or ends. -/
theorem isEdge_of_isNews (h : n.isNews p = true) (q : WalletPath) : n.isEdge q = false := by
  cases n with
  | wallet q' n => cases n <;> first | rfl | cases h
  | _ => rfl

end Notice

/-! ## What a wallet makes of a report -/

/-- How many values of the engine could not be read, the callback itself included. -/
def Reaction.misread {α : Type} (r : Reaction α) : Nat :=
  r.unread + match r.fault with
    | some (.error (.decode _)) => 1
    | _ => 0

/-- The balance that a raw one amounts to in a wallet of a backend that holds a currency: the number
in a text, or what was received and not sent. -/
inductive RawBalance.Amounts (c : Currency) : Backend → RawBalance → Amount → Prop
  | utxo {received sent : UInt64} {v : Word256} (net : v.toNat = received.toNat - sent.toNat) :
      Amounts c .utxo (.utxo received sent) (.ofBase v c)
  | account {text : String} {v : Word256} (read : Word256.parse text = .ok v) :
      Amounts c .account (.account text) (.ofBase v c)

/-- The fee basis that a raw one amounts to in a wallet of a backend. -/
inductive RawFeeBasis.Amounts : Backend → RawFeeBasis → FeeBasis → Prop
  | utxo (rate : UInt64) (size : UInt32) : Amounts .utxo (.utxo rate size) (.utxo rate size)
  | account {price : String} {v : Word256} (limit : UInt64) (read : Word256.parse price = .ok v) :
      Amounts .account (.account price limit) (.account v limit)

theorem RawFeeBasis.decode_eq_ok_iff {side : Backend} {raw : RawFeeBasis} {b : FeeBasis} :
    raw.decode side = .ok b ↔ RawFeeBasis.Amounts side raw b := by
  constructor
  · intro read
    unfold decode at read
    split at read
    · rename_i own
      subst own
      cases raw with
      | utxo rate size =>
        cases read
        exact .utxo rate size
      | account price limit =>
        cases number : Word256.parse price with
        | error e =>
          simp only [number] at read
          cases read
        | ok v =>
          simp only [number] at read
          cases read
          exact .account limit number
    · cases read
  · rintro (⟨rate, size⟩ | ⟨limit, number⟩)
    · rfl
    · simp only [decode, backend, if_true, number]
      rfl

namespace Wallet

/-- The balance that a report amounts to, if it is one of a balance and can be read. -/
def balance? (w : Wallet) : Report → Option Amount
  | .balance raw => (w.normalizeBalance raw).toOption
  | .feeBasis _ => none

/-- The fee basis that a report amounts to, if it is one of a fee basis and can be read. -/
def feeBasis? (w : Wallet) : Report → Option FeeBasis
  | .balance _ => none
  | .feeBasis raw => (w.normalizeFeeBasis raw).toOption

/-- Whether a report cannot be read. -/
def misreads (w : Wallet) (r : Report) : Bool := (w.balance? r).isNone && (w.feeBasis? r).isNone

/-- The last balance among reports. -/
def lastBalance? (w : Wallet) (rs : List Report) : Option Amount :=
  (rs.filterMap w.balance?).getLast?

/-- The last fee basis among reports. -/
def lastFeeBasis? (w : Wallet) (rs : List Report) : Option FeeBasis :=
  (rs.filterMap w.feeBasis?).getLast?

/-- What is told of the balance where it was `old` before. -/
def balanceNews (w : Wallet) (old : Amount) : List Notice :=
  if w.balance = old then []
  else [.wallet w.path (.balanceUpdated w.balance),
    .manager w.path.manager (.walletChanged w.path.wallet)]

/-- What is told of the fee basis where it was `old` before. -/
def feeBasisNews (w : Wallet) (old : Option FeeBasis) : List Notice :=
  if w.defaultFeeBasis = old then []
  else w.defaultFeeBasis.toList.flatMap fun b => [.wallet w.path (.feeBasisUpdated b),
    .manager w.path.manager (.walletChanged w.path.wallet)]

/-- The wallet `w` hears the reports `rs`: it keeps the last values, and tells of those that are
others than before, behind what else is `opened`. -/
structure Hears (w : Wallet) (rs : List Report) (opened : List Notice) (r : Reaction Wallet) :
    Prop where
  path : r.value.path = w.path
  currency : r.value.currency = w.currency
  balance : r.value.balance = (w.lastBalance? rs).getD w.balance
  feeBasis : r.value.defaultFeeBasis = (w.lastFeeBasis? rs).or w.defaultFeeBasis
  told : r.notices =
    opened ++ (r.value.balanceNews w.balance ++ r.value.feeBasisNews w.defaultFeeBasis)
  counted : rs ≠ [] → r.misread = rs.countP w.misreads

variable {w : Wallet} {reads : EngineReads}

/-- What is received and not sent, as a word. -/
theorem toNat_net (received sent : UInt64) :
    (if sent ≤ received then received - sent else 0 : UInt64).toNat =
      received.toNat - sent.toNat := by
  split
  · rename_i le
    exact UInt64.toNat_sub_of_le _ _ le
  · rename_i gt
    have lt : received.toNat < sent.toNat := UInt64.lt_iff_toNat_lt.1 (UInt64.not_le.1 gt)
    rw [Nat.sub_eq_zero_of_le (Nat.le_of_lt lt)]
    rfl

/-- **Balances.** A report amounts to a balance if it is one, of the wallet's backend, and can be
read. -/
theorem balance?_eq_some_iff (w : Wallet) (x : Report) (a : Amount) :
    w.balance? x = some a ↔ ∃ raw, x = .balance raw ∧ raw.Amounts w.currency w.backend a := by
  cases x with
  | feeBasis raw => simp [balance?]
  | balance raw =>
    simp only [Report.balance.injEq, exists_eq_left']
    cases side : w.backend <;> cases raw
    case utxo.utxo received sent =>
      simp only [balance?, normalizeBalance, side, Except.toOption, Option.some.injEq]
      constructor
      · rintro rfl
        exact .utxo (toNat_net received sent)
      · rintro ⟨net⟩
        exact congrArg (Amount.ofBase · w.currency)
          (Word256.ext ((toNat_net received sent).trans net.symm))
    case account.account text =>
      simp only [balance?, normalizeBalance, side, Amount.parse]
      constructor
      · cases read : Word256.parse text with
        | error e => simp [Except.map, Except.toOption]
        | ok v =>
          rintro ⟨⟩
          exact .account read
      · rintro (_ | ⟨read⟩)
        rw [read]
        rfl
    all_goals
      simp only [balance?, normalizeBalance, side, Except.toOption, reduceCtorEq, false_iff]
      rintro ⟨⟩

/-- **Fee bases.** A report amounts to a fee basis if it is one, of the wallet's backend, and can be
read. -/
theorem feeBasis?_eq_some_iff (w : Wallet) (x : Report) (f : FeeBasis) :
    w.feeBasis? x = some f ↔ ∃ raw, x = .feeBasis raw ∧ raw.Amounts w.backend f := by
  cases x with
  | balance raw => simp [feeBasis?]
  | feeBasis raw =>
    simp only [Report.feeBasis.injEq, exists_eq_left', feeBasis?, normalizeFeeBasis,
      ← RawFeeBasis.decode_eq_ok_iff]
    cases raw.decode w.backend <;> simp [Except.toOption]

theorem normalizeBalance_congr {v : Wallet} (path : v.path = w.path)
    (currency : v.currency = w.currency) (raw : RawBalance) :
    v.normalizeBalance raw = w.normalizeBalance raw := by
  simp only [normalizeBalance, backend, path, currency]

theorem isNews_balanceNews (w : Wallet) (old : Amount) :
    ∀ n ∈ w.balanceNews old, n.isNews w.path = true := by
  unfold balanceNews
  split <;> simp [Notice.isNews]

theorem isNews_feeBasisNews (w : Wallet) (old : Option FeeBasis) :
    ∀ n ∈ w.feeBasisNews old, n.isNews w.path = true := by
  unfold feeBasisNews
  split
  · simp
  · cases w.defaultFeeBasis <;> simp [Notice.isNews]

theorem isNews_news (w : Wallet) (old : Amount) (old' : Option FeeBasis) :
    ∀ n ∈ w.balanceNews old ++ w.feeBasisNews old', n.isNews w.path = true := by
  intro n hn
  rcases List.mem_append.1 hn with hn | hn
  · exact w.isNews_balanceNews old n hn
  · exact w.isNews_feeBasisNews old' n hn

/-- A wallet that hears nothing and keeps what it has. -/
theorem hears_nothing {r : Reaction Wallet} (path : r.value.path = w.path)
    (currency : r.value.currency = w.currency) (balance : r.value.balance = w.balance)
    (feeBasis : r.value.defaultFeeBasis = w.defaultFeeBasis) : w.Hears [] r.notices r :=
  ⟨path, currency, balance, by simpa [lastFeeBasis?] using feeBasis,
    by simp [balanceNews, feeBasisNews, balance, feeBasis], fun h => absurd rfl h⟩

/-! ## Reports that come -/

theorem value_receiveBalance (w : Wallet) (b : Amount) :
    (w.receiveBalance b).value = { w with balance := b } := by
  unfold receiveBalance
  split
  · rename_i same; rw [same]; rfl
  · rfl

theorem value_receiveFeeBasis (w : Wallet) (b : FeeBasis) :
    (w.receiveFeeBasis b).value = { w with defaultFeeBasis := some b } := by
  unfold receiveFeeBasis
  split
  · rename_i same; rw [← same]; rfl
  · rfl

theorem misread_receiveBalance (w : Wallet) (b : Amount) : (w.receiveBalance b).misread = 0 := by
  unfold receiveBalance
  split <;> rfl

theorem misread_receiveFeeBasis (w : Wallet) (b : FeeBasis) :
    (w.receiveFeeBasis b).misread = 0 := by
  unfold receiveFeeBasis
  split <;> rfl

theorem hears_receiveBalance {raw : RawBalance} {b : Amount}
    (read : w.normalizeBalance raw = .ok b) :
    w.Hears [.balance raw] [] (w.receiveBalance b) where
  path := by rw [value_receiveBalance]
  currency := by rw [value_receiveBalance]
  balance := by simp [value_receiveBalance, lastBalance?, balance?, read, Except.toOption]
  feeBasis := by simp [value_receiveBalance, lastFeeBasis?, feeBasis?]
  told := by
    rw [value_receiveBalance]
    unfold receiveBalance
    split <;> simp_all [balanceNews, feeBasisNews, Reaction.still, Reaction.announce]
  counted _ := by
    simp [misread_receiveBalance, misreads, balance?, feeBasis?, read, Except.toOption]

theorem hears_receiveFeeBasis {raw : RawFeeBasis} {b : FeeBasis}
    (read : w.normalizeFeeBasis raw = .ok b) :
    w.Hears [.feeBasis raw] [] (w.receiveFeeBasis b) where
  path := by rw [value_receiveFeeBasis]
  currency := by rw [value_receiveFeeBasis]
  balance := by simp [value_receiveFeeBasis, lastBalance?, balance?]
  feeBasis := by simp [value_receiveFeeBasis, lastFeeBasis?, feeBasis?, read, Except.toOption]
  told := by
    rw [value_receiveFeeBasis]
    unfold receiveFeeBasis
    split <;>
      simp_all [balanceNews, feeBasisNews, Reaction.still, Reaction.announce, eq_comm]
  counted _ := by
    simp [misread_receiveFeeBasis, misreads, balance?, feeBasis?, read, Except.toOption]

/-! ## Reports that are asked for -/

/-- A wallet that keeps the same values. -/
structure Level (w v : Wallet) : Prop where
  path : v.path = w.path
  currency : v.currency = w.currency
  balance : v.balance = w.balance
  feeBasis : v.defaultFeeBasis = w.defaultFeeBasis

theorem Level.refl (w : Wallet) : w.Level w := ⟨rfl, rfl, rfl, rfl⟩

section

variable {v : Wallet} (path : v.path = w.path) (currency : v.currency = w.currency)
include path currency

theorem balance?_congr : v.balance? = w.balance? := by
  funext r
  cases r with
  | balance raw => simp only [balance?, normalizeBalance_congr path currency]
  | feeBasis raw => rfl

omit currency in
theorem feeBasis?_congr : v.feeBasis? = w.feeBasis? := by
  funext r
  cases r with
  | balance raw => rfl
  | feeBasis raw => simp only [feeBasis?, normalizeFeeBasis, backend, path]

theorem lastBalance?_congr (rs : List Report) : v.lastBalance? rs = w.lastBalance? rs := by
  simp only [lastBalance?, balance?_congr path currency]

omit currency in
theorem lastFeeBasis?_congr (rs : List Report) : v.lastFeeBasis? rs = w.lastFeeBasis? rs := by
  simp only [lastFeeBasis?, feeBasis?_congr path]

theorem misreads_congr : v.misreads = w.misreads := by
  funext r
  simp only [misreads, balance?_congr path currency, feeBasis?_congr path]

end

/-- What a wallet with the same values hears. -/
theorem Hears.of_level {v : Wallet} {rs : List Report} {opened : List Notice} {r : Reaction Wallet}
    (level : w.Level v) (hears : v.Hears rs opened r) : w.Hears rs opened r where
  path := hears.path.trans level.path
  currency := hears.currency.trans level.currency
  balance := by
    rw [hears.balance, lastBalance?_congr level.path level.currency, level.balance]
  feeBasis := by rw [hears.feeBasis, lastFeeBasis?_congr level.path, level.feeBasis]
  told := by rw [hears.told, level.balance, level.feeBasis]
  counted some := by rw [hears.counted some, misreads_congr level.path level.currency]

/-- What a wallet hears after something else was done to it, and told. -/
theorem Hears.after {v : Wallet} {rs : List Report} {f : Wallet → Reaction Wallet}
    (level : w.Level v) (opened : List Notice) (hears : v.Hears rs [] (f v)) :
    w.Hears rs opened ((Reaction.announce v opened).andThen f) := by
  refine .of_level level ⟨hears.path, hears.currency, hears.balance, hears.feeBasis, ?_, ?_⟩
  · exact congrArg (opened ++ ·) hears.told
  · intro some
    rw [← hears.counted some]
    simp [Reaction.misread, Reaction.andThen, Reaction.announce]

/-- A report that cannot be read is counted and changes nothing. -/
theorem hears_misread {x : Report} {r : Reaction Wallet} (misread : w.misreads x = true)
    (value : r.value = w) (silent : r.notices = []) (counted : r.misread = 1) :
    w.Hears [x] [] r := by
  have unread : w.balance? x = none ∧ w.feeBasis? x = none := by simpa [misreads] using misread
  exact ⟨by rw [value], by rw [value], by simp [value, lastBalance?, unread],
    by simp [value, lastFeeBasis?, unread], by simp [value, silent, balanceNews, feeBasisNews],
    fun _ => by simp [counted, misread]⟩

theorem misreads_balance_iff {raw : RawBalance} :
    w.misreads (.balance raw) = true ↔ ∃ e, w.normalizeBalance raw = .error e := by
  cases read : w.normalizeBalance raw <;>
    simp [misreads, balance?, feeBasis?, read, Except.toOption]

theorem misreads_feeBasis_iff {raw : RawFeeBasis} :
    w.misreads (.feeBasis raw) = true ↔ ∃ e, w.normalizeFeeBasis raw = .error e := by
  cases read : w.normalizeFeeBasis raw <;>
    simp [misreads, balance?, feeBasis?, read, Except.toOption]

theorem hears_refreshBalance (reads : EngineReads) (w : Wallet) :
    w.Hears (reads.balanceReport w.handle) [] (w.refreshBalance reads) := by
  unfold refreshBalance EngineReads.balanceReport
  cases reads.balance w.handle with
  | none => exact hears_nothing (r := .still w) rfl rfl rfl rfl
  | some raw =>
    cases read : w.normalizeBalance raw with
    | ok b =>
      simp only [read]
      exact hears_receiveBalance read
    | error e =>
      simp only [read]
      exact hears_misread (misreads_balance_iff.2 ⟨e, read⟩) rfl rfl rfl

theorem hears_refreshFeeBasis (reads : EngineReads) (w : Wallet) :
    w.Hears (reads.feeBasisReport w.handle) [] (w.refreshFeeBasis reads) := by
  unfold refreshFeeBasis EngineReads.feeBasisReport
  cases reads.feeBasis w.handle with
  | none => exact hears_nothing (r := .still w) rfl rfl rfl rfl
  | some raw =>
    cases read : w.normalizeFeeBasis raw with
    | ok b =>
      simp only [read]
      exact hears_receiveFeeBasis read
    | error e =>
      simp only [read]
      exact hears_misread (misreads_feeBasis_iff.2 ⟨e, read⟩) rfl rfl rfl

/-- A wallet that is asked for its balance is the same but for that. -/
theorem value_refreshBalance (reads : EngineReads) (w : Wallet) :
    (w.refreshBalance reads).value =
      { w with balance := (w.lastBalance? (reads.balanceReport w.handle)).getD w.balance } := by
  have hears := w.hears_refreshBalance reads
  rw [← hears.balance]
  unfold refreshBalance
  split
  · rfl
  · split
    · rw [value_receiveBalance]
    · rfl

theorem misread_refreshBalance (reads : EngineReads) (w : Wallet) :
    (w.refreshBalance reads).misread = (reads.balanceReport w.handle).countP w.misreads := by
  by_cases told : reads.balanceReport w.handle = []
  · have silent : reads.balance w.handle = none := by
      simpa [EngineReads.balanceReport] using told
    rw [told, refreshBalance, silent]
    rfl
  · exact (w.hears_refreshBalance reads).counted told

theorem misread_refreshFeeBasis (reads : EngineReads) (w : Wallet) :
    (w.refreshFeeBasis reads).misread = (reads.feeBasisReport w.handle).countP w.misreads := by
  by_cases told : reads.feeBasisReport w.handle = []
  · have silent : reads.feeBasis w.handle = none := by
      simpa [EngineReads.feeBasisReport] using told
    rw [told, refreshFeeBasis, silent]
    rfl
  · exact (w.hears_refreshFeeBasis reads).counted told

theorem lastBalance?_append (w : Wallet) (rs rs' : List Report) :
    w.lastBalance? (rs ++ rs') = (w.lastBalance? rs').or (w.lastBalance? rs) := by
  simp [lastBalance?, List.filterMap_append, List.getLast?_append]

theorem lastFeeBasis?_append (w : Wallet) (rs rs' : List Report) :
    w.lastFeeBasis? (rs ++ rs') = (w.lastFeeBasis? rs').or (w.lastFeeBasis? rs) := by
  simp [lastFeeBasis?, List.filterMap_append, List.getLast?_append]

theorem lastFeeBasis?_balanceReport (reads : EngineReads) (w : Wallet) (h : WalletHandle) :
    w.lastFeeBasis? (reads.balanceReport h) = none := by
  cases hb : reads.balance h <;> simp [lastFeeBasis?, EngineReads.balanceReport, hb, feeBasis?]

theorem lastBalance?_feeBasisReport (reads : EngineReads) (w : Wallet) (h : WalletHandle) :
    w.lastBalance? (reads.feeBasisReport h) = none := by
  cases hb : reads.feeBasis h <;> simp [lastBalance?, EngineReads.feeBasisReport, hb, balance?]

/-- A wallet that is asked for both values, for the balance first. -/
theorem hears_refresh (reads : EngineReads) (w : Wallet) :
    w.Hears (reads.balanceReport w.handle ++ reads.feeBasisReport w.handle) []
      ((w.refreshBalance reads).andThen (refreshFeeBasis reads)) := by
  have first := w.hears_refreshBalance reads
  have counted := w.misread_refreshBalance reads
  have done := fault_refreshBalance reads w
  generalize w.refreshBalance reads = r at first counted done
  have second := r.value.hears_refreshFeeBasis reads
  have counted' := r.value.misread_refreshFeeBasis reads
  have handle : r.value.handle = w.handle := congrArg WalletPath.wallet first.path
  rw [handle, misreads_congr first.path first.currency] at counted'
  rw [handle] at second
  -- each value is news of the report that it is in
  have basis : r.value.defaultFeeBasis = w.defaultFeeBasis := by
    rw [first.feeBasis, lastFeeBasis?_balanceReport, Option.none_or]
  have balance : (r.value.refreshFeeBasis reads).value.balance = r.value.balance := by
    rw [second.balance, lastBalance?_feeBasisReport, Option.getD_none]
  have both : r.andThen (refreshFeeBasis reads) =
      ⟨(r.value.refreshFeeBasis reads).value,
        r.notices ++ (r.value.refreshFeeBasis reads).notices,
        r.unread + (r.value.refreshFeeBasis reads).unread,
        (r.value.refreshFeeBasis reads).fault⟩ := by
    simp only [Reaction.andThen, done]
  rw [both]
  refine ⟨second.path.trans first.path, second.currency.trans first.currency, ?_, ?_, ?_, ?_⟩
  · rw [balance, first.balance, lastBalance?_append, lastBalance?_feeBasisReport, Option.none_or]
  · rw [second.feeBasis, lastFeeBasis?_congr first.path, basis, lastFeeBasis?_append,
      lastFeeBasis?_balanceReport, Option.or_none]
  · simp only [first.told, second.told, balanceNews, feeBasisNews, second.path, first.path, basis,
      balance, if_true, List.append_nil, List.nil_append]
  · intro _
    rw [List.countP_append, ← counted, ← counted']
    simp only [Reaction.misread, done, Nat.add_zero, Nat.add_assoc]

/-- A new wallet hears both values. -/
theorem hears_newWallet (m : Manager) (reads : EngineReads) (h : WalletHandle) (c : Currency) :
    (create ⟨m.handle, h⟩ c (m.feeCurrencyFor c)).Hears
      (reads.balanceReport h ++ reads.feeBasisReport h) [] (m.newWallet reads h c) :=
  hears_refresh reads (create ⟨m.handle, h⟩ c (m.feeCurrencyFor c))

/-! ## Transfers -/

/-- What is told before the values of the wallet at `p` are. -/
def Opening (p : WalletPath) (ns : List Notice) : Prop :=
  ∀ n ∈ ns, n.isNews p = false ∧ n.isEdge p = false

/-- The wallet hears what its engine is asked because of `opened`. -/
def HearsAsked (reads : EngineReads) (w : Wallet) (r : Reaction Wallet) : Prop :=
  ∃ opened, Opening w.path opened ∧ w.Hears (opened.flatMap (·.asks reads w.path)) opened r

theorem hearsAsked_silent {r : Reaction Wallet} (level : w.Level r.value)
    (silent : r.notices = []) : HearsAsked reads w r := by
  refine ⟨[], fun n hn => (by cases hn), ?_⟩
  have hears := hears_nothing level.path level.currency level.balance level.feeBasis
  rwa [silent] at hears

theorem HearsAsked.of_level {v : Wallet} {r : Reaction Wallet} (level : w.Level v)
    (hears : HearsAsked reads v r) : HearsAsked reads w r := by
  obtain ⟨opened, opening, hears⟩ := hears
  rw [level.path] at opening hears
  exact ⟨opened, opening, .of_level level hears⟩

/-- The balance is asked for because of what is told. -/
theorem hearsAsked_refresh {v : Wallet} {opened : List Notice} (level : w.Level v)
    (opening : Opening w.path opened)
    (asked : opened.flatMap (·.asks reads w.path) = reads.balanceReport w.handle) :
    HearsAsked reads w ((Reaction.announce v opened).andThen (refreshBalance reads)) := by
  refine ⟨opened, opening, ?_⟩
  rw [asked]
  have hears := v.hears_refreshBalance reads
  rw [handle, level.path] at hears
  exact .after level opened hears

theorem level_withTransfer (w : Wallet) (h : TransferHandle) (t : Transfer) :
    w.Level (w.withTransfer h t) := ⟨rfl, rfl, rfl, rfl⟩

theorem hearsAsked_admitTransfer (reads : EngineReads) (w : Wallet) (h : TransferHandle)
    (raw : RawTransfer) : HearsAsked reads w (w.admitTransfer reads h raw) := by
  unfold admitTransfer
  split
  · exact hearsAsked_silent (.refl w) rfl
  · split
    · exact hearsAsked_silent (.refl w) rfl
    · refine hearsAsked_refresh ⟨rfl, rfl, rfl, rfl⟩ (fun n hn => ?_) ?_
      · simp only [List.mem_cons, List.not_mem_nil, or_false] at hn
        rcases hn with rfl | rfl <;> simp [Notice.isNews, Notice.isEdge]
      · simp [Notice.asks, handle]

theorem hearsAsked_advance_none (reads : EngineReads) (w : Wallet) (h : TransferHandle)
    (new : TransferState) : HearsAsked reads w (w.advance reads h none new) := by
  unfold advance
  cases known : w.transfers.find? h with
  | none => exact hearsAsked_silent (.refl w) rfl
  | some t =>
    have opening : Opening w.path [.transfer (w.path.child h) (.changed t.state new),
        .wallet w.path (transferNotice (w.path.child h) new)] := by
      intro n hn
      simp only [List.mem_cons, List.not_mem_nil, or_false] at hn
      rcases hn with rfl | rfl
      · simp [Notice.isNews, Notice.isEdge]
      · cases new <;> simp [Notice.isNews, Notice.isEdge, transferNotice]
    rcases t.transition_cases new with ⟨-, ht⟩ | ⟨-, ht⟩ | ⟨-, ht⟩
    · simp only [ht]
      exact hearsAsked_silent (level_withTransfer w h t) rfl
    · simp only [ht]
      cases new with
      | included c =>
        exact hearsAsked_refresh (level_withTransfer w h _) opening (by
          simp [Notice.asks, TransferState.settles, transferNotice, handle])
      | failed f =>
        exact hearsAsked_refresh (level_withTransfer w h _) opening (by
          simp [Notice.asks, TransferState.settles, transferNotice, handle])
      | created | signed | submitted | deleted =>
        refine ⟨_, opening, ?_⟩
        simp only [List.flatMap_cons, List.flatMap_nil, Notice.asks, TransferState.settles,
          transferNotice, Bool.false_eq_true, and_false, if_false, List.append_nil]
        exact hears_nothing (r := .announce (w.withTransfer h _) _) rfl rfl rfl rfl
    · simp only [ht]
      exact hearsAsked_silent (level_withTransfer w h t) rfl

theorem hearsAsked_advance (reads : EngineReads) (w : Wallet) (h : TransferHandle)
    (hash : Option TransferHash) (new : TransferState) :
    HearsAsked reads w (w.advance reads h hash new) := by
  cases hash with
  | none => exact hearsAsked_advance_none reads w h new
  | some x =>
    cases known : w.transfers.find? h with
    | none =>
      rw [advance_unknown reads _ new known]
      exact hearsAsked_silent (.refl w) rfl
    | some t =>
      rw [advance_some reads x new known]
      exact (hearsAsked_advance_none reads _ h new).of_level (level_withTransfer w h _)

theorem hearsAsked_advanceHashed (reads : EngineReads) (w : Wallet) (h : TransferHandle)
    (hash : Option (List UInt8)) (new : TransferState) :
    HearsAsked reads w (w.advanceHashed reads h hash new) := by
  unfold advanceHashed
  split
  · exact hearsAsked_silent (.refl w) rfl
  · exact hearsAsked_advance reads w h _ new

theorem hearsAsked_dropTransfer (reads : EngineReads) (hw : w.Sound) (h : TransferHandle) :
    HearsAsked reads w (w.dropTransfer reads h) := by
  unfold dropTransfer
  split
  · exact hearsAsked_silent (.refl w) rfl
  · rename_i t known
    rw [Transfer.retirement_eq (hw.live known), hw.place known]
    refine hearsAsked_refresh ⟨rfl, rfl, rfl, rfl⟩ (fun n hn => ?_) ?_
    · simp only [List.mem_cons, List.not_mem_nil, or_false] at hn
      rcases hn with rfl | rfl | rfl <;> simp [Notice.isNews, Notice.isEdge]
    · simp [Notice.asks, TransferState.settles, handle, TransferPath.parent, WalletPath.child]

/-- **Transfers.** What a wallet hears when one of its transfers reports something is what its
engine is asked because of that. -/
theorem hearsAsked_reactTransfer (reads : EngineReads) (hw : w.Sound) (h : TransferHandle)
    (c : TransferCallback) : HearsAsked reads w (w.reactTransfer reads h c) := by
  cases c with
  | created attributes => exact hearsAsked_admitTransfer reads w h attributes
  | signed hash | submitted hash => exact hearsAsked_advanceHashed reads w h hash _
  | included n i s fee =>
    simp only [reactTransfer]
    split
    · exact hearsAsked_silent (.refl w) rfl
    · exact hearsAsked_advance_none reads w h _
  | errored e => exact hearsAsked_advance_none reads w h _
  | deleted => exact hearsAsked_dropTransfer reads hw h

end Wallet

end WalletHub
