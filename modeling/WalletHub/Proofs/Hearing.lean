import WalletHub.Proofs.Conduct
import WalletHub.Proofs.Reports

/-!
# What wallets hear in a command

When a manager reacts to a callback or to a request, reports of its wallets come with the callback
or because the engine is asked. Whatever the reaction is, a wallet that is there after it has the
last values among these reports, and otherwise those it had before; what is told of them is told
last, and only if they are others (`Wallet.Keeps`). A wallet that is created by the reaction starts
from nothing (`Wallet.Origin`).

* `Manager.hears_reaction`: what a callback makes of the values of the wallets of its manager.
* `Manager.hears_complies`: what a request makes of them.
-/
namespace WalletHub

/-! ## One wallet -/

namespace Wallet

/-- What becomes of the values of the wallet `w` when `rs` is reported of it and `ns` is told: `w'`
has the last values, and what is told of them, if they are others, is told last. -/
structure Keeps (w : Wallet) (rs : List Report) (ns : List Notice) (w' : Wallet) : Prop where
  path : w'.path = w.path
  currency : w'.currency = w.currency
  balance : w'.balance = (w.lastBalance? rs).getD w.balance
  feeBasis : w'.defaultFeeBasis = (w.lastFeeBasis? rs).or w.defaultFeeBasis
  told : ∃ opened, (∀ n ∈ opened, n.isNews w.path = false) ∧
    ns = opened ++ (w'.balanceNews w.balance ++ w'.feeBasisNews w.defaultFeeBasis)

/-- The wallet at `p` before a command reports anything of it: the one that is there, or a new one
if the command creates one. -/
inductive Origin (p : WalletPath) (ns : List Notice) : Option Wallet → Wallet → Prop
  | kept {w : Wallet} (place : w.path = p) (still : Notice.wallet p .created ∉ ns) :
      Origin p ns (some w) w
  | made (c f : Currency) (created : Notice.wallet p .created ∈ ns) :
      Origin p ns none (.create p c f)

/-- A wallet that is there in the end has not ended, and has the values that were reported of it;
`misread` of the reports could not be read. -/
def Follows (p : WalletPath) (rs : List Report) (ns : List Notice) (misread : Nat)
    (old new : Option Wallet) : Prop :=
  ∀ w', new = some w' → Notice.wallet p .deleted ∉ ns ∧
    ∃ w, Origin p ns old w ∧ w.Keeps rs ns w' ∧ (rs ≠ [] → misread = rs.countP w.misreads)

variable {p : WalletPath} {w w' : Wallet} {rs : List Report} {ns opened : List Notice}
  {misread : Nat} {old new : Option Wallet} {reads : EngineReads} {r : Reaction Wallet}

theorem not_mem_of_isEdge (inner : ∀ n ∈ ns, n.isEdge p = false) :
    Notice.wallet p .created ∉ ns ∧ Notice.wallet p .deleted ∉ ns :=
  ⟨fun hn => by simpa [Notice.isEdge] using inner _ hn,
    fun hn => by simpa [Notice.isEdge] using inner _ hn⟩

theorem Hears.keeps (hears : w.Hears rs opened r) (still : ∀ n ∈ opened, n.isNews w.path = false) :
    w.Keeps rs r.notices r.value :=
  ⟨hears.path, hears.currency, hears.balance, hears.feeBasis, ⟨opened, still, hears.told⟩⟩

theorem Hears.news (hears : w.Hears rs opened r) : ∃ news, r.notices = opened ++ news ∧
    ∀ n ∈ news, n.isNews w.path = true :=
  ⟨_, hears.told, hears.path ▸ isNews_news r.value w.balance w.defaultFeeBasis⟩

/-- What is told of values makes nobody ask. -/
theorem flatMap_asks_append {news : List Notice} (hnews : ∀ n ∈ news, n.isNews p = true)
    (reads : EngineReads) (q : WalletPath) :
    (opened ++ news).flatMap (·.asks reads q) = opened.flatMap (·.asks reads q) := by
  have silent : news.flatMap (·.asks reads q) = [] :=
    List.flatMap_eq_nil_iff.2 fun n hn => Notice.asks_of_isNews (hnews n hn) reads q
  rw [List.flatMap_append, silent, List.append_nil]

/-- A wallet that hears what comes, and what its engine is asked because of what is told. -/
theorem Hears.follows (place : w.path = p)
    (hears : w.Hears (rs ++ opened.flatMap (·.asks reads p)) opened r)
    (opening : Opening p opened) :
    Follows p (rs ++ r.notices.flatMap (·.asks reads p)) r.notices r.misread (some w)
      (some r.value) := by
  subst place
  obtain ⟨news, told, hnews⟩ := hears.news
  have inner : ∀ n ∈ r.notices, n.isEdge w.path = false := by
    intro n hn
    rw [told] at hn
    rcases List.mem_append.1 hn with hn | hn
    · exact (opening n hn).2
    · exact Notice.isEdge_of_isNews (hnews n hn) _
  have asked : r.notices.flatMap (·.asks reads w.path) =
      opened.flatMap (·.asks reads w.path) := by
    rw [told, flatMap_asks_append hnews]
  rintro w' ⟨⟩
  refine ⟨(not_mem_of_isEdge inner).2, w, .kept rfl (not_mem_of_isEdge inner).1, ?_⟩
  rw [asked]
  exact ⟨hears.keeps fun n hn => (opening n hn).1, hears.counted⟩

theorem Hears.follows_reported (place : w.path = p) (hears : w.Hears rs [] r) :
    Follows p (rs ++ r.notices.flatMap (·.asks reads p)) r.notices r.misread (some w)
      (some r.value) := by
  have hears : w.Hears (rs ++ ([] : List Notice).flatMap (·.asks reads p)) [] r := by
    simpa using hears
  exact hears.follows place fun n hn => by cases hn

theorem HearsAsked.follows (place : w.path = p) (hears : HearsAsked reads w r) :
    Follows p (r.notices.flatMap (·.asks reads p)) r.notices r.misread (some w) (some r.value) := by
  obtain ⟨opened, opening, hears⟩ := hears
  rw [place] at opening hears
  have hears : w.Hears ([] ++ opened.flatMap (·.asks reads p)) opened r := hears
  exact hears.follows place opening

/-- Nothing happens to the wallet. -/
theorem follows_same (place : ∀ w, old = some w → w.path = p) (same : new = old)
    (apart : ∀ n ∈ ns, n.Apart p) (reads : EngineReads) (misread : Nat) :
    Follows p (ns.flatMap (·.asks reads p)) ns misread old new := by
  have silent : ns.flatMap (·.asks reads p) = [] :=
    List.flatMap_eq_nil_iff.2 fun n hn => (apart n hn).asks reads
  have inner := not_mem_of_isEdge fun n hn => (apart n hn).isEdge
  intro w hw
  subst same
  have at_p := place w hw
  subst hw
  refine ⟨inner.2, w, .kept at_p inner.1, ⟨rfl, rfl, ?_, ?_, ⟨ns, ?_, ?_⟩⟩, ?_⟩
  · rw [silent]; rfl
  · rw [silent]; rfl
  · exact fun n hn => at_p.symm ▸ (apart n hn).isNews
  · simp [balanceNews, feeBasisNews]
  · exact fun some => absurd silent some

theorem Follows.counted_as (hears : Follows p rs ns misread old new) {n : Nat}
    (same : rs ≠ [] → n = misread) : Follows p rs ns n old new := by
  intro w' hw'
  obtain ⟨lasting, w, origin, keeps, counted⟩ := hears w' hw'
  exact ⟨lasting, w, origin, keeps, fun some => (same some).trans (counted some)⟩

theorem Origin.path (origin : Origin p ns old w) : w.path = p := by
  cases origin with
  | kept place => exact place
  | made => rfl

/-- Something that does not matter is told before. -/
theorem Follows.prefixed {ms : List Notice}
    (hears : Follows p (ns.flatMap (·.asks reads p)) ns misread old new)
    (apart : ∀ n ∈ ms, n.Apart p) :
    Follows p ((ms ++ ns).flatMap (·.asks reads p)) (ms ++ ns) misread old new := by
  have silent : ms.flatMap (·.asks reads p) = [] :=
    List.flatMap_eq_nil_iff.2 fun n hn => (apart n hn).asks reads
  have inner := not_mem_of_isEdge fun n hn => (apart n hn).isEdge
  intro w' hw'
  obtain ⟨lasting, w, origin, keeps, counted⟩ := hears w' hw'
  refine ⟨fun hn => (List.mem_append.1 hn).elim inner.2 lasting, w, ?_, ?_⟩
  · cases origin with
    | kept place still =>
      exact .kept place fun hn => (List.mem_append.1 hn).elim inner.1 still
    | made c f created => exact .made c f (List.mem_append_right ms created)
  · obtain ⟨opened, still, told⟩ := keeps.told
    rw [List.flatMap_append, silent, List.nil_append]
    refine ⟨{ keeps with told := ⟨ms ++ opened, fun n hn => ?_, ?_⟩ }, counted⟩
    · rcases List.mem_append.1 hn with hn | hn
      · exact origin.path.symm ▸ (apart n hn).isNews
      · exact still n hn
    · rw [List.append_assoc, ← told]

/-! ### What is told of one wallet only -/

theorem beside_of_trail (trail : Trail Change w ns w') : ∀ n ∈ ns, n.Beside w.path := by
  have told := trail.told (P := fun v => v.path = w.path)
    (Q := fun ns _ => ∀ n ∈ ns, n.Beside w.path)
    (fun hc place => hc.path.trans place)
    (fun hc place told n hn => by
      rcases List.mem_append.1 hn with hn | hn
      · exact told n hn
      · exact place ▸ (hc.inWallet n hn).beside)
    rfl (s := []) (fun n hn => by cases hn)
  exact told

theorem beside_retirement (hw : w.Sound) (born : w.state = .created) :
    ∀ n ∈ w.retirement, n.Beside w.path := by
  intro n hn
  rw [retirement_eq born] at hn
  rcases List.mem_append.1 hn with hn | hn
  · exact beside_of_trail (trail_empty hw) n hn
  · simp only [List.mem_cons, List.not_mem_nil, or_false] at hn
    rcases hn with rfl | rfl | rfl
    · exact .inr rfl
    · exact .inr rfl
    · exact .inl rfl

end Wallet

/-! ## The wallets of a manager -/

/-- What a callback reports of the wallet at `p`. -/
def EngineCallback.reports (b : Backend) (p : WalletPath) : EngineCallback → List Report
  | .wallet m w (.balanceUpdated raw) =>
    if (⟨⟨b, m⟩, ⟨b, w⟩⟩ : WalletPath) = p then [.balance raw] else []
  | .wallet m w (.defaultFeeBasisUpdated raw) =>
    if (⟨⟨b, m⟩, ⟨b, w⟩⟩ : WalletPath) = p then [.feeBasis raw] else []
  | _ => []

namespace Manager

open Wallet

/-- The wallet `h` has the values that are reported of it, as `rs` or because its engine is asked,
after a reaction of its manager. -/
def Hears (m : Manager) (reads : EngineReads) (h : WalletHandle) (rs : List Report)
    (r : Reaction Manager) : Prop :=
  Follows ⟨m.handle, h⟩ (rs ++ r.notices.flatMap (·.asks reads ⟨m.handle, h⟩)) r.notices r.misread
    (m.wallets.find? h) (r.value.wallets.find? h)

variable {m : Manager} {reads : EngineReads} {h j : WalletHandle} {rs : List Report}
  {r : Reaction Manager} {f : Wallet → Reaction Wallet}

theorem hears_gone (gone : r.value.wallets.find? h = none) : m.Hears reads h rs r := by
  intro w hw
  rw [gone] at hw
  cases hw

theorem hears_same (hm : m.Sound) (same : r.value.wallets.find? h = m.wallets.find? h)
    (apart : ∀ n ∈ r.notices, n.Apart ⟨m.handle, h⟩) : m.Hears reads h [] r :=
  follows_same (fun _ known => hm.place known) same apart reads r.misread

theorem hears_still (hm : m.Sound) : m.Hears reads h [] (.still m) :=
  hears_same hm rfl fun n hn => by cases hn

theorem hears_discard (hm : m.Sound) (e : HubError) : m.Hears reads h [] (.discard m e) :=
  hears_same hm rfl fun n hn => by cases hn

/-- A deleted manager does not take reports. -/
theorem hears_ifLive (hm : m.Sound) (hears : m.Hears reads h rs r) :
    m.Hears reads h (if m.state = .deleted then [] else rs) (m.ifLive r) := by
  unfold ifLive
  split
  · exact hears_discard hm _
  · exact hears

theorem hears_ifLive_plain (hm : m.Sound) (hears : m.Hears reads h [] r) :
    m.Hears reads h [] (m.ifLive r) := by
  have live := hears_ifLive hm hears
  rwa [ite_self] at live

theorem hears_withWallet (hm : m.Sound)
    (hears : ∀ w, w.path = ⟨m.handle, h⟩ → w.Sound →
      Follows ⟨m.handle, h⟩ (rs ++ (f w).notices.flatMap (·.asks reads ⟨m.handle, h⟩))
        (f w).notices (f w).misread (some w) (some (f w).value)) :
    m.Hears reads h rs (m.withWallet h f) := by
  unfold withWallet
  split
  · rename_i unknown
    exact hears_gone unknown
  · rename_i w known
    have hw := hears w (hm.place known) (hm.sound known)
    unfold Hears
    rw [known, Reaction.value_map, Registry.modify_find?_self _ known]
    exact hw

theorem hears_withWallet_other (hm : m.Sound) (other : j ≠ h)
    (trail : ∀ w, w.path = ⟨m.handle, j⟩ → w.Sound →
      Trail Wallet.Change w (f w).notices (f w).value) :
    m.Hears reads h [] (m.withWallet j f) := by
  unfold withWallet
  split
  · exact hears_discard hm _
  · rename_i w known
    have place := hm.place known
    refine hears_same hm ?_ fun n hn => ?_
    · simp only [Reaction.value_map, Registry.find?_modify, if_neg other]
    · exact (beside_of_trail (trail w place (hm.sound known)) n hn).apart
        (by simp [place, other])

/-- A report that comes for one of the wallets. -/
theorem hears_reported (hm : m.Sound) (hears : ∀ w : Wallet, w.Hears rs [] (f w))
    (trail : ∀ w, Trail Wallet.Change w (f w).notices (f w).value) (j h : WalletHandle) :
    m.Hears reads h (if j = h then rs else []) (m.withWallet j f) := by
  by_cases same : j = h
  · subst same
    rw [if_pos rfl]
    exact hears_withWallet hm fun w place _ => (hears w).follows_reported place
  · rw [if_neg same]
    exact hears_withWallet_other hm same fun w _ _ => trail w

/-- A wallet that is admitted starts from nothing, and its engine is asked for both values. -/
theorem follows_newWallet (m : Manager) (reads : EngineReads) (h : WalletHandle) (c : Currency) :
    let p : WalletPath := ⟨m.handle, h⟩
    let opened : List Notice := [.wallet p .created, .manager m.handle (.walletAdded h)]
    let r := m.newWallet reads h c
    Follows p ((opened ++ r.notices).flatMap (·.asks reads p)) (opened ++ r.notices) r.misread none
      (some r.value) := by
  intro p opened r
  have hears : (Wallet.create p c (m.feeCurrencyFor c)).Hears _ [] r := hears_newWallet m reads h c
  obtain ⟨news, told, hnews⟩ := hears.news
  have asked : (opened ++ r.notices).flatMap (·.asks reads p) =
      reads.balanceReport h ++ reads.feeBasisReport h := by
    rw [told, List.nil_append, flatMap_asks_append hnews]
    simp [opened, Notice.asks, p]
  rintro w' ⟨⟩
  refine ⟨fun hn => ?_, _, .made c (m.feeCurrencyFor c) (by simp [opened]), ?_⟩
  · rcases List.mem_append.1 hn with hn | hn
    · simp [opened] at hn
    · rw [told, List.nil_append] at hn
      exact absurd (Notice.isEdge_of_isNews (hnews _ hn) p) (by simp [Notice.isEdge])
  · rw [asked]
    refine ⟨⟨hears.path, hears.currency, hears.balance, hears.feeBasis, ⟨opened, ?_, ?_⟩⟩,
      hears.counted⟩
    · simp [opened, Notice.isNews]
    · rw [hears.told, List.nil_append]

theorem hears_admitWallet (hm : m.Sound) (reads : EngineReads) (j : WalletHandle) (code : String)
    (h : WalletHandle) : m.Hears reads h [] (m.admitWallet reads j code) := by
  unfold admitWallet
  split
  · exact hears_discard hm _
  rename_i c listed
  split
  · exact hears_still hm
  rename_i unknown
  have unknown : m.wallets.find? j = none := by simpa [Registry.contains] using unknown
  have enter (k : WalletHandle) :
      (m.wallets.findOrCreate j (m.newWallet reads j c).value).1.find? k =
        if j = k then some (m.newWallet reads j c).value else m.wallets.find? k := by
    rw [Registry.find?_findOrCreate, unknown, Option.getD_none]
  by_cases same : j = h
  · subst same
    unfold Hears
    rw [unknown, enter, if_pos rfl]
    exact follows_newWallet m reads j c
  · refine hears_same hm ((enter h).trans (if_neg same)) fun n hn => ?_
    refine Notice.Beside.apart (q := ⟨m.handle, j⟩) ?_ (by simp [same])
    rcases List.mem_append.1 hn with hn | hn
    · simp only [List.mem_cons, List.not_mem_nil, or_false] at hn
      rcases hn with rfl | rfl
      · exact .inr rfl
      · exact .inl rfl
    · exact beside_of_trail (trail_newWallet m reads j c) n hn

theorem hears_dropWallet (hm : m.Sound) (reads : EngineReads) (j h : WalletHandle) :
    m.Hears reads h [] (m.dropWallet j) := by
  unfold dropWallet
  split
  · exact hears_discard hm _
  rename_i w known
  by_cases same : j = h
  · refine hears_gone ?_
    simp only [Reaction.announce, Registry.find?_erase, if_pos same]
  · refine hears_same hm ?_ fun n hn => ?_
    · simp only [Reaction.announce, Registry.find?_erase, if_neg same]
    · exact (beside_retirement (hm.sound known) (hm.born known) n hn).apart
        (by simp [hm.place known, same])

theorem hears_moveTo (hm : m.Sound) (new : ManagerState) {more : List Notice}
    (apart : ∀ n ∈ more, n.Apart ⟨m.handle, h⟩) : m.Hears reads h [] (m.moveTo new more) := by
  unfold moveTo
  rcases m.transition_cases new with ⟨-, ht⟩ | ⟨-, ht⟩ | ⟨-, ht⟩ <;> rw [ht]
  · exact hears_still hm
  · refine hears_same hm rfl fun n hn => ?_
    rcases List.mem_cons.1 hn with rfl | hn
    · exact ⟨fun _ => rfl, rfl, rfl⟩
    · exact apart n hn
  · exact hears_discard hm _

/-- Confirmations are no news of a wallet. -/
theorem hears_receiveHeight (hm : m.Sound) (height : UInt64) :
    m.Hears reads h [] (m.receiveHeight height) := by
  unfold receiveHeight setHeight
  by_cases hh : m.height = height
  · simp only [hh, if_true]
    exact hears_still hm
  · simp only [hh, if_false]
    cases told : m.transfers.mapM
        (confirmationNotices? height m.network.confirmationsUntilFinal) with
    | none => exact hears_same hm rfl fun n hn => by cases hn
    | some nss =>
      refine hears_same hm rfl fun n hn => ?_
      rcases List.mem_cons.1 hn with rfl | hn
      · exact ⟨fun _ => rfl, rfl, rfl⟩
      · obtain ⟨t, -, k, rfl⟩ := mem_of_confirmationNotices told n hn
        exact ⟨fun _ => rfl, rfl, rfl⟩

theorem hears_reactLive (hm : m.Sound) (reads : EngineReads) (h : WalletHandle)
    (c : ManagerCallback) : m.Hears reads h [] (m.reactLive c) := by
  have spoken (n : ManagerNotice) (sync : n.isSync) :
      ∀ x ∈ [Notice.manager m.handle n], x.Apart ⟨m.handle, h⟩ := by
    intro x hx
    obtain rfl := List.mem_singleton.1 hx
    cases n <;> first | exact ⟨fun _ => rfl, rfl, rfl⟩ | cases sync
  cases c with
  | created | deleted => exact hears_still hm
  | connected | disconnected => exact hears_moveTo hm _ fun n hn => by cases hn
  | syncStarted => exact hears_moveTo hm _ (spoken _ rfl)
  | syncProgress percent timestamp =>
    simp only [reactLive]
    split
    · exact hears_same hm rfl (spoken _ rfl)
    · exact hears_still hm
  | syncStopped reason =>
    simp only [reactLive]
    split
    · exact hears_moveTo hm _ (spoken _ rfl)
    · exact hears_same hm rfl (spoken _ rfl)
  | blockHeightUpdated height => exact hears_receiveHeight hm height

/-- What a callback about the manager itself makes of the values of a wallet: nothing, or the
wallet goes. -/
theorem hears_react (hm : m.Sound) (reads : EngineReads) (h : WalletHandle) (c : ManagerCallback) :
    m.Hears reads h [] (m.react c) := by
  cases c with
  | deleted =>
    simp only [react]
    split
    · exact hears_still hm
    · exact hears_gone rfl
  | created | connected | disconnected | syncStarted | syncProgress | syncStopped
  | blockHeightUpdated =>
    exact hears_ifLive_plain hm (hears_reactLive hm reads h _)

/-- What a callback about a wallet makes of the values of the wallets of its manager. -/
theorem hears_reactWallet (hm : m.Sound) (reads : EngineReads) {b : Backend} {i : UInt64}
    (place : m.handle = ⟨b, i⟩) (w : UInt64) (c : WalletCallback) (h : WalletHandle) :
    m.Hears reads h
      (if m.state = .deleted then [] else (EngineCallback.wallet i w c).reports b ⟨m.handle, h⟩)
      (m.reactWallet reads ⟨b, w⟩ c) := by
  refine hears_ifLive hm ?_
  have path : ((⟨⟨b, i⟩, ⟨b, w⟩⟩ : WalletPath) = ⟨m.handle, h⟩) ↔ (⟨b, w⟩ : WalletHandle) = h := by
    simp [place]
  cases c with
  | created code => exact hears_admitWallet hm reads _ code h
  | balanceUpdated raw =>
    simp only [EngineCallback.reports, path]
    refine hears_reported hm (fun v => ?_) (fun v => ?_) ⟨b, w⟩ h
    · cases read : v.normalizeBalance raw with
      | ok balance => exact hears_receiveBalance read
      | error e => exact hears_misread (misreads_balance_iff.2 ⟨e, read⟩) rfl rfl rfl
    · split
      · exact .still v
      · rename_i read; exact trail_receiveBalance read
  | defaultFeeBasisUpdated raw =>
    simp only [EngineCallback.reports, path]
    refine hears_reported hm (fun v => ?_) (fun v => ?_) ⟨b, w⟩ h
    · cases read : v.normalizeFeeBasis raw with
      | ok basis => exact hears_receiveFeeBasis read
      | error e => exact hears_misread (misreads_feeBasis_iff.2 ⟨e, read⟩) rfl rfl rfl
    · split
      · exact .still v
      · rename_i read; exact trail_receiveFeeBasis read
  | deleted => exact hears_dropWallet hm reads _ h

/-- What a callback about a transfer makes of the values of the wallets of its manager. -/
theorem hears_reactTransfer (hm : m.Sound) (reads : EngineReads) (w : WalletHandle)
    {t : TransferHandle} (side : t.backend = m.handle.backend) (c : TransferCallback)
    (h : WalletHandle) : m.Hears reads h [] (m.reactTransfer reads w t c) := by
  refine hears_ifLive_plain hm ?_
  by_cases same : w = h
  · subst same
    exact hears_withWallet hm fun v place hv =>
      (hearsAsked_reactTransfer reads hv t c).follows place
  · exact hears_withWallet_other hm same fun v place hv =>
      Wallet.trail_reactTransfer reads hv (by rw [place]; exact side) c

/-- **Callbacks.** What a callback makes of the values of the wallets of its manager. -/
theorem hears_reaction (hm : m.Sound) (reads : EngineReads) {b : Backend} {c : EngineCallback}
    (place : m.handle = c.addressee b) (h : WalletHandle) :
    m.Hears reads h (if m.state = .deleted then [] else c.reports b ⟨m.handle, h⟩)
      (c.reaction reads b m) := by
  have unreported {r : Reaction Manager} (none : c.reports b ⟨m.handle, h⟩ = [])
      (hears : m.Hears reads h [] r) :
      m.Hears reads h (if m.state = .deleted then [] else c.reports b ⟨m.handle, h⟩) r := by
    rwa [none, ite_self]
  cases c with
  | manager i event => exact unreported rfl (hears_react hm reads h event)
  | wallet i w event => exact hears_reactWallet hm reads place w event h
  | transfer i w t event =>
    exact unreported rfl (hears_reactTransfer hm reads _ (by rw [place]; rfl) event h)
  | queryRequested => exact unreported rfl (hears_still hm)

/-- **Requests.** What a manager makes of the values of its wallets when its engine accepted a
request. -/
theorem hears_complies (hm : m.Sound) {x : Reaction Manager} (complies : m.Complies reads x)
    (h : WalletHandle) : m.Hears reads h [] x := by
  cases complies with
  | admitsWallet code => exact hears_admitWallet hm reads _ code h
  | disconnects => exact hears_moveTo hm _ fun n hn => by cases hn
  | @admitsTransfer w t raw side =>
    by_cases same : w = h
    · subst same
      exact hears_withWallet hm fun v place _ =>
        (hearsAsked_admitTransfer reads v t raw).follows place
    · exact hears_withWallet_other hm same fun v place _ =>
        Wallet.trail_admitTransfer reads v raw (by rw [place]; exact side)

end Manager

end WalletHub
