import WalletHub.Proofs.Frozen
import WalletHub.Proofs.Hearing
import WalletHub.Proofs.Independence

/-!
# What wallets have of what engines report

The balance and the default fee basis of a wallet are what its engine reports. A command brings
reports in two ways: it is a callback with one (`Hub.delivered`), or the engine is asked because of
what happens in it, which can be read off what it tells (`Hub.asked`). A wallet has the last values
that could be read of all that was reported since it was created (`Session.Recounts`), and it tells
of a value whenever it is another one than before.

* `Hub.hears_process`: what a command makes of the values of a wallet.
* `Hub.process_misread`: a callback with a report that cannot be read does nothing.
* `Hub.stays_process`: a wallet is there until its end is told.
* `Session.cached_reports`: what a wallet has in any run, and what becomes of it.
-/
namespace WalletHub

/-! ## The records -/

namespace Manager

variable {m : Manager} {reads : EngineReads} {x : Reaction Manager}

/-- A request that fails in the records is told by nothing. -/
theorem Complies.misread (hx : m.Complies reads x) (told : x.notices ≠ []) :
    x.misread = x.unread := by
  have leaves : x.Leaves m := by
    cases hx with
    | admitsWallet code side => exact leaves_admitWallet m reads _ code
    | disconnects => exact leaves_moveTo m _ []
    | admitsTransfer w raw side =>
      exact leaves_withWallet_self fun v => v.leaves_admitTransfer reads _ raw
  rcases leaves with done | ⟨e, rfl⟩
  · simp [Reaction.misread, done]
  · exact absurd rfl told

end Manager

namespace Tree

open Wallet

variable {t t' : Tree} {m : Manager} {p : WalletPath} {w : Wallet} {reads : EngineReads}
  {ns : List Notice} {r : Reaction Manager}

theorem apart_of_named {k : ManagerHandle} {n : Notice} (named : n.named? = some k)
    (other : p.manager ≠ k) : n.Apart p := by
  refine Notice.apart_of_wallet?_ne fun same => other ?_
  cases n with
  | hub n => cases same
  | manager j n =>
    cases n with
    | walletChanged h => cases same; exact Option.some.inj named
    | _ => cases same
  | wallet q n => cases same; exact Option.some.inj named
  | transfer q n => cases same; exact Option.some.inj named

/-- Nothing is told, and the wallet is the same. -/
theorem follows_silent (hs : t.Sound) (same : t'.wallet? p = t.wallet? p) (misread : Nat) :
    Follows p [] [] misread (t.wallet? p) (t'.wallet? p) :=
  follows_same (fun _ => hs.path) same (fun n hn => by cases hn) .nothing misread

/-- A reaction of one manager, in all records. -/
theorem follows_put (rs : List Report) (hs : t.Sound) (known : t.manager? m.handle = some m)
    (near : m.Local r) (here : p.manager = m.handle → m.Hears reads p.wallet rs r)
    (elsewhere : p.manager ≠ m.handle → rs = []) :
    Follows p (rs ++ r.notices.flatMap (·.asks reads p)) r.notices r.misread (t.wallet? p)
      ((t.put r.value).wallet? p) := by
  have look := wallet?_put known near.handle p
  by_cases home : p.manager = m.handle
  · have hears := here home
    unfold Manager.Hears at hears
    rw [← home] at hears known
    rw [wallet?_of_manager? known, look, if_pos home.symm]
    exact hears
  · rw [elsewhere home, List.nil_append]
    exact follows_same (fun w => hs.path) (look.trans (if_neg (Ne.symm home)))
      (fun n hn => apart_of_named (near.named n hn) home) reads r.misread

/-- A new manager, and its reaction behind the notices of its creation. -/
theorem follows_founded (hs : t.Sound) (unknown : t.manager? m.handle = none)
    (bare : m.wallets = .empty) (near : m.Local r)
    (here : p.manager = m.handle → m.Hears reads p.wallet [] r)
    (index : Table (String × String) ManagerHandle) :
    let opened : List Notice := [.manager m.handle .created, .hub (.managerAdded m.handle)]
    Follows p ((opened ++ r.notices).flatMap (·.asks reads p)) (opened ++ r.notices) r.misread
      (t.wallet? p) (wallet? ⟨(t.managers.findOrCreate m.handle r.value).1, index⟩ p) := by
  intro opened
  have apart : ∀ n ∈ opened, n.Apart p := by
    intro n hn
    simp only [opened, List.mem_cons, List.not_mem_nil, or_false] at hn
    rcases hn with rfl | rfl <;> exact ⟨fun _ => rfl, rfl, rfl⟩
  refine Follows.prefixed ?_ apart
  have look : manager? ⟨(t.managers.findOrCreate m.handle r.value).1, index⟩ p.manager =
      if m.handle = p.manager then some r.value else t.manager? p.manager := by
    simp only [manager?, Registry.find?_findOrCreate,
      show t.managers.find? m.handle = none from unknown, Option.getD_none]
  by_cases home : p.manager = m.handle
  · have hears := here home
    unfold Manager.Hears at hears
    rw [← home, bare, Registry.find?_empty] at hears
    rw [if_pos home.symm] at look
    rw [← home] at unknown
    rw [wallet?_of_manager? look, wallet?, unknown]
    exact hears
  · rw [if_neg (Ne.symm home)] at look
    exact follows_same (fun w => hs.path) (wallet?_congr look)
      (fun n hn => apart_of_named (near.named n hn) home) reads r.misread

/-- What a request makes of the values of a wallet, once an engine was asked. -/
theorem follows_heeds (hs : t.Sound) {e : Engine} {b : Backend} {i : Issued} {unread : Nat}
    (heeds : t.Heeds e b i t' ns unread) (known : p.manager.backend = b → reads = e.reads) :
    Follows p (ns.flatMap (·.asks reads p)) ns unread (t.wallet? p) (t'.wallet? p) := by
  have counted (ms : List Notice) {m : Manager} {x : Reaction Manager}
      (complies : m.Complies e.reads x) (some : (ms ++ x.notices).flatMap (·.asks reads p) ≠ [])
      (silent : ms.flatMap (·.asks reads p) = []) : x.unread = x.misread := by
    refine (complies.misread fun told => some ?_).symm
    rw [told, List.append_nil, silent]
  have hears {m : Manager} {x : Reaction Manager} (hm : m.Sound) (side : m.handle.backend = b)
      (complies : m.Complies e.reads x) (home : p.manager = m.handle) :
      m.Hears reads p.wallet [] x := by
    rw [known (home ▸ side)]
    exact Manager.hears_complies hm complies p.wallet
  cases heeds with
  | refused | relayed => exact follows_silent hs rfl 0
  | @complied c m x plain there live side complies =>
    have hm := hs.sound there
    exact (follows_put [] hs there (complies.near hm) (hears hm side complies)
      fun _ => rfl).counted_as fun some => counted [] complies some rfl
  | @modeSet m mode there side =>
    refine follows_silent hs ?_ 0
    rw [wallet?_put_same there]
    all_goals rfl
  | @founded q m x index unknown new complies =>
    have bare : m.wallets = .empty := new ▸ rfl
    have hm := Manager.sound_of_bare bare
    exact (follows_founded hs unknown bare (complies.near hm) (hears hm (new ▸ rfl) complies)
      index).counted_as fun some => counted _ complies some rfl
  | @reissued q m x index there stale complies =>
    have hm := hs.sound there
    exact (follows_put [] hs there (complies.near hm) (hears hm (stale ▸ rfl) complies)
      fun _ => rfl).counted_as fun some => counted [] complies some rfl

end Tree

/-! ## Wallets that stay -/

/-- A manager keeps a wallet until it tells of its end. -/
theorem Manager.Change.stays {m m' : Manager} {ns : List Notice} (hc : Manager.Change m ns m')
    {h : WalletHandle} {w : Wallet} (known : m.wallets.find? h = some w)
    (lasting : Notice.wallet ⟨m.handle, h⟩ .deleted ∉ ns) :
    ∃ w', m'.wallets.find? h = some w' := by
  cases hc with
  | moved | spoke | raised | confirmed | retired | modeSet => exact ⟨w, known⟩
  | walletCreated =>
    simp only [Registry.find?_findOrCreate]
    split
    · exact ⟨_, rfl⟩
    · exact ⟨w, known⟩
  | @wallet j v v' ns there =>
    simp only [Registry.find?_modify, there]
    split
    · exact ⟨v', rfl⟩
    · exact ⟨w, known⟩
  | @walletRetired j v =>
    have other : j ≠ h := by
      rintro rfl
      exact lasting (by simp)
    simp only [Registry.find?_erase, if_neg other]
    exact ⟨w, known⟩

namespace Tree

variable {made : ManagerHandle → Prop} {guarded : Prop} {t t' : Tree} {p : WalletPath} {w : Wallet}
  {ns : List Notice}

theorem Change.stays (hc : Change made guarded t ns t') (known : t.wallet? p = some w)
    (lasting : Notice.wallet p .deleted ∉ ns) : ∃ w', t'.wallet? p = some w' := by
  obtain ⟨m, there, hw⟩ := Option.bind_eq_some_iff.1 known
  cases hc with
  | indexed => exact ⟨w, known⟩
  | @managerCreated k n fresh =>
    have other : k ≠ p.manager := by
      rintro rfl
      cases there.symm.trans fresh
    have look : manager? { t with managers := (t.managers.findOrCreate k n).1 } p.manager =
        t.manager? p.manager := by
      simp only [manager?, Registry.find?_findOrCreate, if_neg other]
    exact ⟨w, (wallet?_congr look).trans known⟩
  | @manager n n' _ there' step =>
    rw [wallet?_put there' step.2.handle]
    split
    · rename_i home
      rw [home, there] at there'
      cases there'
      exact step.2.stays hw (by rw [home]; exact lasting)
    · exact ⟨w, known⟩

theorem stays_of_trail (trail : Trail (Change made guarded) t ns t') (known : t.wallet? p = some w)
    (lasting : Notice.wallet p .deleted ∉ ns) : ∃ w', t'.wallet? p = some w' := by
  induction trail generalizing w with
  | still => exact ⟨w, known⟩
  | step hc _ ih =>
    obtain ⟨v, hv⟩ := hc.stays known fun hn => lasting (List.mem_append_left _ hn)
    exact ih hv fun hn => lasting (List.mem_append_right _ hn)

end Tree

/-! ## Commands -/

theorem EngineCallback.reports_of_ne {b : Backend} {p : WalletPath} {c : EngineCallback}
    (other : p.manager ≠ c.addressee b) : c.reports b p = [] := by
  cases c with
  | wallet i w event =>
    have elsewhere : (⟨⟨b, i⟩, ⟨b, w⟩⟩ : WalletPath) ≠ p :=
      fun same => other (congrArg WalletPath.manager same).symm
    cases event <;> simp [reports, elsewhere]
  | _ => rfl

/-- What a wallet discards, its manager does. -/
theorem Manager.withWallet_discard {m : Manager} {h : WalletHandle} {w : Wallet} {e : HubError}
    {f : Wallet → Reaction Wallet} (known : m.wallets.find? h = some w)
    (discarded : f w = .discard w e) : m.withWallet h f = .discard m e := by
  simp only [withWallet, known, discarded, Reaction.map, Reaction.discard,
    Registry.modify_const_self known]

/-- A report that cannot be read is discarded. -/
theorem Manager.reaction_misread {m : Manager} (reads : EngineReads) (live : m.state ≠ .deleted)
    {h : WalletHandle} {w : Wallet} (known : m.wallets.find? h = some w) {b : Backend}
    {c : EngineCallback} {x : Report} (brought : c.reports b ⟨m.handle, h⟩ = [x])
    (misread : w.misreads x = true) : ∃ e, c.reaction reads b m = .discard m (.decode e) := by
  cases c with
  | wallet i j event =>
    cases event with
    | balanceUpdated raw =>
      simp only [EngineCallback.reports] at brought
      split at brought
      · rename_i same
        obtain rfl : (⟨b, j⟩ : WalletHandle) = h := congrArg WalletPath.wallet same
        cases brought
        obtain ⟨e, failed⟩ := Wallet.misreads_balance_iff.1 misread
        refine ⟨e, (if_neg live).trans (withWallet_discard known ?_)⟩
        rw [failed]
      · cases brought
    | defaultFeeBasisUpdated raw =>
      simp only [EngineCallback.reports] at brought
      split at brought
      · rename_i same
        obtain rfl : (⟨b, j⟩ : WalletHandle) = h := congrArg WalletPath.wallet same
        cases brought
        obtain ⟨e, failed⟩ := Wallet.misreads_feeBasis_iff.1 misread
        refine ⟨e, (if_neg live).trans (withWallet_discard known ?_)⟩
        rw [failed]
      · cases brought
    | _ => cases brought
  | _ => cases brought

theorem Counters.unread_tally {α : Type} (c : Counters) (r : Reaction α) :
    (c.tally r).unread = c.unread + r.misread := by
  unfold tally fail Reaction.misread
  cases r.fault with
  | none => rfl
  | some f =>
    cases f with
    | error e => cases e <;> rfl
    | violation | overflow => rfl

namespace Hub

open Handling Wallet

variable {h g : Hub} {p : WalletPath} {w w' : Wallet} {c : Command} {ns : List Notice}

/-- What a command reports of the wallet at `p` by itself. A deleted manager takes no callbacks. -/
def delivered (h : Hub) (p : WalletPath) : Command → List Report
  | .callback b c =>
    match h.tree.manager? p.manager with
    | some m => if m.state = .deleted then [] else c.reports b p
    | none => []
  | _ => []

/-- What the engine reports of the wallet at `p` when it is asked because of what is told. A wallet
that ends is not asked for. -/
def asked (h : Hub) (p : WalletPath) (ns : List Notice) : List Report :=
  if .wallet p .deleted ∈ ns then []
  else ns.flatMap (·.asks (h.reads p.manager.backend) p)

/-- All that is reported of the wallet at `p` in a command. -/
def reports (h : Hub) (p : WalletPath) (c : Command) : List Report :=
  h.delivered p c ++ h.asked p (h.process c).notices

/-- The wallet that is at `p` in `g` has what was reported of it on the way from `h`, where `ns` is
told and a command reports `rs` by itself. The reports that could not be read were counted. -/
def Hears (h : Hub) (p : WalletPath) (rs : List Report) (g : Hub) (ns : List Notice) : Prop :=
  let rs := rs ++ ns.flatMap (·.asks (h.reads p.manager.backend) p)
  ∀ w', g.tree.wallet? p = some w' → Notice.wallet p .deleted ∉ ns ∧
    ∃ w, Origin p ns (h.tree.wallet? p) w ∧ w.Keeps rs ns w' ∧
      (rs ≠ [] → g.counters.unread = h.counters.unread + rs.countP w.misreads)

theorem hears_of_follows {rs : List Report} {misread : Nat}
    (follows : Follows p (rs ++ ns.flatMap (·.asks (h.reads p.manager.backend) p)) ns misread
      (h.tree.wallet? p) (g.tree.wallet? p))
    (counted : rs ++ ns.flatMap (·.asks (h.reads p.manager.backend) p) ≠ [] →
      g.counters.unread = h.counters.unread + misread) : h.Hears p rs g ns := by
  intro w' hw'
  obtain ⟨lasting, w, origin, keeps, misread⟩ := follows w' hw'
  exact ⟨lasting, w, origin, keeps, fun some => misread some ▸ counted some⟩

theorem hears_silent (hs : h.tree.Sound) (same : g.tree.wallet? p = h.tree.wallet? p)
    (silent : ns = []) : h.Hears p [] g ns := by
  subst silent
  exact hears_of_follows (Tree.follows_silent hs same 0) fun some => absurd rfl some

/-- What a callback makes of the values of a wallet. -/
theorem hears_callback (hs : h.tree.Sound) (b : Backend) (c : EngineCallback) (p : WalletPath) :
    h.Hears p (h.delivered p (.callback b c)) (h.process (.callback b c)).hub
      (h.process (.callback b c)).notices := by
  have unreported (none : c.reports b p = []) : h.delivered p (.callback b c) = [] := by
    simp only [delivered, none, ite_self]
    split <;> rfl
  cases plain : c.isQuery with
  | true =>
    cases c with
    | queryRequested i id q =>
      have quiet := (quiet_onQuery (h.count .callback) b i id q).relayed
        (relayed_concludeCallback h _)
      rw [unreported rfl]
      exact hears_silent hs (congrArg (·.wallet? p) quiet.tree) quiet.told
    | _ => cases plain
  | false =>
    by_cases exceeds : h.tree.Overflows b c
    · -- only a height can exceed, and it is no report
      have none : c.reports b p = [] := by
        cases c with
        | manager => rfl
        | _ => exact exceeds.elim
      have halted := (halted_iff_overflows plain).2 exceeds
      rw [unreported none]
      cases outcome_process hs (.callback b c) with
      | onward life => cases life.symm.trans halted
      | ending life => cases life.symm.trans halted
      | halting _ notices tree =>
        refine hears_silent hs ?_ notices
        rcases tree with tree | ⟨m, height, known, tree⟩
        · rw [tree]
        · rw [tree, Tree.wallet?_put_same known]
          all_goals rfl
    obtain ⟨hub, -, notices⟩ := process_of_respond plain exceeds
    rw [hub, notices]
    unfold respond
    cases known : h.tree.manager? (c.addressee b) with
    | none =>
      have none : h.delivered p (.callback b c) = [] := by
        by_cases home : p.manager = c.addressee b
        · simp only [delivered, home, known]
        · exact unreported (EngineCallback.reports_of_ne home)
      rw [none]
      exact hears_silent hs rfl rfl
    | some m =>
      have place := hs.place known
      have hm := hs.sound known
      have side : (c.addressee b).backend = b := by cases c <;> rfl
      refine hears_of_follows (Tree.follows_put _ hs (place ▸ known)
        (Manager.local_reaction _ hm place) (fun home => ?_)
        fun away => unreported (EngineCallback.reports_of_ne (place ▸ away)))
        fun _ => Counters.unread_tally ..
      have hears := Manager.hears_reaction hm (h.reads b) place p.wallet
      have known' : h.tree.manager? p.manager = some m := by rw [home, place, known]
      have backend : p.manager.backend = b := by rw [home, place, side]
      rw [← home] at hears
      simp only [delivered, known', backend]
      exact hears

/-- The turn of a request tells what its handling tells. -/
theorem told_concludeRequest {r : Handling} (hr : r.Faithful h) :
    (concludeRequest h r).notices = r.notices ∧ (concludeRequest h r).hub.tree = r.hub.tree ∧
      (r.notices ≠ [] →
        (concludeRequest h r).hub.counters.unread = r.hub.counters.unread) := by
  unfold concludeRequest
  split
  · exact ⟨notices_conclude .., rfl, fun _ => rfl⟩
  · rename_i f failed
    split
    · rename_i fatal
      rcases hr.fault f failed with ⟨e, rfl⟩ | ⟨-, silent, -⟩
      · cases fatal
      · exact ⟨silent.symm, rfl, fun told => absurd silent told⟩
    · split
      all_goals exact ⟨notices_conclude .., rfl, fun _ => rfl⟩

/-- What a request makes of the values of a wallet. -/
theorem hears_request (hs : h.tree.Sound) (q : Request) (p : WalletPath) :
    h.Hears p [] (h.process (.request q)).hub (h.process (.request q)).notices := by
  have conduct : (h.count .request).Conduct ((h.count .request).onRequest q).hub
    ((h.count .request).onRequest q).notices := conduct_onRequest (h := h.count .request) hs q
  obtain ⟨notices, tree, unread⟩ := told_concludeRequest
    (faithful_of_count (faithful_onRequest (h := h.count .request) hs q))
  rw [process_request, notices]
  generalize (h.count .request).onRequest q = r at conduct notices tree unread ⊢
  generalize r.hub = g at conduct tree unread
  generalize r.notices = ns at conduct unread ⊢
  cases conduct with
  | idle => exact hears_silent hs (by rw [tree]; rfl) rfl
  | @asked b e e' i t _ n engine took heeds =>
    have asked : p.manager.backend = b → h.reads p.manager.backend = e.reads := by
      intro side
      have engine : h.engine? b = some e := by rw [← engine]; cases b <;> rfl
      simp only [reads, side, engine]
    have follows := Tree.follows_heeds hs heeds asked
    rw [← show (concludeRequest h r).hub.tree = t from tree] at follows
    exact hears_of_follows follows fun told => unread fun silent => told (by rw [silent]; rfl)

/-- **Commands.** What a command makes of the values of a wallet. -/
theorem hears_process (hs : h.tree.Sound) (c : Command) (p : WalletPath) :
    h.Hears p (h.delivered p c) (h.process c).hub (h.process c).notices := by
  cases c with
  | callback b c => exact hears_callback hs b c p
  | request q => exact hears_request hs q p
  | answered q result =>
    refine hears_silent hs ?_ rfl
    simp only [process, onAnswered]
    split
    · rw [tree_announceResult]; rfl
    · rfl
  | register | remove | flush => exact hears_silent hs rfl rfl
  | shutdown =>
    intro w' hw'
    cases hw'

/-- **Reports.** The wallet that is there after a command has the values that were reported of it
in the command. -/
theorem keeps_reported (hs : h.tree.Sound) (c : Command) {w' : Wallet}
    (known : (h.process c).hub.tree.wallet? p = some w') :
    ∃ w, Origin p (h.process c).notices (h.tree.wallet? p) w ∧
      w.Keeps (h.reports p c) (h.process c).notices w' ∧
      (h.reports p c ≠ [] → (h.process c).hub.counters.unread =
        h.counters.unread + (h.reports p c).countP w.misreads) := by
  obtain ⟨lasting, hears⟩ := hears_process hs c p w' known
  rw [reports, asked, if_neg lasting]
  exact hears

/-- A report that comes and cannot be read changes nothing, and nothing is told of it. -/
theorem process_misread (hs : h.tree.Sound) (known : h.tree.wallet? p = some w) {x : Report}
    (brought : h.delivered p c = [x]) (misread : w.misreads x = true) :
    (h.process c).hub.tree = h.tree ∧ (h.process c).notices = [] := by
  obtain ⟨m, there, hw⟩ := Option.bind_eq_some_iff.1 known
  have place := hs.place there
  cases c with
  | callback b c =>
    simp only [delivered, there] at brought
    split at brought
    · cases brought
    rename_i live
    have home : p.manager = c.addressee b := by
      by_contra away
      rw [EngineCallback.reports_of_ne away] at brought
      cases brought
    obtain ⟨e, discarded⟩ := Manager.reaction_misread (h.reads b) live hw
      (by rw [place]; exact brought) misread
    have responds : h.respond b c = (Reaction.discard m (.decode e)).map some := by
      simp only [respond, ← home, there, discarded]
    have plain : c.isQuery = false := by
      cases c <;> first | rfl | cases brought
    have held : ¬h.tree.Overflows b c := by
      intro exceeds
      rw [← fault_respond_eq_overflow_iff, responds] at exceeds
      cases exceeds
    obtain ⟨hub, -, notices⟩ := process_of_respond plain held
    rw [hub, notices, responds]
    exact ⟨Tree.put_self (place ▸ there), rfl⟩
  | _ => cases brought

/-- A wallet is there until its end is told, or the hub's. -/
theorem stays_process (hs : h.tree.Sound) (c : Command) (known : h.tree.wallet? p = some w)
    (running : (h.process c).life = .running)
    (lasting : Notice.wallet p .deleted ∉ (h.process c).notices) :
    ∃ w', (h.process c).hub.tree.wallet? p = some w' := by
  cases outcome_process hs c with
  | onward _ told => exact Tree.stays_of_trail told known lasting
  | ending life => cases running.symm.trans life
  | halting life => cases running.symm.trans life

end Hub

/-! ## Runs -/

namespace Session

variable {s : Session} {p : WalletPath} {rs : List Report}

/-- What was reported of the wallet at `p` once a command is handled: if the command created it, all
that came before does not count. -/
def recount (s : Session) (p : WalletPath) (rs : List Report) (c : Command) : List Report :=
  if .wallet p .created ∈ (s.hub.process c).notices then s.hub.reports p c
  else rs ++ s.hub.reports p c

/-- `rs` is what was reported of the wallet at `p` in a run up to a session, since the wallet was
created last. -/
inductive Recounts (p : WalletPath) : Session → List Report → Prop
  | opened (strict hasClient : Bool) (utxo account : Option Bool) :
      Recounts p (opened strict hasClient utxo account) []
  | command {s : Session} {rs : List Report} (hs : Recounts p s rs) (c : Command)
      (running : s.life = .running) : Recounts p (s.take c) (s.recount p rs c)
  | setting {s : Session} {rs : List Report} (hs : Recounts p s rs) (b : Backend) (x : Setting) :
      Recounts p { s with hub := s.hub.adjusted b x } rs
  | clock {s : Session} {rs : List Report} (hs : Recounts p s rs) (now : Timestamp) :
      Recounts p { s with hub := { s.hub with now := now } } rs

theorem Recounts.reachable (hs : s.Recounts p rs) : s.Reachable := by
  induction hs with
  | opened => exact .opened ..
  | command _ c running ih => exact ih.step (.command c running)
  | setting _ b x ih => exact ih.step (.setting b x)
  | clock _ now ih => exact ih.step (.clock now)

/-- Every run can be recounted. -/
theorem Reachable.recounts (hs : s.Reachable) (p : WalletPath) : ∃ rs, s.Recounts p rs := by
  induction hs with
  | opened => exact ⟨[], .opened ..⟩
  | step _ hstep ih =>
    obtain ⟨rs, hrs⟩ := ih
    cases hstep with
    | command c running => exact ⟨_, hrs.command c running⟩
    | setting b x => exact ⟨rs, hrs.setting b x⟩
    | clock now => exact ⟨rs, hrs.clock now⟩

/-- What a wallet has is the last of what was reported of it. -/
theorem Recounts.kept (hs : s.Recounts p rs) {w : Wallet} (known : s.hub.tree.wallet? p = some w) :
    w.balance = (w.lastBalance? rs).getD (.zero w.currency) ∧
      w.defaultFeeBasis = w.lastFeeBasis? rs := by
  induction hs generalizing w with
  | opened => cases known
  | @command s rs hs c running ih =>
    obtain ⟨v, origin, keeps, -⟩ := Hub.keeps_reported hs.reachable.sound c known
    rw [Wallet.lastBalance?_congr keeps.path keeps.currency, Wallet.lastFeeBasis?_congr keeps.path,
      keeps.currency, keeps.balance, keeps.feeBasis]
    generalize old : s.hub.tree.wallet? p = before at origin
    cases origin with
    | kept place still =>
      obtain ⟨balance, feeBasis⟩ := ih old
      rw [recount, if_neg still, Wallet.lastBalance?_append, Wallet.lastFeeBasis?_append,
        Option.getD_or, ← balance, ← feeBasis]
      exact ⟨rfl, rfl⟩
    | made c f created =>
      rw [recount, if_pos created]
      exact ⟨rfl, Option.or_none⟩
  | setting _ b x ih => exact ih (by rwa [tree_adjusted] at known)
  | clock _ now ih => exact ih known

/-- A wallet that is there takes every callback with a report of it, as long as no number is handed
out twice: its manager is not deleted. -/
theorem delivered_of_known (hs : s.Reachable) (fits : s.hub.Fits) {w : Wallet}
    (known : s.hub.tree.wallet? p = some w) (b : Backend) (c : EngineCallback) :
    s.hub.delivered p (.callback b c) = c.reports b p := by
  obtain ⟨m, there, hw⟩ := Option.bind_eq_some_iff.1 known
  have live : m.state ≠ .deleted := by
    intro deleted
    rw [hs.bare fits _ m there deleted] at hw
    cases hw
  simp only [Hub.delivered, there, if_neg live]

/-- **Caches.** Every run can be recounted, and a wallet has the last balance that was reported of
it since it was created and could be read, or none of its currency, and the last such fee basis.
Whatever the next command is, the wallet that is there after it has what the command reported of it;
it tells of a value if and only if it is another one than before, with word of its manager right
behind, and every report that could not be read is counted once. A report that comes by itself and
cannot be read does nothing more. -/
theorem cached_reports (hs : s.Reachable) (p : WalletPath) :
    (∃ rs, s.Recounts p rs) ∧
    (∀ rs, s.Recounts p rs → ∀ w, s.hub.tree.wallet? p = some w →
      w.balance = (w.lastBalance? rs).getD (.zero w.currency) ∧
        w.defaultFeeBasis = w.lastFeeBasis? rs) ∧
    (∀ c w', (s.hub.process c).hub.tree.wallet? p = some w' →
      ∃ w, Wallet.Origin p (s.hub.process c).notices (s.hub.tree.wallet? p) w ∧
        w.Keeps (s.hub.reports p c) (s.hub.process c).notices w' ∧
        (s.hub.reports p c ≠ [] → (s.hub.process c).hub.counters.unread =
          s.hub.counters.unread + (s.hub.reports p c).countP w.misreads)) ∧
    ∀ w, s.hub.tree.wallet? p = some w →
      (∀ x a, w.balance? x = some a ↔
        ∃ raw, x = .balance raw ∧ raw.Amounts w.currency w.backend a) ∧
      (∀ x f, w.feeBasis? x = some f ↔ ∃ raw, x = .feeBasis raw ∧ raw.Amounts w.backend f) ∧
      (s.hub.Fits → ∀ b c, s.hub.delivered p (.callback b c) = c.reports b p) ∧
      ∀ c, ((s.hub.process c).life = .running →
          Notice.wallet p .deleted ∉ (s.hub.process c).notices →
            ∃ w', (s.hub.process c).hub.tree.wallet? p = some w') ∧
        ∀ x, s.hub.delivered p c = [x] → w.misreads x = true →
          (s.hub.process c).hub.tree = s.hub.tree ∧ (s.hub.process c).notices = [] := by
  refine ⟨hs.recounts p, fun rs recounts w known => recounts.kept known,
    fun c w' known => Hub.keeps_reported hs.sound c known, fun w known => ?_⟩
  refine ⟨w.balance?_eq_some_iff, w.feeBasis?_eq_some_iff,
    fun fits => delivered_of_known hs fits known, fun c => ⟨?_, fun x => ?_⟩⟩
  · exact Hub.stays_process hs.sound c known
  · exact Hub.process_misread hs.sound known

/-- A wallet of an engine that knows a balance of it. -/
def till : WalletPath := ⟨⟨.account, 0x2000⟩, ⟨.account, 0x2001⟩⟩

/-- A run in which the engine is asked for the balance of the new wallet, raises a callback with
another one, and then one with a balance that is none of its kind. -/
def savings : Session :=
  let s := opened true false none (some false)
  (({ s with hub := s.hub.adjusted .account (.balance 0x2001 (.account "7")) }.take
    (.request (.createManager ⟨⟨"dave", 0⟩, .ethereum true, .apiOnly, "/tmp/dave"⟩))).take
    (.callback .account (.wallet 0x2000 0x2001 (.balanceUpdated (.account "0x0c"))))).take
    (.callback .account (.wallet 0x2000 0x2001 (.balanceUpdated (.utxo 5 1))))

theorem recounts_savings : savings.Recounts till
    [.balance (.account "7"), .balance (.account "0x0c"), .balance (.utxo 5 1)] := by
  have recounts := (((Recounts.opened (p := till) true false none (some false)).setting .account
    (.balance 0x2001 (.account "7"))).command
    (.request (.createManager ⟨⟨"dave", 0⟩, .ethereum true, .apiOnly, "/tmp/dave"⟩)) rfl).command
    (.callback .account (.wallet 0x2000 0x2001 (.balanceUpdated (.account "0x0c"))))
    (by decide +kernel)
  have recounts := recounts.command
    (.callback .account (.wallet 0x2000 0x2001 (.balanceUpdated (.utxo 5 1)))) (by decide +kernel)
  refine Eq.mp (congrArg _ ?_) recounts
  decide +kernel

/-- The second balance is kept, and the third is passed over. -/
theorem cached_reports_savings :
    savings.Recounts till
      [.balance (.account "7"), .balance (.account "0x0c"), .balance (.utxo 5 1)] ∧
    ∃ w, savings.hub.tree.wallet? till = some w ∧
      w.balance = (w.lastBalance? [.balance (.account "7"), .balance (.account "0x0c"),
        .balance (.utxo 5 1)]).getD (.zero w.currency) ∧ w.balance.value.toNat = 12 := by
  refine ⟨recounts_savings, ?_⟩
  have there : (savings.hub.tree.wallet? till).map (·.balance.value.toNat) = some 12 := by
    decide +kernel
  obtain ⟨w, known, twelve⟩ := Option.map_eq_some_iff.1 there
  exact ⟨w, known,
    ((cached_reports recounts_savings.reachable till).2.1 _ recounts_savings w known).1, twelve⟩

end Session

end WalletHub
