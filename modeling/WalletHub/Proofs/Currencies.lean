import WalletHub.Proofs.Announced
import WalletHub.Proofs.Holdings
import WalletHub.Proofs.Independence
import WalletHub.Proofs.Redelivery
import WalletHub.Proofs.Refusal
import WalletHub.Proofs.Submission

/-!
# One wallet per currency

A request for a wallet names a currency. If a wallet of the manager holds it already, the request is
answered with the first that was created, and that is all (`Hub.Finds`). Otherwise the engine is
asked once, and one wallet is made, in the words of the network and not of the request. From then on
every request finds it, however the code is written, until it is told that the wallet is deleted. A
manager for outputs has its one wallet from the beginning, and gets no other this way.

* `Hub.finds_of_first`: requests that find a wallet.
* `Hub.process_createWallet_new`: requests that make one.
* `Session.wallet_per_currency`: both, in every run.
-/
namespace WalletHub

namespace Manager

theorem first?_congr (m : Manager) {a b : String} (same : sameCode a b) :
    m.first? a = m.first? b := by
  simp only [first?, sameCode, sameCode_iff.1 same]

theorem walletFor?_congr (m : Manager) {a b : String} (same : sameCode a b) :
    m.walletFor? a = m.walletFor? b := by
  simp only [walletFor?, sameCode, sameCode_iff.1 same]

theorem path_newWallet (m : Manager) (reads : EngineReads) (i : WalletHandle) (c : Currency) :
    (m.newWallet reads i c).value.path = ⟨m.handle, i⟩ :=
  (trail_newWallet m reads i c).invariant (P := fun w => w.path = ⟨m.handle, i⟩)
    (fun change holds => change.path.trans holds) rfl

/-- A wallet that is added for a currency that no other holds is the first one of it. -/
theorem first?_of_new {m : Manager} {code : String} {c : Currency} {i : WalletHandle} {w : Wallet}
    (none : m.first? code = none) (unused : m.wallets.find? i = .none) (holds : w.currency = c)
    (same : sameCode c.code code = true) (primary : Option WalletHandle) :
    { m with
      wallets := (m.wallets.findOrCreate i w).1
      primaryWallet := primary }.first? code = some i := by
  simp only [first?, Option.map_eq_none_iff] at none
  have more : { m with
      wallets := (m.wallets.findOrCreate i w).1
      primaryWallet := primary }.holdings = m.holdings ++ [(i, c)] := by
    simp [holdings, Registry.findOrCreate_of_find?_none _ unused, holds]
  rw [first?, more, List.find?_append, none]
  simp [same]

end Manager

/-- A currency of a network is found under its code. -/
theorem Network.currency?_of_mem {n : Network} {c : Currency} (listed : c ∈ n.currencies)
    {code : String} (same : sameCode c.code code = true) :
    ∃ c', n.currency? code = some c' ∧ sameCode c'.code code = true := by
  have found : (n.currency? code).isSome := by
    simp only [Network.currency?, List.find?_isSome]
    exact ⟨c, listed, same⟩
  obtain ⟨c', found⟩ := Option.isSome_iff_exists.1 found
  exact ⟨c', found, Network.sameCode_of_currency? found⟩

namespace Hub

open Handling

/-- A request for a wallet is answered with the one at `p`. No record is changed, nothing is told,
and no engine hears of it. -/
structure Finds (h : Hub) (k : ManagerHandle) (code : String) (p : WalletPath) : Prop where
  answer : (h.step (.request (.createWallet k code))).answer = some (.ok (.wallet p))
  life : (h.step (.request (.createWallet k code))).life = .running
  quiet : h.Quiet (h.step (.request (.createWallet k code))).hub
    (h.step (.request (.createWallet k code))).notices

variable {h : Hub} {k : ManagerHandle} {m : Manager} {code : String} {e : Engine}

/-- A wallet that is there is handed out. -/
theorem createWallet_of_held (hn : h.tree.Normal) (engine : h.engine? k.backend = some e)
    (known : h.tree.manager? k = some m) (live : m.state ≠ .deleted) {w : Wallet}
    (held : m.walletFor? code = some w) : h.createWallet k code = .answer h (.wallet w.path) := by
  have order := (Registry.All.find? hn known).wallets
  obtain ⟨⟨i, v⟩, there, rfl⟩ := List.mem_map.1 (List.mem_of_find?_eq_some held)
  have holds : sameCode v.currency.code code = true := by simpa using List.find?_some held
  obtain ⟨c, listed, same⟩ := Network.currency?_of_mem (order _ there).listed holds
  simp only [createWallet, requireEngine, engine, requireLive, known, live, if_false, listed,
    m.walletFor?_congr same, held]

theorem finds_of_held (hn : h.tree.Normal) (engine : h.engine? k.backend = some e)
    (known : h.tree.manager? k = some m) (live : m.state ≠ .deleted) {w : Wallet}
    (held : m.walletFor? code = some w) : h.Finds k code w.path := by
  have turn : h.process (.request (.createWallet k code)) =
      concludeRequest h (.answer (h.count .request) (.wallet w.path)) := by
    rw [process_request, onRequest,
      createWallet_of_held (h := h.count .request) hn engine known live held]
  have quiet : (h.process (.request (.createWallet k code))).raised = [] := by rw [turn]; rfl
  rw [← step_of_quiet quiet] at turn
  exact ⟨by rw [turn]; rfl, by rw [turn]; rfl, by rw [turn]; rfl, by rw [turn]; rfl,
    fun b => by rw [turn]; cases b <;> rfl⟩

/-- The oldest wallet of a currency is the first one. -/
theorem first_of_held (hs : h.tree.Sound) (known : h.tree.manager? k = some m)
    (live : m.state ≠ .deleted) {w : Wallet} (held : m.walletFor? code = some w) :
    ∃ i, w.path = ⟨k, i⟩ ∧ h.tree.First code ⟨k, i⟩ := by
  have path := Manager.map_path_walletFor? (hs.sound known) code
  rw [held, hs.place known] at path
  obtain ⟨i, first, path⟩ := Option.map_eq_some_iff.1 path.symm
  exact ⟨i, path.symm, m, known, live, first⟩

/-- The first wallet of a currency is found under every way of writing its code. -/
theorem finds_of_first (hs : h.tree.Sound) (hn : h.tree.Normal) {p : WalletPath}
    (attached : (h.engine? p.manager.backend).isSome) (first : h.tree.First code p)
    {code' : String} (same : sameCode code' code) : h.Finds p.manager code' p := by
  obtain ⟨e, engine⟩ := Option.isSome_iff_exists.1 attached
  obtain ⟨m, known, live, first⟩ := first
  have path := Manager.map_path_walletFor? (hs.sound known) code'
  rw [m.first?_congr same, first, hs.place known] at path
  obtain ⟨w, held, path⟩ := Option.map_eq_some_iff.1 path
  have path : w.path = p := path
  exact path ▸ finds_of_held hn engine known live held

end Hub

/-- An engine for accounts that does not fail makes the wallet under its next number, announces it
if it calls back at once, and still says the same of all wallets. -/
theorem Engine.result_createWallet {e : Engine} (side : e.backend = .account)
    (willing : e.failNext = none) (m : UInt64) (c : Currency) :
    (e.createWallet m c).result = .ok e.nextHandle ∧ (e.createWallet m c).engine.reads = e.reads ∧
      (e.createWallet m c).engine.issued = e.issued ++ [⟨.createWallet m c, true⟩] ∧
      (e.createWallet m c).raised =
        if e.echo then [.wallet m e.nextHandle (.created c.code)] else [] := by
  simp only [createWallet, side, command, take, willing]
  exact ⟨trivial, by simp only [reads, side], trivial, trivial⟩

namespace Hub

open Handling

variable {h : Hub} {k : ManagerHandle} {m : Manager} {code : String} {e : Engine} {c : Currency}

/-- If no wallet holds the currency and the engine does not fail, there is one more wallet. -/
theorem createWallet_new (engine : h.engine? k.backend = some e) (side : e.backend = .account)
    (willing : e.failNext = none) (known : h.tree.manager? k = some m) (live : m.state ≠ .deleted)
    (listed : m.network.currency? code = some c) (missing : m.walletFor? code = none)
    (unused : m.wallets.find? ⟨k.backend, e.nextHandle⟩ = none) :
    let i : WalletHandle := ⟨k.backend, e.nextHandle⟩
    let r := h.createWallet k code
    r.result = .ok (.wallet ⟨k, i⟩) ∧
      (∀ b, r.hub.log b =
        h.log b ++ if b = k.backend then [⟨.createWallet k.raw c, true⟩] else []) ∧
      r.raised = (if e.echo then
        [.wallet k.raw e.nextHandle (.created c.code)] else []).map (k.backend, ·) ∧
      r.hub.tree = h.tree.put { m with
        wallets := (m.wallets.findOrCreate i (m.newWallet e.reads i c).value).1
        primaryWallet := m.primaryWith i c } := by
  intro i r
  obtain ⟨made, reads, logged, raised⟩ := Engine.result_createWallet side willing k.raw c
  have other := m.walletFor?_congr (Network.sameCode_of_currency? listed)
  have self := Network.currency?_self listed
  have unknown : ¬m.wallets.contains i = true := by simp [Registry.contains, i, unused]
  generalize hg : h.withEngine k.backend (e.createWallet k.raw c).engine = g
  have log (b : Backend) : g.log b =
      h.log b ++ if b = k.backend then [⟨.createWallet k.raw c, true⟩] else [] := by
    by_cases hb : b = k.backend
    · subst hb
      simp only [← hg, Hub.log, engine?_withEngine_self, engine, logged, if_true]
    · simp only [hb, if_false, List.append_nil, ← hg]
      exact log_congr (engine?_withEngine_of_ne _ hb)
  have asked : g.reads k.backend = e.reads := by
    rw [← hg, Hub.reads, engine?_withEngine_self]
    exact reads
  have tree : g.tree = h.tree := by rw [← hg, tree_withEngine]
  have handled : r = { commit g (m.admitWallet e.reads i c.code) (.wallet ⟨k, i⟩) with
      raised := (e.createWallet k.raw c).raised.map (k.backend, ·) } := by
    simp only [r, createWallet, requireEngine, engine, requireLive, known, live, if_false, listed,
      other, missing, issue, made, hg, asked]
    simp only [commit, List.append_nil]
    rfl
  have value := Manager.value_admitWallet e.reads self unknown
  rw [handled]
  refine ⟨result_commit (g := g) (Manager.fault_admitWallet _ self _) _, fun b => ?_,
    by rw [raised], ?_⟩
  · exact (log_congr rfl).trans (log b)
  · change g.tree.put _ = _
    rw [tree, value]

/-- A request that makes a wallet. -/
theorem process_createWallet_new (engine : h.engine? k.backend = some e)
    (side : e.backend = .account) (willing : e.failNext = none)
    (known : h.tree.manager? k = some m) (live : m.state ≠ .deleted)
    (listed : m.network.currency? code = some c) (missing : m.walletFor? code = none)
    (unused : m.wallets.find? ⟨k.backend, e.nextHandle⟩ = none) :
    let i : WalletHandle := ⟨k.backend, e.nextHandle⟩
    let t := h.process (.request (.createWallet k code))
    t.answer = some (.ok (.wallet ⟨k, i⟩)) ∧ t.life = .running ∧
      (∀ b, t.hub.log b =
        h.log b ++ if b = k.backend then [⟨.createWallet k.raw c, true⟩] else []) ∧
      t.raised = (if e.echo then
        [.wallet k.raw e.nextHandle (.created c.code)] else []).map (k.backend, ·) ∧
      t.hub.tree = h.tree.put { m with
        wallets := (m.wallets.findOrCreate i (m.newWallet e.reads i c).value).1
        primaryWallet := m.primaryWith i c } := by
  intro i t
  obtain ⟨result, log, raised, tree⟩ := createWallet_new (h := h.count .request) engine side willing
    known live listed missing unused
  obtain ⟨answer, life, kept, left⟩ := concludeRequest_of_ok h result
  have relayed := relayed_concludeRequest h ((h.count .request).createWallet k code)
  refine ⟨answer, life, fun b => ?_, kept.trans raised, left.trans tree⟩
  exact (log_congr (relayed.engine b)).trans (log b)

/-- A wallet that is there is not created again, and no engine hears of it. -/
theorem created_again (hs : h.tree.Sound) {b : Backend} {n w : UInt64}
    (there : h.tree.wallet? ⟨⟨b, n⟩, ⟨b, w⟩⟩ ≠ none) (code : String) :
    (h.process (.callback b (.wallet n w (.created code)))).life = .running ∧
      h.Quiet (h.process (.callback b (.wallet n w (.created code)))).hub
        (h.process (.callback b (.wallet n w (.created code)))).notices := by
  obtain ⟨tree, mail⟩ := known_process (c := .wallet n w (.created code)) hs there
  obtain ⟨hub, life, -⟩ := process_of_respond (h := h) (b := b)
    (c := .wallet n w (.created code)) rfl id
  refine ⟨life, tree, by rw [Turn.notices, mail]; rfl, fun b' => ?_⟩
  rw [hub]
  exact log_congr (by cases b' <;> rfl)

theorem wallet?_put_new (hs : h.tree.Sound) (known : h.tree.manager? k = some m) {i : WalletHandle}
    (unused : m.wallets.find? i = none) (w : Wallet) (primary : Option WalletHandle) :
    (h.tree.put { m with
      wallets := (m.wallets.findOrCreate i w).1
      primaryWallet := primary }).wallet? ⟨k, i⟩ = some w := by
  have place := hs.place known
  rw [Tree.wallet?_put (m := m) (place.symm ▸ known) (by rfl), if_pos place]
  simp [Registry.find?_findOrCreate, unused]

/-- What the engine calls back when it makes the wallet changes nothing. -/
theorem step_createWallet_new (hs : h.tree.Sound) (engine : h.engine? k.backend = some e)
    (side : e.backend = .account) (willing : e.failNext = none)
    (known : h.tree.manager? k = some m) (live : m.state ≠ .deleted)
    (listed : m.network.currency? code = some c) (missing : m.walletFor? code = none)
    (unused : m.wallets.find? ⟨k.backend, e.nextHandle⟩ = none) :
    let t := h.process (.request (.createWallet k code))
    let u := h.step (.request (.createWallet k code))
    u.answer = t.answer ∧ u.life = .running ∧ u.hub.tree = t.hub.tree ∧ u.notices = t.notices ∧
      ∀ b, u.hub.log b = t.hub.log b := by
  intro t u
  obtain ⟨-, life, -, raised, tree⟩ := process_createWallet_new engine side willing known live
    listed missing unused
  cases echo : e.echo with
  | false =>
    have same : u = t := step_of_quiet (by simpa [echo] using raised)
    rw [same]
    exact ⟨rfl, life, rfl, rfl, fun _ => rfl⟩
  | true =>
    have sound : t.hub.tree.Sound := (outcome_process hs _).sound hs
    have there : t.hub.tree.wallet? ⟨k, ⟨k.backend, e.nextHandle⟩⟩ ≠ none := by
      rw [tree, wallet?_put_new hs known unused]
      simp
    obtain ⟨going, same, told, unheard⟩ := created_again sound there c.code
    have raised : t.raised = [(k.backend, .wallet k.raw e.nextHandle (.created c.code))] := by
      simpa [echo] using raised
    generalize back : t.hub.process (.callback k.backend
      (.wallet k.raw e.nextHandle (.created c.code))) = v at going same told unheard
    have turn : u = ⟨v.hub, t.mail ++ v.mail, t.queries ++ v.queries, t.answer, [] ++ v.raised,
        v.life⟩ := by
      rw [← back]
      simp only [u, step, raised, List.foldl_cons, List.foldl_nil, Turn.follow, life, t]
    have told : v.mail.filterMap (·.notice?) = [] := told
    rw [turn]
    exact ⟨rfl, going, same, by simp [Turn.notices, told], unheard⟩

/-- The new wallet is the first one of its currency. -/
theorem first_createWallet_new (hs : h.tree.Sound) (engine : h.engine? k.backend = some e)
    (side : e.backend = .account) (willing : e.failNext = none)
    (known : h.tree.manager? k = some m) (live : m.state ≠ .deleted)
    (listed : m.network.currency? code = some c) (missing : m.walletFor? code = none)
    (unused : m.wallets.find? ⟨k.backend, e.nextHandle⟩ = none) :
    (h.process (.request (.createWallet k code))).hub.tree.First code
      ⟨k, ⟨k.backend, e.nextHandle⟩⟩ := by
  obtain ⟨-, -, -, -, tree⟩ := process_createWallet_new engine side willing known live listed
    missing unused
  have place := hs.place known
  have path := Manager.map_path_walletFor? (hs.sound known) code
  rw [missing] at path
  rw [tree]
  refine ⟨_, (Tree.manager?_put (m := m) (place.symm ▸ known) (by rfl) k).trans (if_pos place),
    live, ?_⟩
  exact Manager.first?_of_new (by simpa using path.symm) unused
    (m.currency_newWallet e.reads _ c) (Network.sameCode_of_currency? listed) _

/-- What is answered with success was handled well. -/
theorem result_of_answer {q : Request} {a : Answer}
    (answered : (h.process (.request q)).answer = some (.ok a)) :
    ((h.count .request).onRequest q).result = .ok a := by
  have granted := toOption_concludeRequest h ((h.count .request).onRequest q)
  rw [← process_request, answered] at granted
  cases result : ((h.count .request).onRequest q).result with
  | ok a =>
    rw [result] at granted
    cases granted
    rfl
  | error f =>
    rw [result] at granted
    cases granted

/-- A wallet of a currency that no other holds is made only if the network has the currency and the
engine does not fail. -/
theorem createWallet_of_missing (engine : h.engine? k.backend = some e)
    (side : e.backend = .account) (known : h.tree.manager? k = some m)
    (live : m.state ≠ .deleted) (missing : m.walletFor? code = none) {a : Answer}
    (made : (h.createWallet k code).result = .ok a) :
    (∃ c, m.network.currency? code = some c) ∧ e.failNext = none := by
  simp only [createWallet, requireEngine, engine, requireLive, known, live, if_false] at made
  cases listed : m.network.currency? code with
  | none =>
    simp only [listed] at made
    cases made
  | some c =>
    have other := m.walletFor?_congr (Network.sameCode_of_currency? listed)
    refine ⟨⟨c, rfl⟩, ?_⟩
    cases armed : e.failNext with
    | none => rfl
    | some message =>
      simp only [listed, other, missing, issue, Engine.createWallet, side, Engine.command,
        Engine.take, armed] at made
      cases made

/-- A manager for outputs gets no wallet that is asked for. -/
theorem blank_createWallet_utxo (homed : h.Homed) (side : k.backend = .utxo) (code : String) :
    (h.createWallet k code).Blank h := by
  simp only [createWallet, requireEngine]
  split
  case h_2 => exact ⟨rfl, rfl, rfl⟩
  rename_i e engine
  have home : e.backend = .utxo := (homed _ e engine).trans side
  simp only [requireLive]
  split
  · exact ⟨rfl, rfl, rfl⟩
  split
  · exact ⟨rfl, rfl, rfl⟩
  split
  · exact ⟨rfl, rfl, rfl⟩
  split
  · exact ⟨rfl, rfl, rfl⟩
  simp only [issue, Engine.createWallet, home]
  exact ⟨tree_withEngine .., rfl, rfl⟩

theorem step_createWallet_utxo (homed : h.Homed) (side : k.backend = .utxo) (code : String) :
    (h.step (.request (.createWallet k code))).hub.tree = h.tree := by
  have blank := blank_createWallet_utxo (h := h.count .request) homed side code
  obtain ⟨tree, -, -, raised⟩ := silent_concludeRequest h blank.notices
  have turn := step_of_quiet (h := h) (c := .request (.createWallet k code)) (raised blank.raised)
  rw [turn]
  exact tree.trans blank.tree

end Hub

namespace Session

variable {s s' : Session}

/-- Engines stay those of their backends in every run. -/
theorem Reachable.homed (hs : s.Reachable) : s.hub.Homed := by
  induction hs with
  | opened =>
    intro b e engine
    obtain ⟨echo, rfl⟩ := engine_opened engine
    rfl
  | @step s _ _ hstep ih =>
    cases hstep with
    | command c => exact (Hub.keeps_process s.hub c).homed ih
    | setting b x =>
      have kept : s.hub.Keeps True _ := Hub.keeps_adjusted s.hub b x
      exact kept.homed ih
    | clock => exact ih

/-- No engine goes during a run. -/
theorem Run.attached (hrun : s.Run s') {b : Backend} (attached : (s.hub.engine? b).isSome) :
    (s'.hub.engine? b).isSome := by
  induction hrun with
  | refl => exact attached
  | @tail s _ _ hstep ih =>
    obtain ⟨e, engine⟩ := Option.isSome_iff_exists.1 ih
    cases hstep with
    | command c =>
      obtain ⟨e', engine', -⟩ := (Hub.keeps_process s.hub c).some engine
      exact Option.isSome_iff_exists.2 ⟨e', engine'⟩
    | setting b' x =>
      have kept : s.hub.Keeps True _ := Hub.keeps_adjusted s.hub b' x
      obtain ⟨e', engine', -⟩ := kept.some engine
      exact Option.isSome_iff_exists.2 ⟨e', engine'⟩
    | clock => exact ih

/-- Of the wallets of its manager that hold a currency, the one at `p` was created first. -/
def Earliest (s : Session) (code : String) (p : WalletPath) : Prop :=
  ∃ before after w, roster p.manager s.notices = before ++ p.wallet :: after ∧
    s.hub.tree.wallet? p = some w ∧ sameCode w.currency.code code ∧
    ∀ i ∈ before, ∀ v, s.hub.tree.wallet? ⟨p.manager, i⟩ = some v → ¬sameCode v.currency.code code

/-- A request for a wallet has its engine make one: the engine hears of it once, one wallet of the
currency `c` is added behind the others, and what the engine calls back then, or at any later time,
changes nothing more. -/
structure Makes (s : Session) (k : ManagerHandle) (code : String) (m : Manager) (c : Currency)
    (p : WalletPath) : Prop where
  answer : (s.hub.step (.request (.createWallet k code))).answer = some (.ok (.wallet p))
  life : (s.hub.step (.request (.createWallet k code))).life = .running
  issued : ∀ b, (s.hub.step (.request (.createWallet k code))).hub.log b =
    s.hub.log b ++ if b = k.backend then [⟨.createWallet k.raw c, true⟩] else []
  added : ∃ w, w.path = p ∧ w.currency = c ∧
    (s.hub.step (.request (.createWallet k code))).hub.tree = s.hub.tree.put { m with
      wallets := ⟨m.wallets.entries ++ [(p.wallet, w)]⟩
      primaryWallet := m.primaryWith p.wallet c }
  told : (s.hub.step (.request (.createWallet k code))).notices =
    (s.hub.process (.request (.createWallet k code))).notices
  again : ∀ s', (s.after (s.hub.step (.request (.createWallet k code)))).Run s' →
    s'.hub.tree.wallet? p ≠ none → ∀ code',
      s'.hub.Quiet
        (s'.hub.process (.callback k.backend (.wallet k.raw p.wallet.raw (.created code')))).hub
        (s'.hub.process (.callback k.backend (.wallet k.raw p.wallet.raw (.created code')))).notices

/-- The first wallet of a currency was created first. -/
theorem Reachable.earliest (hs : s.Reachable) (running : s.life = .running) {code : String}
    {p : WalletPath} (first : s.hub.tree.First code p) : s.Earliest code p := by
  obtain ⟨m, known, -, first⟩ := first
  have sound := hs.sound.sound known
  have order := hs.rostered (by simp [running]) p.manager
  simp only [Tree.enrolled, known, Option.elim_some] at order
  obtain ⟨⟨i, c⟩, found, here⟩ := Option.map_eq_some_iff.1 first
  obtain ⟨holds, before, after, split, others⟩ := List.find?_eq_some_iff_append.1 found
  -- what is listed is what is filed
  have filed (i : WalletHandle) (c : Currency) (listed : (i, c) ∈ m.holdings) :
      ∃ w, s.hub.tree.wallet? ⟨p.manager, i⟩ = some w ∧ w.currency = c := by
    obtain ⟨e, entry, same⟩ := List.mem_map.1 listed
    cases same
    exact ⟨e.2, by rw [Tree.wallet?, known]; exact Registry.findIn_of_mem sound.nodup entry, rfl⟩
  obtain ⟨w, there, currency⟩ := filed i c (List.mem_of_find?_eq_some found)
  subst here
  refine ⟨before.map (·.1), after.map (·.1), w, by simp [← order, split], there, by simpa [currency]
    using holds, fun j hj v hv => ?_⟩
  obtain ⟨⟨j, d⟩, hd, rfl⟩ := List.mem_map.1 hj
  obtain ⟨v', there', rfl⟩ := filed j d (by rw [split]; exact List.mem_append_left _ hd)
  cases hv.symm.trans there'
  simpa using others _ hd

section

variable {k : ManagerHandle} {m : Manager} {e : Engine} {code : String}

/-- A wallet is made for a currency that none holds. -/
theorem Reachable.makes (hs : s.Reachable) (running : s.life = .running)
    (engine : s.hub.engine? k.backend = some e) (known : s.hub.tree.manager? k = some m)
    (live : m.state ≠ .deleted) {c : Currency} (side : k.backend = .account)
    (unused : m.wallets.find? ⟨k.backend, e.nextHandle⟩ = none)
    (missing : m.walletFor? code = none) (listed : m.network.currency? code = some c)
    (willing : e.failNext = none) : s.Makes k code m c ⟨k, ⟨k.backend, e.nextHandle⟩⟩ := by
  have home : e.backend = .account := (hs.homed k.backend e engine).trans side
  obtain ⟨answer, -, log, -, tree⟩ := Hub.process_createWallet_new engine home willing known live
    listed missing unused
  obtain ⟨answer', life, tree', told, log'⟩ := Hub.step_createWallet_new hs.sound engine home
    willing known live listed missing unused
  rw [← tree', Registry.findOrCreate_of_find?_none _ unused] at tree
  exact {
    answer := answer'.trans answer
    life := life
    issued := fun b => (log' b).trans (log b)
    added := ⟨(m.newWallet e.reads ⟨k.backend, e.nextHandle⟩ c).value,
      by rw [m.path_newWallet, hs.sound.place known], m.currency_newWallet e.reads _ c, tree⟩
    told := told
    again := fun s' hrun there code' =>
      (Hub.created_again (hs.run ((run_step running _).trans hrun)).sound there code').2 }

/-- Whether it was there or is new, the wallet that is answered with is the first one of its
currency. -/
theorem Reachable.first_of_answer (hs : s.Reachable)
    (engine : s.hub.engine? k.backend = some e) (known : s.hub.tree.manager? k = some m)
    (live : m.state ≠ .deleted) (side : k.backend = .account)
    (unused : m.wallets.find? ⟨k.backend, e.nextHandle⟩ = none) {p : WalletPath}
    (answered : (s.hub.step (.request (.createWallet k code))).answer = some (.ok (.wallet p))) :
    p.manager = k ∧
      (s.after (s.hub.step (.request (.createWallet k code)))).hub.tree.First code p := by
  have home : e.backend = .account := (hs.homed k.backend e engine).trans side
  cases held : m.walletFor? code with
  | some w =>
    obtain ⟨i, -, first⟩ := Hub.first_of_held hs.sound known live held
    have found : s.hub.Finds k code ⟨k, i⟩ :=
      Hub.finds_of_first hs.sound hs.normal (by simp [engine]) first (sameCode_iff.2 rfl)
    cases found.answer.symm.trans answered
    exact ⟨rfl, found.quiet.tree ▸ first⟩
  | none =>
    rw [answer_step] at answered
    obtain ⟨⟨c, listed⟩, willing⟩ := Hub.createWallet_of_missing (h := s.hub.count .request) engine
      home known live held (Hub.result_of_answer answered)
    obtain ⟨answer, -⟩ := Hub.process_createWallet_new engine home willing known live listed held
      unused
    obtain ⟨-, -, tree, -⟩ := Hub.step_createWallet_new hs.sound engine home willing known live
      listed held unused
    cases answer.symm.trans answered
    refine ⟨rfl, ?_⟩
    rw [after, tree]
    exact Hub.first_createWallet_new hs.sound engine home willing known live listed held unused

/-- **Currencies.** In every run, for a manager that is not deleted and has an engine: if a wallet
holds the currency, a request for one is answered with the one that was created first, and that is
all. If not, and the engine is one for accounts that does not fail and whose next number is not in
use, one is made. Whichever it was, until it is told to be deleted every request finds it, however
the code is written. A manager for outputs gets no wallet this way. -/
theorem wallet_per_currency (hs : s.Reachable) (running : s.life = .running)
    (engine : s.hub.engine? k.backend = some e) (known : s.hub.tree.manager? k = some m)
    (live : m.state ≠ .deleted) (code : String) :
    ((∃ w ∈ m.wallets.records, sameCode w.currency.code code) →
      ∃ p, p.manager = k ∧ s.Earliest code p ∧ s.hub.Finds k code p) ∧
    (∀ c, k.backend = .account → m.wallets.find? ⟨k.backend, e.nextHandle⟩ = none →
      (∀ w ∈ m.wallets.records, ¬sameCode w.currency.code code) →
        m.network.currency? code = some c → e.failNext = none →
          s.Makes k code m c ⟨k, ⟨k.backend, e.nextHandle⟩⟩) ∧
    (∀ p, k.backend = .account → m.wallets.find? ⟨k.backend, e.nextHandle⟩ = none →
      (s.hub.step (.request (.createWallet k code))).answer = some (.ok (.wallet p)) →
        ∀ s', (s.after (s.hub.step (.request (.createWallet k code)))).Run s' →
          .wallet p .deleted ∉ s'.notices.drop
              (s.after (s.hub.step (.request (.createWallet k code)))).notices.length →
            s'.life = .running → ∀ code', sameCode code' code → s'.hub.Finds k code' p) ∧
    (k.backend = .utxo →
      (s.hub.step (.request (.createWallet k code))).hub.tree = s.hub.tree) := by
  have onward : s.Run (s.after (s.hub.step (.request (.createWallet k code)))) :=
    run_step running _
  refine ⟨fun held => ?_, fun c side unused missing listed willing => ?_,
    fun p side unused answered s' hrun untold running' code' same => ?_,
    fun side => Hub.step_createWallet_utxo hs.homed side code⟩
  · have found : (m.walletFor? code).isSome := List.find?_isSome.2 held
    obtain ⟨w, held⟩ := Option.isSome_iff_exists.1 found
    obtain ⟨i, -, first⟩ := Hub.first_of_held hs.sound known live held
    exact ⟨⟨k, i⟩, rfl, hs.earliest running first,
      Hub.finds_of_first hs.sound hs.normal (by simp [engine]) first (sameCode_iff.2 rfl)⟩
  · exact hs.makes running engine known live side unused (List.find?_eq_none.2 missing) listed
      willing
  · obtain ⟨rfl, first⟩ := hs.first_of_answer engine known live side unused answered
    have whole : s.Run s' := onward.trans hrun
    have hs' := hs.run whole
    exact Hub.finds_of_first hs'.sound hs'.normal (whole.attached (by simp [engine]))
      (hrun.first (hs.run onward) first untold running') same

end

/-- A token on the chain of accounts. -/
def token : Currency :=
  ⟨"usdc", "USD Coin", some "0xa0b8", ⟨"usdci", "USDCi", 0⟩, ⟨"usdc", "USDC", 6⟩⟩

/-- A manager on a network with a token, whose wallets are `eth` ones: its primary one and another
that its engine added. -/
def tokenless : Session :=
  (opened true false none (some true)).takes
    [.request (.createManager
        ⟨⟨"dave", 0⟩, (Network.ethereum true).insert token, .apiOnly, "/tmp/dave"⟩),
      .callback .account (.wallet 0x2000 0x9000 (.created "ETH"))]

/-- The token is asked for, and then once more in other letters; the native currency is there. -/
theorem wallet_per_currency_tokenless :
    tokenless.hub.Finds ⟨.account, 0x2000⟩ "Eth" ⟨⟨.account, 0x2000⟩, ⟨.account, 0x2001⟩⟩ ∧
    (∃ m, tokenless.Makes ⟨.account, 0x2000⟩ "USDC" m token
      ⟨⟨.account, 0x2000⟩, ⟨.account, 0x2002⟩⟩) ∧
    ((tokenless.after (tokenless.hub.step
      (.request (.createWallet ⟨.account, 0x2000⟩ "USDC")))).take
        (.request (.connect ⟨.account, 0x2000⟩))).hub.Finds ⟨.account, 0x2000⟩ "uSdC"
          ⟨⟨.account, 0x2000⟩, ⟨.account, 0x2002⟩⟩ := by
  have hs : tokenless.Reachable := (Reachable.opened ..).takes _
  have running : tokenless.life = .running := by decide +kernel
  obtain ⟨e, engine, willing, number⟩ : ∃ e, tokenless.hub.engine? .account = some e ∧
      e.failNext = none ∧ e.nextHandle = 0x2002 := by
    have there : (tokenless.hub.engine? .account).any
      (fun e => e.failNext = none ∧ e.nextHandle = 0x2002) = true := by decide +kernel
    simpa only [Option.any_eq_true, decide_eq_true_eq] using there
  obtain ⟨m, known, live, listed, unused, wallets⟩ : ∃ m,
      tokenless.hub.tree.manager? ⟨.account, 0x2000⟩ = some m ∧ m.state ≠ .deleted ∧
        m.network.currency? "USDC" = some token ∧ m.wallets.find? ⟨.account, 0x2002⟩ = none ∧
        m.wallets.records.map (·.currency.code) = ["eth", "eth"] := by
    have there : (tokenless.hub.tree.manager? ⟨.account, 0x2000⟩).any (fun m =>
        m.state ≠ .deleted ∧ m.network.currency? "USDC" = some token ∧
          m.wallets.find? ⟨.account, 0x2002⟩ = none ∧
          m.wallets.records.map (·.currency.code) = ["eth", "eth"]) = true := by decide +kernel
    simpa only [Option.any_eq_true, decide_eq_true_eq] using there
  have codes (w : Wallet) (hw : w ∈ m.wallets.records) : w.currency.code = "eth" := by
    have listed := List.mem_map_of_mem (f := fun w : Wallet => w.currency.code) hw
    rw [wallets] at listed
    simpa using listed
  obtain ⟨old, -⟩ := wallet_per_currency hs running engine known live "Eth"
  obtain ⟨-, new, lasting, -⟩ := wallet_per_currency hs running engine known live "USDC"
  rw [number] at new lasting
  have made := new token rfl unused (fun w hw => by rw [codes w hw]; decide +kernel) listed willing
  refine ⟨?_, ⟨m, made⟩, ?_⟩
  · obtain ⟨w, hw⟩ := List.exists_mem_of_ne_nil m.wallets.records fun none => by
      simp [none] at wallets
    obtain ⟨p, -, -, found⟩ := old ⟨w, hw, by rw [codes w hw]; decide +kernel⟩
    have answered :
        (tokenless.hub.step (.request (.createWallet ⟨.account, 0x2000⟩ "Eth"))).answer =
          some (.ok (.wallet ⟨⟨.account, 0x2000⟩, ⟨.account, 0x2001⟩⟩)) := by decide +kernel
    cases found.answer.symm.trans answered
    exact found
  · exact lasting _ rfl unused made.answer _ (.single (.command _ made.life)) (by decide +kernel)
      (by decide +kernel) _ (by decide +kernel)

end Session

end WalletHub
