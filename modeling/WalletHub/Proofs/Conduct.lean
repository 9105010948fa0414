import WalletHub.Proofs.Locality

/-!
# What requests do

Most requests end in the records or at an engine that refuses, and then nothing was done. Once the
engine accepts there are few things that a request can do: nothing but that, the reaction of one
manager (`Manager.Complies`), a new mode, or a new manager. `Tree.Heeds` lists them with the line
that the engine logged and with what is told, and `Hub.Conduct` says the same of the hub. What
requests keep is shown by cases on these, and no handler is opened for it again.

* `conduct_onRequest`, `conduct_request`: what a request does, and what its turn does.
-/
namespace WalletHub

/-! ## Engines -/

/-- How many numbers a command uses up once it is accepted. -/
def EngineCommand.makes : EngineCommand → UInt64
  | .createManager _ => 2
  | .createWallet .. | .createTransfer .. => 1
  | _ => 0

/-- Whether a command says in which mode a manager is to work. -/
def EngineCommand.setsMode : EngineCommand → Bool
  | .createManager _ | .setMode .. => true
  | _ => false

/-- How many numbers the engine used up for a command it logged. -/
def Issued.made (i : Issued) : UInt64 := if i.accepted then i.command.makes else 0

/-- `e'` is `e` after one more command. -/
structure Engine.Took (e : Engine) (i : Issued) (e' : Engine) : Prop where
  issued : e'.issued = e.issued ++ [i]
  next : e'.nextHandle = e.nextHandle + i.made
  backend : e'.backend = e.backend
  reads : e'.reads = e.reads

namespace Engine

/-- A command is logged with what the engine answers. -/
theorem took_command {α : Type} (e : Engine) (c : EngineCommand)
    {act : Engine → Engine × List EngineCallback × α} (log : ∀ e, (act e).1.issued = e.issued)
    (next : ∀ e, (act e).1.nextHandle = e.nextHandle + c.makes)
    (side : ∀ e, (act e).1.backend = e.backend) (reads : ∀ e, (act e).1.reads = e.reads) :
    e.Took ⟨c, (e.command c act).result.toOption.isSome⟩ (e.command c act).engine := by
  refine ⟨issued_command e c log, ?_, ?_, ?_⟩ <;> unfold command take <;> cases e.failNext
  · exact next _
  · simp [Issued.made, Except.toOption]
  · exact side _
  · rfl
  · exact reads _
  · rfl

/-- A command that makes nothing leaves the engine as it is, but for the log. -/
theorem took_plain (e : Engine) (c : EngineCommand) (raised : List EngineCallback)
    (free : c.makes = 0) :
    e.Took ⟨c, (e.command c fun e => (e, raised, ())).result.toOption.isSome⟩
      (e.command c fun e => (e, raised, ())).engine :=
  took_command e c (fun _ => rfl) (fun _ => by simp [free]) (fun _ => rfl) fun _ => rfl

end Engine

/-! ## Records -/

/-- What a manager does when its engine, which can be asked for `reads`, accepted a request. -/
inductive Manager.Complies (m : Manager) (reads : EngineReads) : Reaction Manager → Prop
  | admitsWallet {h : WalletHandle} (code : String) (side : h.backend = m.handle.backend) :
      Complies m reads (m.admitWallet reads h code)
  | disconnects : Complies m reads (m.moveTo (.disconnected .requested) [])
  | admitsTransfer (w : WalletHandle) {t : TransferHandle} (raw : RawTransfer)
      (side : t.backend = m.handle.backend) :
      Complies m reads (m.withWallet w fun w => w.admitTransfer reads t raw)

/-- What the records do with the answer of the engine `e`, what is told of it, and how many values
could not be read. -/
inductive Tree.Heeds (t : Tree) (e : Engine) (b : Backend) :
    Issued → Tree → List Notice → Nat → Prop
  /-- The engine refuses, and nothing is done, or undone. -/
  | refused (c : EngineCommand) : Heeds t e b ⟨c, false⟩ t [] 0
  /-- The engine has to work on it. -/
  | relayed {c : EngineCommand} (plain : c.setsMode = false) : Heeds t e b ⟨c, true⟩ t [] 0
  | complied {c : EngineCommand} {m : Manager} {x : Reaction Manager} (plain : c.setsMode = false)
      (known : t.manager? m.handle = some m) (live : m.state ≠ .deleted)
      (side : m.handle.backend = b) (complies : m.Complies e.reads x) :
      Heeds t e b ⟨c, true⟩ (t.put x.value) x.notices x.unread
  | modeSet {m : Manager} {mode : ManagerMode} (known : t.manager? m.handle = some m)
      (side : m.handle.backend = b) (idle : ¬m.state.isActive) (live : m.state ≠ .deleted) :
      Heeds t e b ⟨.setMode m.handle.raw mode, true⟩ (t.put { m with mode := mode }) [] 0
  | founded {p : ManagerParams} {m : Manager} {x : Reaction Manager}
      {index : Table (String × String) ManagerHandle} (unknown : t.manager? m.handle = none)
      (new : m = .create ⟨b, e.nextHandle⟩ p.account p.network p.mode p.storagePath)
      (complies : m.Complies e.reads x) :
      Heeds t e b ⟨.createManager p, true⟩ ⟨(t.managers.findOrCreate m.handle x.value).1, index⟩
        ([.manager m.handle .created, .hub (.managerAdded m.handle)] ++ x.notices) x.unread
  /-- The engine hands out the number of a manager once more. -/
  | reissued {p : ManagerParams} {m : Manager} {x : Reaction Manager}
      {index : Table (String × String) ManagerHandle} (known : t.manager? m.handle = some m)
      (stale : m.handle = ⟨b, e.nextHandle⟩) (complies : m.Complies e.reads x) :
      Heeds t e b ⟨.createManager p, true⟩ ⟨(t.put x.value).managers, index⟩ x.notices x.unread

theorem Manager.Complies.handle {m : Manager} {reads : EngineReads} {x : Reaction Manager}
    (hx : m.Complies reads x) : x.value.handle = m.handle := by
  cases hx with
  | admitsWallet code side =>
    exact (local_of_trail (trail_admitWallet reads code side False.elim)).handle
  | disconnects => exact (local_of_trail (trail_moveTo False.elim (by simp) [] (by simp))).handle
  | admitsTransfer =>
    unfold withWallet
    split <;> rfl

/-- Whatever a manager does for a request, it does to itself alone. -/
theorem Manager.Complies.near {m : Manager} {reads : EngineReads} {x : Reaction Manager}
    (hm : m.Sound) (hx : m.Complies reads x) : m.Local x := by
  cases hx with
  | admitsWallet code side => exact local_of_trail (trail_admitWallet reads code side False.elim)
  | disconnects => exact local_of_trail (trail_moveTo False.elim (by simp) [] (by simp))
  | admitsTransfer w raw side =>
    exact local_of_trail (trail_withWallet False.elim hm fun v place _ =>
      Wallet.trail_admitTransfer reads v raw (by rw [place]; exact side))

/-- A new manager is entered, and then its reaction is taken over. -/
theorem Tree.heeds_founded {t : Tree} {e : Engine} {b : Backend} {p : ManagerParams} {m : Manager}
    {x : Reaction Manager} {index : Table (String × String) ManagerHandle}
    (unknown : t.manager? m.handle = none)
    (new : m = .create ⟨b, e.nextHandle⟩ p.account p.network p.mode p.storagePath)
    (complies : m.Complies e.reads x) :
    t.Heeds e b ⟨.createManager p, true⟩
      ⟨(t.managers.findOrCreate m.handle m).1.modify x.value.handle fun _ => x.value, index⟩
      ([.manager m.handle .created, .hub (.managerAdded m.handle)] ++ x.notices) x.unread := by
  rw [complies.handle, Registry.modify_findOrCreate _ _ unknown]
  exact .founded unknown new complies

/-! ## The hub -/

namespace Hub

open Handling

/-- The hub once an engine was asked and the records followed, with `unread` more values that could
not be read. -/
def heeding (h : Hub) (b : Backend) (e : Engine) (t : Tree) (unread : Nat) : Hub :=
  { h.withEngine b e with
    tree := t, counters := { h.counters with unread := h.counters.unread + unread } }

/-- What a request does, and tells: nothing, or what comes of the answer of one engine. -/
inductive Conduct (h : Hub) : Hub → List Notice → Prop
  | idle : Conduct h h []
  | asked {b : Backend} {e e' : Engine} {i : Issued} {t : Tree} {ns : List Notice} {unread : Nat}
      (engine : h.engine? b = some e) (took : e.Took i e')
      (heeds : h.tree.Heeds e b i t ns unread) : Conduct h (h.heeding b e' t unread) ns

variable {h : Hub} {b : Backend} {e : Engine} {m : Manager}

@[simp] theorem counters_withEngine (h : Hub) (b : Backend) (e : Engine) :
    (h.withEngine b e).counters = h.counters := by
  cases b <;> rfl

@[simp] theorem tree_heeding (h : Hub) (b : Backend) (e : Engine) (t : Tree) (unread : Nat) :
    (h.heeding b e t unread).tree = t := rfl

@[simp] theorem engine?_heeding (h : Hub) (b : Backend) (e : Engine) (t : Tree) (unread : Nat)
    (b' : Backend) : (h.heeding b e t unread).engine? b' = (h.withEngine b e).engine? b' := by
  cases b' <;> rfl

theorem withEngine_self (he : h.engine? b = some e) : h.withEngine b e = h := by
  obtain ⟨strict, client, utxo, account, tree, counters, now⟩ := h
  cases b <;> cases he <;> rfl

/-- The engine that was asked says of its wallets what it said before. -/
theorem reads_took {e' : Engine} {i : Issued} (took : e.Took i e') :
    (h.withEngine b e').reads b = e.reads := by
  rw [reads, engine?_withEngine_self]
  exact took.reads

/-- A hub that only asked. -/
theorem withEngine_eq_heeding (h : Hub) (b : Backend) (e : Engine) :
    h.withEngine b e = h.heeding b e h.tree 0 := by
  cases b <;> rfl

end Hub

namespace Handling

variable {h : Hub} {b : Backend} {e : Engine} {m : Manager}

/-- What a handling does is what a request may do. -/
abbrev Conduct (h : Hub) (r : Handling) : Prop := h.Conduct r.hub r.notices

theorem conduct_requireEngine {go : Engine → Handling}
    (hgo : ∀ e, h.engine? b = some e → (go e).Conduct h) : (requireEngine h b go).Conduct h := by
  unfold requireEngine
  split
  · rename_i e he; exact hgo e he
  · exact .idle

theorem conduct_requireLive {k : ManagerHandle} {operation : String} {go : Manager → Handling}
    (hgo : ∀ m, h.tree.manager? k = some m → m.state ≠ .deleted → (go m).Conduct h) :
    (requireLive h k operation go).Conduct h := by
  unfold requireLive
  split
  · exact .idle
  · rename_i m known
    split
    · exact .idle
    · rename_i live; exact hgo m known live

/-- An engine refuses, and nothing was done, or it is gone on with its answer. -/
theorem conduct_issue {α : Type} {c : EngineCommand} {reply : EngineReply α}
    {go : Hub → α → Handling} (he : h.engine? b = some e)
    (took : e.Took ⟨c, reply.result.toOption.isSome⟩ reply.engine)
    (hgo : ∀ a, reply.result = .ok a → e.Took ⟨c, true⟩ reply.engine →
      (go (h.withEngine b reply.engine) a).Conduct h) :
    (issue h b reply go).Conduct h := by
  cases hr : reply.result with
  | error err =>
    rw [hr] at took
    simp only [issue, hr]
    exact Hub.withEngine_eq_heeding h b reply.engine ▸ .asked he took (.refused c)
  | ok a =>
    rw [hr] at took
    have hgone := hgo a hr took
    simp only [issue, hr]
    exact hgone

/-- A request that only asks an engine for something. -/
theorem conduct_ask {c : EngineCommand} {reply : EngineReply Unit} (he : h.engine? b = some e)
    (took : e.Took ⟨c, reply.result.toOption.isSome⟩ reply.engine) (plain : c.setsMode = false) :
    (issue h b reply fun g _ => answer g .done).Conduct h :=
  conduct_issue he took fun _ _ took =>
    Hub.withEngine_eq_heeding h b reply.engine ▸ .asked he took (.relayed plain)

/-- A request that a manager follows once its engine accepted. -/
theorem conduct_commit {c : EngineCommand} {e' : Engine} {x : Reaction Manager}
    (he : h.engine? b = some e) (took : e.Took ⟨c, true⟩ e') (plain : c.setsMode = false)
    (known : h.tree.manager? m.handle = some m) (live : m.state ≠ .deleted)
    (side : m.handle.backend = b) (complies : m.Complies e.reads x) (a : Answer) :
    (commit (h.withEngine b e') x a).Conduct h := by
  have done : (commit (h.withEngine b e') x a).hub =
      h.heeding b e' (h.tree.put x.value) x.unread := by
    cases b <;> rfl
  rw [Conduct, done]
  exact .asked he took (.complied plain known live side complies)

end Handling

namespace Hub

open Handling

variable {h : Hub}

/-- Whatever becomes of the index, the reaction of the manager is taken over. -/
theorem conduct_entered {b : Backend} {e' : Engine} {g : Hub} {x : Reaction Manager}
    {managers : Registry ManagerHandle Manager} {ns : List Notice}
    (hg : g = { h.withEngine b e' with tree := ⟨managers, h.tree.index⟩ })
    (taken : ∀ index, h.Conduct (h.heeding b e'
      ⟨managers.modify x.value.handle fun _ => x.value, index⟩ x.unread) ns)
    (key : String × String) (k : ManagerHandle) (a : Answer) :
    h.Conduct { (commit g x a).hub with tree := match (commit g x a).result with
      | .ok _ => { (commit g x a).hub.tree with index := (commit g x a).hub.tree.index.put key k }
      | .error _ => (commit g x a).hub.tree } ns := by
  subst hg
  split
  · cases b <;> exact taken _
  · cases b <;> exact taken _

theorem conduct_createManager (hs : h.tree.Sound) (p : ManagerParams) :
    (h.createManager p).Conduct h := by
  unfold createManager
  split
  · exact .idle
  split
  · exact .idle
  rename_i native _
  refine conduct_requireEngine fun e he => conduct_issue (c := .createManager p) he
    (e.took_command _ (fun _ => rfl) (fun _ => rfl) (fun _ => rfl) fun _ => rfl)
    fun (raw, primary) hr took => ?_
  obtain ⟨rfl, -⟩ := createManager_of_ok hr
  simp only [reads_took took]
  have same : (h.withEngine p.network.backend (e.createManager p).engine).tree = h.tree :=
    tree_withEngine ..
  cases hk : h.tree.managers.find? ⟨p.network.backend, e.nextHandle⟩ with
  | none =>
    let m := Manager.create ⟨p.network.backend, e.nextHandle⟩ p.account p.network p.mode
      p.storagePath
    have entered := Registry.findOrCreate_of_find?_none m hk
    simp only [same, Registry.findOrCreate_of_find?_none _ hk]
    exact conduct_entered
      (congrArg (fun r => { h.withEngine p.network.backend (e.createManager p).engine with
        tree := ⟨r.1, h.tree.index⟩ }) entered.symm) (fun index => .asked he took
      (Tree.heeds_founded (m := m) hk rfl (.admitsWallet native.code rfl))) _ _ _
  | some m =>
    have place : m.handle = ⟨p.network.backend, e.nextHandle⟩ := hs.place hk
    simp only [same, Registry.findOrCreate_of_find?_some _ hk]
    exact conduct_entered rfl (fun index => .asked he took
      (.reissued (place ▸ hk) place (.admitsWallet _ (by rw [place])))) _ _ _

theorem conduct_createWallet (hs : h.tree.Sound) (k : ManagerHandle) (code : String) :
    (h.createWallet k code).Conduct h := by
  refine conduct_requireEngine fun e he => conduct_requireLive fun m known live => ?_
  obtain rfl := hs.place known
  split
  · exact .idle
  rename_i c _
  split
  · exact .idle
  cases side : e.backend with
  | utxo =>
    -- the engine is not asked, so it is what it was
    simp only [issue, Engine.createWallet, side, withEngine_self he]
    exact .idle
  | account =>
    refine conduct_issue (c := .createWallet m.handle.raw c) he ?_ fun raw _ took => ?_
    · simp only [Engine.createWallet, side]
      exact e.took_command _ (fun _ => rfl) (fun _ => rfl) (fun _ => rfl) fun _ => rfl
    · rw [reads_took took]
      exact conduct_commit he took rfl known live rfl (.admitsWallet _ rfl) _

/-- Setting a mode back is done in the records. -/
theorem resetMode_eq (h : Hub) (k : ManagerHandle) (mode : ManagerMode) :
    h.resetMode k mode = { h with tree := (h.resetMode k mode).tree } := by
  unfold resetMode
  split
  · rfl
  · split <;> rfl

/-- A mode that the engine refuses is set back, and nothing was done. -/
theorem conduct_setMode (hs : h.tree.Sound) (k : ManagerHandle) (mode : ManagerMode) :
    (h.setMode k mode).Conduct h := by
  refine conduct_requireEngine fun e he => ?_
  split
  · exact .idle
  rename_i m known
  obtain rfl := hs.place known
  split
  · exact .idle
  · exact .idle
  rename_i m' previous hset
  have took : e.Took ⟨.setMode m.handle.raw mode,
      (e.setMode m.handle.raw mode).result.toOption.isSome⟩ (e.setMode m.handle.raw mode).engine :=
    e.took_plain _ [] rfl
  have idle : ¬m.state.isActive := by
    intro active
    simp only [Manager.setMode, active, true_or, if_true] at hset
    cases hset
  cases reply : (e.setMode m.handle.raw mode).result with
  | ok a =>
    obtain ⟨live, rfl, -⟩ := of_setMode hset
    have done : (h.withManager { m with mode := mode }).withEngine m.handle.backend
        (e.setMode m.handle.raw mode).engine =
          h.heeding m.handle.backend (e.setMode m.handle.raw mode).engine
            (h.tree.put { m with mode := mode }) 0 := by
      cases m.handle.backend <;> rfl
    rw [reply] at took
    simp only [reply, issue, Handling.Conduct]
    exact done ▸ .asked he took (.modeSet known rfl idle live)
  | error err =>
    have undone := tree_resetMode known rfl hset (g := (h.withManager m').withEngine
      m.handle.backend (e.setMode m.handle.raw mode).engine) (tree_withEngine ..)
    have done : ((h.withManager m').withEngine m.handle.backend
        (e.setMode m.handle.raw mode).engine).resetMode m.handle previous =
          h.heeding m.handle.backend (e.setMode m.handle.raw mode).engine h.tree 0 := by
      rw [resetMode_eq, undone]
      cases m.handle.backend <;> rfl
    rw [reply] at took
    simp only [reply, issue, Handling.Conduct]
    exact done ▸ .asked he took (.refused _)

theorem conduct_createTransfer (hs : h.tree.Sound) (p : WalletPath) (target : Address)
    (amount : Amount) (given : Option FeeBasis) :
    (h.createTransfer p target amount given).Conduct h := by
  refine conduct_requireEngine fun e he => ?_
  split
  · exact .idle
  refine conduct_requireLive fun m known live => ?_
  split
  · exact .idle
  split
  · exact .idle
  split
  · exact .idle
  rename_i basis _ _
  refine conduct_issue (c := .createTransfer p.manager.raw p.wallet.raw ⟨target, amount, basis⟩) he
    (e.took_command _ (fun _ => rfl) (fun _ => rfl) (fun _ => rfl) fun _ => rfl)
    fun made _ took => ?_
  rw [reads_took took]
  exact conduct_commit he took rfl (hs.place known ▸ known) live (by rw [hs.place known])
    (.admitsTransfer _ _ (by rw [hs.place known])) _

theorem conduct_submit (h : Hub) (p : TransferPath) (auth : SubmitAuth) :
    (h.submit p auth).Conduct h := by
  refine conduct_requireEngine fun e he => conduct_requireLive fun m _ _ => ?_
  have took := e.took_plain (.submit p.manager.raw p.wallet.raw p.transfer.raw auth)
    [.transfer p.manager.raw p.wallet.raw p.transfer.raw
      (.submitted (some (Engine.handleBytes p.transfer.raw ++ List.replicate 24 0)))] rfl
  split
  · exact .idle
  split
  · exact conduct_ask he took rfl
  · exact conduct_ask he took rfl
  · exact .idle

/-- **Requests.** What a request does, in records that are sound. -/
theorem conduct_onRequest (hs : h.tree.Sound) (q : Request) : (h.onRequest q).Conduct h := by
  cases q with
  | createManager p => exact conduct_createManager hs p
  | createWallet k code => exact conduct_createWallet hs k code
  | connect k =>
    refine conduct_requireEngine fun e he => conduct_requireLive fun m _ _ => ?_
    split
    · exact .idle
    · exact conduct_ask he (e.took_plain (.connect k.raw) _ rfl) rfl
  | disconnect k =>
    refine conduct_requireEngine fun e he => conduct_requireLive fun m known live => ?_
    exact conduct_issue he (e.took_plain (.disconnect k.raw) _ rfl) fun _ _ took =>
      conduct_commit he took rfl (hs.place known ▸ known) live (by rw [hs.place known])
        .disconnects _
  | sync k =>
    exact conduct_requireEngine fun e he => conduct_requireLive fun m _ _ =>
      conduct_ask he (e.took_plain (.sync k.raw) _ rfl) rfl
  | setMode k mode => exact conduct_setMode hs k mode
  | createTransfer p target amount given => exact conduct_createTransfer hs p target amount given
  | submit p auth => exact conduct_submit h p auth

/-- The turn of a request has the records and the engines that its handling led to, and tells no
more than it. -/
theorem conduct_request (hs : h.tree.Sound) (q : Request) :
    ∃ g ns, (h.count .request).Conduct g ns ∧
      Relayed g (h.process (.request q)).hub ns (h.process (.request q)).notices :=
  ⟨_, _, conduct_onRequest (h := h.count .request) hs q, relayed_concludeRequest h _⟩

end Hub
end WalletHub
