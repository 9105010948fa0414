import WalletHub.Proofs.Change.Place
import WalletHub.Proofs.Refusal

/-!
# What a command touches

A command that names a manager touches the record of that manager and nothing beside it: the other
records, their order and the index stay as they are, every notice names the manager, and what the
engines hear is about the manager (`Hub.About`). A request for a new manager finds the one in the
index, or fails, or makes one with a number of its own (`Hub.Founds`). The other commands touch no
record until the shutdown.

* `about_onRequest`, `about_onCallback`: what names a manager is about it.
* `founding_createManager`: what comes of a request for a new manager.
* `effect_process`: what a command can do to the records and the engines.
* `quiet_process_of_deleted`: what names a deleted manager does nothing at all.
* `Run.invariant_of_going`: what every command keeps holds until the shutdown.
-/
namespace WalletHub

/-! ## Names -/

/-- The manager that a notice names: it came, it went, or something happened to it or to what it
holds. -/
def Notice.named? : Notice → Option ManagerHandle
  | .hub (.managerAdded k) | .hub (.managerDeleted k) | .manager k _ => some k
  | .wallet p _ => some p.manager
  | .transfer p _ => some p.manager
  | .hub _ => none

theorem Notice.InManager.named {k : ManagerHandle} {n : Notice} (hn : n.InManager k) :
    n.named? = some k := by
  cases n with
  | hub n => cases (show n = .managerDeleted k from hn); rfl
  | manager j n => exact congrArg some hn.1
  | wallet p n => exact congrArg some (show p.manager = k from hn)
  | transfer p n => exact congrArg some (show p.manager = k from hn)

/-- The manager that a callback of an engine is led to. -/
def EngineCallback.addressee (b : Backend) : EngineCallback → ManagerHandle
  | .manager m _ | .wallet m _ _ | .transfer m _ _ _ | .queryRequested m _ _ => ⟨b, m⟩

/-- What a callback does to the manager it is led to; a query does nothing to it. -/
def EngineCallback.reaction (reads : EngineReads) (b : Backend) (c : EngineCallback) (m : Manager) :
    Reaction Manager :=
  match c with
  | .manager _ event => m.react event
  | .wallet _ w event => m.reactWallet reads ⟨b, w⟩ event
  | .transfer _ w t event => m.reactTransfer reads ⟨b, w⟩ ⟨b, t⟩ event
  | .queryRequested .. => .still m

/-- The manager that a request names, by itself or by something it holds. -/
def Request.manager? : Request → Option ManagerHandle
  | .createManager _ => none
  | .createWallet k _ | .connect k | .disconnect k | .sync k | .setMode k _ => some k
  | .createTransfer w _ _ _ => some w.manager
  | .submit t _ => some t.manager

/-- The manager that a command names. -/
def Command.manager? : Command → Option ManagerHandle
  | .callback b c => some (c.addressee b)
  | .request q => q.manager?
  | _ => none

/-- The number of the manager that an engine's command is about; one that is still to be made has
none. -/
def EngineCommand.manager? : EngineCommand → Option UInt64
  | .createManager _ => none
  | .connect m | .disconnect m | .sync m | .setMode m _ | .createWallet m _
  | .createTransfer m _ _ | .submit m _ _ _ | .releaseManager m => some m

/-- The account and the network that a manager serves. -/
def Manager.key (m : Manager) : String × String := (m.account.id, m.network.name)

/-- The account and the network that a manager is asked for. -/
def ManagerParams.key (p : ManagerParams) : String × String := (p.account.id, p.network.name)

/-! ## Reactions -/

/-- A reaction of a manager that keeps its names, and names it in everything it tells. -/
structure Manager.Local (m : Manager) (r : Reaction Manager) : Prop where
  handle : r.value.handle = m.handle
  key : r.value.key = m.key
  named : ∀ n ∈ r.notices, n.named? = some m.handle

namespace Manager

variable {m m' : Manager} {ns : List Notice}

theorem Change.key (hc : Change m ns m') : m'.key = m.key := by
  cases hc <;> rfl

theorem local_of_trail {r : Reaction Manager} (trail : Trail (Step False) m r.notices r.value) :
    m.Local r := by
  have kept : ∀ {a : Manager} {ms : List Notice} {b : Manager}, Step False a ms b →
      a.handle = m.handle ∧ a.key = m.key → b.handle = m.handle ∧ b.key = m.key :=
    fun hc ha => ⟨hc.2.handle.trans ha.1, hc.2.key.trans ha.2⟩
  have named : ∀ n ∈ [] ++ r.notices, n.named? = some m.handle :=
    trail.told (P := fun a => a.handle = m.handle ∧ a.key = m.key)
      (Q := fun ns _ => ∀ n ∈ ns, n.named? = some m.handle) kept
      (fun hc ha hs n hn => by
        rcases List.mem_append.1 hn with hn | hn
        · exact hs n hn
        · exact ha.1 ▸ (hc.2.inManager n hn).named)
      ⟨rfl, rfl⟩ (fun n hn => by cases hn)
  obtain ⟨handle, key⟩ := trail.invariant (P := fun a => a.handle = m.handle ∧ a.key = m.key) kept
    ⟨rfl, rfl⟩
  exact ⟨handle, key, named⟩

/-- A height from which confirmations cannot be counted is told by nothing. -/
theorem local_react (hm : m.Sound) (c : ManagerCallback) : m.Local (m.react c) := by
  rcases m.leaves_react c with leaves | ⟨height, hr⟩
  · refine local_of_trail (trail_react hm c ?_)
    rcases leaves with hn | ⟨e, he⟩
    · simp [hn]
    · simp [he, Reaction.discard]
  · rw [hr]
    exact ⟨rfl, rfl, fun n hn => by cases hn⟩

/-- Whatever a callback does to a manager, it does to that manager alone. -/
theorem local_reaction (reads : EngineReads) (hm : m.Sound) {b : Backend} {c : EngineCallback}
    (place : m.handle = c.addressee b) : m.Local (c.reaction reads b m) := by
  cases c with
  | manager i event => exact local_react hm event
  | wallet i w event => exact local_of_trail (trail_reactWallet _ hm (by rw [place]; rfl) event)
  | transfer i w t event =>
    exact local_of_trail (trail_reactTransfer _ hm _ (by rw [place]; rfl) event)
  | queryRequested => exact ⟨rfl, rfl, fun n hn => by cases hn⟩

theorem still_ifLive (deleted : m.state = .deleted) (r : Reaction Manager) :
    (m.ifLive r).value = m ∧ (m.ifLive r).notices = [] := by
  simp only [ifLive, deleted, if_true]
  exact ⟨rfl, rfl⟩

/-- A deleted manager stays as it is, whatever comes for it. -/
theorem still_reaction (reads : EngineReads) (deleted : m.state = .deleted) (b : Backend)
    (c : EngineCallback) :
    (c.reaction reads b m).value = m ∧ (c.reaction reads b m).notices = [] := by
  cases c with
  | manager i event =>
    cases event with
    | deleted => simp only [EngineCallback.reaction, react, deleted, if_true]; exact ⟨rfl, rfl⟩
    | created | connected | disconnected | syncStarted | syncProgress | syncStopped
    | blockHeightUpdated => exact still_ifLive deleted _
  | wallet i w event => exact still_ifLive deleted _
  | transfer i w t event => exact still_ifLive deleted _
  | queryRequested => exact ⟨rfl, rfl⟩

end Manager

/-! ## Records -/

/-- At most the record of one manager was changed. -/
structure Tree.Within (k : ManagerHandle) (t t' : Tree) : Prop where
  others : ∀ j, j ≠ k → t'.manager? j = t.manager? j
  key : (t'.manager? k).map Manager.key = (t.manager? k).map Manager.key
  handles : t'.managers.handles = t.managers.handles
  index : t'.index = t.index

namespace Tree

variable {k : ManagerHandle} {t t' : Tree} {m m' : Manager}

theorem Within.refl (k : ManagerHandle) (t : Tree) : t.Within k t :=
  ⟨fun _ _ => rfl, rfl, rfl, rfl⟩

theorem Within.of_eq (same : t' = t) : t.Within k t' := same ▸ .refl k t

theorem Within.trans {t'' : Tree} (h : t.Within k t') (h' : t'.Within k t'') : t.Within k t'' :=
  ⟨fun j hj => (h'.others j hj).trans (h.others j hj), h'.key.trans h.key,
    h'.handles.trans h.handles, h'.index.trans h.index⟩

theorem within_put (known : t.manager? m.handle = some m) (handle : m'.handle = m.handle)
    (key : m'.key = m.key) : t.Within m.handle (t.put m') := by
  refine ⟨fun j hj => ?_, ?_, Registry.handles_modify .., rfl⟩
  · rw [manager?_put known handle, if_neg (Ne.symm hj)]
  · rw [manager?_put known handle, if_pos rfl, known]
    exact congrArg some key

end Tree

/-! ## Logs -/

namespace Hub

/-- The commands that the engine of a backend got, with its answers, oldest first. -/
def log (h : Hub) (b : Backend) : List Issued :=
  match h.engine? b with
  | some e => e.issued
  | none => []

/-- All that the engines of `g` heard after those of `h` is of a kind. -/
def Logs (P : Backend → Issued → Prop) (h g : Hub) : Prop :=
  ∀ b, ∃ more, g.log b = h.log b ++ more ∧ ∀ i ∈ more, P b i

variable {P Q : Backend → Issued → Prop} {f g h : Hub}

theorem log_congr {b : Backend} (same : g.engine? b = h.engine? b) : g.log b = h.log b := by
  simp only [log, same]

theorem Logs.of_log (same : ∀ b, g.log b = h.log b) : h.Logs P g :=
  fun b => ⟨[], by simp [same], by simp⟩

theorem Logs.refl (P : Backend → Issued → Prop) (h : Hub) : h.Logs P h := .of_log fun _ => rfl

theorem Logs.trans (hfg : f.Logs P g) (hgh : g.Logs P h) : f.Logs P h := by
  intro b
  obtain ⟨ns, hn, hP⟩ := hfg b
  obtain ⟨ms, hm, hP'⟩ := hgh b
  refine ⟨ns ++ ms, by rw [hm, hn, List.append_assoc], fun i hi => ?_⟩
  rcases List.mem_append.1 hi with hi | hi
  · exact hP i hi
  · exact hP' i hi

theorem Logs.mono (hPQ : ∀ b i, P b i → Q b i) (hgh : g.Logs P h) : g.Logs Q h := by
  intro b
  obtain ⟨more, hmore, hP⟩ := hgh b
  exact ⟨more, hmore, fun i hi => hPQ b i (hP i hi)⟩

/-- The log of an engine in the place of one with the same log. -/
theorem log_withEngine {b : Backend} {e e' : Engine} (he : h.engine? b = some e)
    (same : e'.issued = e.issued) (b' : Backend) : (h.withEngine b e').log b' = h.log b' := by
  by_cases hb : b' = b
  · subst hb
    simp only [log, engine?_withEngine_self, he, same]
  · exact log_congr (engine?_withEngine_of_ne e' hb)

theorem logs_withEngine {b : Backend} {e e' : Engine} (he : h.engine? b = some e)
    {more : List Issued} (logged : e'.issued = e.issued ++ more) (hP : ∀ i ∈ more, P b i) :
    h.Logs P (h.withEngine b e') := by
  intro b'
  by_cases hb : b' = b
  · subst hb
    exact ⟨more, by simp only [log, engine?_withEngine_self, he, logged], hP⟩
  · exact ⟨[], by simp [log_congr (engine?_withEngine_of_ne e' hb)], by simp⟩

end Hub

namespace Engine

/-- A command is logged, accepted or not. -/
theorem issued_command {α : Type} (e : Engine) (c : EngineCommand)
    {act : Engine → Engine × List EngineCallback × α}
    (quiet : ∀ e, (act e).1.issued = e.issued) :
    (e.command c act).engine.issued =
      e.issued ++ [⟨c, (e.command c act).result.toOption.isSome⟩] := by
  unfold command take
  cases e.failNext with
  | some message => rfl
  | none => exact quiet _

/-- All that `e'` heard after `e` is about one manager. -/
def Heard (m : UInt64) (e e' : Engine) : Prop :=
  ∃ more, e'.issued = e.issued ++ more ∧ ∀ i ∈ more, i.command.manager? = some m

theorem heard_command {α : Type} {m : UInt64} (e : Engine) {c : EngineCommand}
    {act : Engine → Engine × List EngineCallback × α} (hc : c.manager? = some m)
    (quiet : ∀ e, (act e).1.issued = e.issued) : e.Heard m (e.command c act).engine :=
  ⟨_, e.issued_command c quiet, fun i hi => by cases List.mem_singleton.1 hi; exact hc⟩

theorem heard_createWallet (e : Engine) (m : UInt64) (c : Currency) :
    e.Heard m (e.createWallet m c).engine := by
  unfold createWallet
  cases e.backend with
  | utxo => exact ⟨[], by simp, by simp⟩
  | account => exact heard_command e rfl fun _ => rfl

end Engine

namespace Hub

/-! ## Commands that name a manager -/

/-- What is heard of one manager. -/
def Of (k : ManagerHandle) (b : Backend) (i : Issued) : Prop :=
  b = k.backend ∧ i.command.manager? = some k.raw

theorem Of.unique {j k : ManagerHandle} {b : Backend} {i : Issued} (hj : Of j b i)
    (hk : Of k b i) : j = k := by
  obtain ⟨j, a⟩ := j
  obtain ⟨k, a'⟩ := k
  obtain ⟨rfl, hj⟩ := hj
  obtain ⟨rfl, hk⟩ := hk
  cases hj.symm.trans hk
  rfl

/-- What was done on the way from `h` to `g`, and told as `ns`, is about one manager. -/
structure About (k : ManagerHandle) (h g : Hub) (ns : List Notice) : Prop where
  tree : h.tree.Within k g.tree
  named : ∀ n ∈ ns, n.named? = some k
  logs : h.Logs (Of k) g

/-- Nothing was done to the records, told or said to an engine. -/
structure Quiet (h g : Hub) (ns : List Notice) : Prop where
  tree : g.tree = h.tree
  told : ns = []
  log : ∀ b, g.log b = h.log b

variable {k : ManagerHandle} {f g h : Hub} {m : Manager} {ns : List Notice}

theorem Quiet.about (hq : h.Quiet g ns) (k : ManagerHandle) : h.About k g ns :=
  ⟨.of_eq hq.tree, by simp [hq.told], .of_log hq.log⟩

theorem quiet_refl (h : Hub) : h.Quiet h [] := ⟨rfl, rfl, fun _ => rfl⟩

end Hub

namespace Handling

variable {k : ManagerHandle} {g h : Hub} {m : Manager}

/-- What a handling does is about one manager. -/
abbrev About (k : ManagerHandle) (h : Hub) (r : Handling) : Prop := h.About k r.hub r.notices

theorem about_answer (hg : h.About k g []) (a : Answer) : (answer g a).About k h := hg

theorem about_refuse (hg : h.About k g []) (e : HubError) : (refuse g e).About k h := hg

theorem about_violate (k : ManagerHandle) (h : Hub) (e : PreconditionError) :
    (violate h e).About k h := (Hub.quiet_refl h).about k

theorem about_commit (hg : h.About k g []) (known : g.tree.manager? k = some m)
    (place : m.handle = k) {r : Reaction Manager} (hr : m.Local r) (a : Answer) :
    (commit g r a).About k h := by
  subst place
  refine ⟨hg.tree.trans (Tree.within_put known hr.handle hr.key), hr.named, ?_⟩
  exact hg.logs.trans (.of_log fun b => by cases b <;> rfl)

theorem about_requireEngine {b : Backend} {go : Engine → Handling}
    (hgo : ∀ e, h.engine? b = some e → (go e).About k h) : (requireEngine h b go).About k h := by
  unfold requireEngine
  split
  · rename_i e he; exact hgo e he
  · exact about_violate k h _

theorem about_requireLive {j : ManagerHandle} {operation : String} {go : Manager → Handling}
    (hgo : ∀ m, h.tree.manager? j = some m → (go m).About k h) :
    (requireLive h j operation go).About k h := by
  unfold requireLive
  split
  · exact about_refuse ((Hub.quiet_refl h).about k) _
  · split
    · exact about_violate k h _
    · exact hgo _ ‹_›

/-- An engine hears of the manager, and the hub goes on with its answer. -/
theorem about_issue {α : Type} {f : Hub} {e : Engine} {reply : EngineReply α}
    {go : Hub → α → Handling} (he : f.engine? k.backend = some e) (hf : h.About k f [])
    (heard : e.Heard k.raw reply.engine)
    (hgo : ∀ g a, h.About k g [] → g.tree = f.tree → (go g a).About k h) :
    (issue f k.backend reply go).About k h := by
  obtain ⟨more, logged, hmore⟩ := heard
  have asked : h.About k (f.withEngine k.backend reply.engine) [] :=
    ⟨hf.tree.trans (.of_eq (Hub.tree_withEngine ..)), hf.named,
      hf.logs.trans (Hub.logs_withEngine he logged fun i hi => ⟨rfl, hmore i hi⟩)⟩
  unfold issue
  split
  · exact about_refuse asked _
  · exact hgo _ _ asked (Hub.tree_withEngine ..)

end Handling

namespace Hub

open Handling

variable {k : ManagerHandle} {g h : Hub} {m : Manager}

theorem about_createWallet (hs : h.tree.Sound) (k : ManagerHandle) (code : String) :
    (h.createWallet k code).About k h := by
  have still := (quiet_refl h).about k
  refine about_requireEngine fun e he => about_requireLive fun m known => ?_
  split
  · exact about_refuse still _
  · split
    · exact about_answer still _
    · exact about_issue he still (e.heard_createWallet _ _) fun g raw hg tree =>
        about_commit hg (tree ▸ known) (hs.place known)
          (Manager.local_of_trail (Manager.trail_admitWallet _ _ (by rw [hs.place known])
            False.elim)) _

/-- A request that only asks an engine for something. -/
theorem about_ask {e : Engine} {reply : EngineReply Unit} (he : h.engine? k.backend = some e)
    (heard : e.Heard k.raw reply.engine) :
    (issue h k.backend reply fun g _ => answer g .done).About k h :=
  about_issue he ((quiet_refl h).about k) heard fun _ _ hg _ => about_answer hg .done

theorem log_resetMode (h : Hub) (k : ManagerHandle) (mode : ManagerMode) (b : Backend) :
    (h.resetMode k mode).log b = h.log b := by
  unfold resetMode
  split
  · rfl
  · split
    · rfl
    · cases b <;> rfl

/-- A mode that the engine refuses is set back, and the manager is what it was. -/
theorem about_setMode (hs : h.tree.Sound) (k : ManagerHandle) (mode : ManagerMode) :
    (h.setMode k mode).About k h := by
  have still := (quiet_refl h).about k
  refine about_requireEngine fun e he => ?_
  split
  · exact about_refuse still _
  · rename_i m known
    have place := hs.place known
    split
    · exact about_refuse still _
    · exact about_answer still _
    · rename_i m' previous hset
      obtain ⟨-, rfl, -⟩ := of_setMode hset
      have written : h.About k (h.withManager { m with mode := mode }) [] :=
        ⟨place ▸ Tree.within_put (place ▸ known) rfl rfl, by simp,
          .of_log fun b => by cases b <;> rfl⟩
      have heard : e.Heard k.raw (e.setMode k.raw mode).engine :=
        e.heard_command rfl fun _ => rfl
      have asked : (issue (h.withManager { m with mode := mode }) k.backend
          (e.setMode k.raw mode) fun g _ => answer g .done).About k h :=
        about_issue (by exact he) written heard fun _ _ hg _ => about_answer hg .done
      cases reply : (e.setMode k.raw mode).result with
      | ok a => simpa only [reply] using asked
      | error err =>
        have undone := tree_resetMode known place hset
          (g := (h.withManager { m with mode := mode }).withEngine k.backend
            (e.setMode k.raw mode).engine) (tree_withEngine ..)
        simp only [reply]
        refine ⟨.of_eq ?_, asked.named, asked.logs.trans (.of_log fun b => log_resetMode ..)⟩
        simp only [issue, reply]
        exact undone

theorem about_createTransfer (hs : h.tree.Sound) (p : WalletPath) (target : Address)
    (amount : Amount) (given : Option FeeBasis) :
    (h.createTransfer p target amount given).About p.manager h := by
  have still := (quiet_refl h).about p.manager
  refine about_requireEngine fun e he => ?_
  split
  · exact about_violate _ h _
  · refine about_requireLive fun m known => ?_
    split
    · exact about_refuse still _
    · split
      · exact about_refuse still _
      · split
        · exact about_violate _ h _
        · exact about_issue he still (e.heard_command rfl fun _ => rfl) fun g made hg tree =>
            about_commit hg (tree ▸ known) (hs.place known)
              (Manager.local_of_trail
                (Manager.trail_withWallet False.elim (hs.sound known) fun w place _ =>
                  Wallet.trail_admitTransfer _ w made.2 (by rw [place, hs.place known]))) _

/-- **Requests.** A request that names a manager is about it. -/
theorem about_onRequest (hs : h.tree.Sound) {q : Request} (names : q.manager? = some k) :
    (h.onRequest q).About k h := by
  have still := (quiet_refl h).about k
  cases q with
  | createManager p => cases names
  | createWallet j code => cases names; exact about_createWallet hs k code
  | connect j =>
    cases names
    refine about_requireEngine fun e he => about_requireLive fun m _ => ?_
    split
    · exact about_answer still _
    · exact about_ask he (e.heard_command rfl fun _ => rfl)
  | disconnect j =>
    cases names
    refine about_requireEngine fun e he => about_requireLive fun m known => ?_
    exact about_issue he still (e.heard_command rfl fun _ => rfl) fun g _ hg tree =>
      about_commit hg (tree ▸ known) (hs.place known)
        (Manager.local_of_trail (Manager.trail_moveTo False.elim (by simp) [] (by simp))) _
  | sync j =>
    cases names
    exact about_requireEngine fun e he => about_requireLive fun m _ =>
      about_ask he (e.heard_command rfl fun _ => rfl)
  | setMode j mode => cases names; exact about_setMode hs k mode
  | createTransfer p target amount given =>
    cases names; exact about_createTransfer hs p target amount given
  | submit p auth =>
    cases names
    refine about_requireEngine fun e he => about_requireLive fun m _ => ?_
    split
    · exact about_refuse still _
    · split
      · exact about_ask he (e.heard_command rfl fun _ => rfl)
      · exact about_ask he (e.heard_command rfl fun _ => rfl)
      · exact about_refuse still _

/-- An answer to a query is not a command. -/
theorem log_announceResult {b : Backend} {e : Engine} (he : h.engine? b = some e) (i : UInt64)
    (id : RequestId) (q : QueryRequest) (r : QueryResult) (b' : Backend) :
    (h.announceResult b e i id q r).log b' = h.log b' := by
  have same : (e.announce i id q r).1.issued = e.issued := by
    unfold Engine.announce
    split <;> rfl
  unfold announceResult
  cases r with
  | ok a => exact log_withEngine he same b'
  | error err =>
    exact (log_withEngine (by exact he) same b').trans (log_congr (by cases b' <;> rfl))

theorem quiet_onQuery (h : Hub) (b : Backend) (i : UInt64) (id : RequestId) (q : QueryRequest) :
    h.Quiet (h.onQuery b i id q).hub (h.onQuery b i id q).notices := by
  obtain ⟨told, tree, -⟩ := silent_onQuery h b i id q
  refine ⟨tree, told, fun b' => ?_⟩
  have counted (f : Counters → Counters) : (h.count f).log b' = h.log b' := by cases b' <;> rfl
  unfold onQuery
  split
  · exact counted _
  · rename_i e he
    split
    · exact (log_announceResult (by exact he) ..).trans (counted _)
    · split
      · exact counted _
      · exact log_announceResult he ..

/-- A callback that is no query is led to the record of its manager. -/
theorem onCallback_eq {c : EngineCallback} (plain : c.isQuery = false) (h : Hub) (b : Backend) :
    h.onCallback b c = h.toManager (c.addressee b) (c.reaction (h.reads b) b) := by
  cases c with
  | queryRequested => cases plain
  | _ => rfl

/-- **Callbacks.** A callback is about the manager it is led to. -/
theorem about_onCallback (hs : h.tree.Sound) (b : Backend) (c : EngineCallback) :
    (h.onCallback b c).About (c.addressee b) h := by
  cases plain : c.isQuery with
  | true =>
    cases c with
    | queryRequested i id q => exact (quiet_onQuery h b i id q).about _
    | _ => cases plain
  | false =>
    have still := (quiet_refl h).about (c.addressee b)
    rw [onCallback_eq plain, toManager]
    split
    · exact about_refuse still _
    · rename_i m known
      exact about_commit still known (hs.place known)
        (Manager.local_reaction _ (hs.sound known) (hs.place known)) _

/-! ## Requests for a new manager -/

/-- What comes of a request for a new manager, and the manager that it is answered with. -/
inductive Founds (p : ManagerParams) (h g : Hub) (ns : List Notice) : Option ManagerHandle → Prop
  /-- There is one in the index. -/
  | known {k : ManagerHandle} (listed : h.tree.index.get? p.key = some k)
      (quiet : h.Quiet g ns) : Founds p h g ns (some k)
  /-- There is none, and there will be none. -/
  | refused (unlisted : h.tree.index.get? p.key = none) (tree : g.tree = h.tree) (told : ns = [])
      (logs : h.Logs (fun _ i => i = ⟨.createManager p, false⟩) g) : Founds p h g ns none
  /-- A new one goes behind the others, and into the index. -/
  | made {m : Manager} (unlisted : h.tree.index.get? p.key = none)
      (unknown : h.tree.manager? m.handle = none) (key : m.key = p.key)
      (tree : g.tree = ⟨(h.tree.managers.findOrCreate m.handle m).1,
        h.tree.index.put p.key m.handle⟩)
      (named : ∀ n ∈ ns, n.named? = some m.handle)
      (log : ∀ b, g.log b =
        h.log b ++ if b = p.network.backend then [⟨.createManager p, true⟩] else [])
      (usable : m.Usable) : Founds p h g ns (some m.handle)

theorem issued_createManager (e : Engine) (p : ManagerParams) :
    (e.createManager p).engine.issued =
      e.issued ++ [⟨.createManager p, (e.createManager p).result.toOption.isSome⟩] :=
  e.issued_command (.createManager p) fun _ => rfl

/-- What comes of the handling of a request for a new manager. -/
abbrev Founding (p : ManagerParams) (h : Hub) (r : Handling) : Prop :=
  ∃ made, h.Founds p r.hub r.notices made ∧ r.result.toOption = made.map .manager

variable {p : ManagerParams}

theorem founding_requireEngine (unlisted : h.tree.index.get? p.key = none) {b : Backend}
    {go : Engine → Handling} (hgo : ∀ e, h.engine? b = some e → Founding p h (go e)) :
    Founding p h (requireEngine h b go) := by
  unfold requireEngine
  split
  · rename_i e he; exact hgo e he
  · exact ⟨none, .refused unlisted rfl rfl (.refl _ h), rfl⟩

/-- The engine logs the request, refused or accepted. -/
theorem founding_issue (unlisted : h.tree.index.get? p.key = none) {e : Engine}
    (he : h.engine? p.network.backend = some e) {go : Hub → UInt64 × UInt64 → Handling}
    (hgo : ∀ g raw, g.tree = h.tree →
      (∀ b, g.log b = h.log b ++ if b = p.network.backend then [⟨.createManager p, true⟩] else []) →
      Founding p h (go g (e.nextHandle, raw))) :
    Founding p h (issue h p.network.backend (e.createManager p) go) := by
  have logged := issued_createManager e p
  unfold issue
  split
  · rename_i err hr
    rw [hr] at logged
    exact ⟨none, .refused unlisted (tree_withEngine ..) rfl
      (logs_withEngine he logged fun i hi => List.mem_singleton.1 hi), rfl⟩
  · rename_i made hr
    obtain ⟨raw, primary⟩ := made
    obtain ⟨rfl, -⟩ := createManager_of_ok hr
    rw [hr] at logged
    refine hgo _ primary (tree_withEngine ..) fun b => ?_
    by_cases hb : b = p.network.backend
    · subst hb
      simp only [log, engine?_withEngine_self, logged, he, if_true]
      rfl
    · rw [log_congr (engine?_withEngine_of_ne _ hb), if_neg hb, List.append_nil]

/-- **New managers.** A manager that is made has a number that nobody has. -/
theorem founding_createManager (fresh : h.Fresh) (p : ManagerParams) :
    Founding p h (h.createManager p) := by
  unfold createManager
  split
  · rename_i k listed
    exact ⟨some k, .known listed (quiet_refl h), rfl⟩
  rename_i unlisted
  split
  · exact ⟨none, .refused unlisted rfl rfl (.refl _ h), rfl⟩
  rename_i native hnative
  refine founding_requireEngine unlisted fun e he => founding_issue unlisted he
    fun g primary same logged => ?_
  have unknown : g.tree.managers.find? ⟨p.network.backend, e.nextHandle⟩ = none := by
    rw [same]
    exact fresh _ e he
  simp only [Registry.findOrCreate_of_find?_none _ unknown]
  generalize hnew : Manager.create ⟨p.network.backend, e.nextHandle⟩ p.account p.network p.mode
    p.storagePath = new
  have near : new.Local (new.admitWallet (g.reads p.network.backend)
      ⟨p.network.backend, primary⟩ native.code) :=
    Manager.local_of_trail (Manager.trail_admitWallet _ _ (by rw [← hnew]; rfl) False.elim)
  have done : (new.admitWallet (g.reads p.network.backend)
      ⟨p.network.backend, primary⟩ native.code).fault = none :=
    Manager.fault_admitWallet _ (by rw [← hnew]; exact Network.currency?_self hnative) _
  have usable := Manager.usable_admitWallet (g.reads p.network.backend) (m := new)
    (by rw [← hnew]; simp [Manager.create]) (by rw [← hnew]; exact hnative) (by rw [← hnew]; rfl)
    (by rw [← hnew]; rfl) ⟨p.network.backend, primary⟩
  simp only [commit, done]
  generalize new.admitWallet (g.reads p.network.backend) ⟨p.network.backend, primary⟩
    native.code = r at near usable
  have place : r.value.handle = ⟨p.network.backend, e.nextHandle⟩ := by
    rw [near.handle, ← hnew]
    rfl
  refine ⟨some r.value.handle, .made unlisted ?_ ?_ ?_ ?_ logged usable, ?_⟩
  · rw [place, ← same]
    exact unknown
  · rw [near.key, ← hnew]
    rfl
  · have entered := Registry.modify_findOrCreate new r.value unknown
    rw [Registry.findOrCreate_of_find?_none new unknown] at entered
    rw [place, ← same, ← entered]
    simp only [count, withManager, place]
    rfl
  · intro n hn
    rcases List.mem_append.1 hn with hn | hn
    · simp only [if_true, List.mem_cons, List.not_mem_nil, or_false] at hn
      rcases hn with rfl | rfl <;> exact congrArg some place.symm
    · rw [near.named n hn, near.handle]
  · rw [place]
    rfl

end Hub

/-! ## Turns -/

namespace Counters

/-- One more callback. -/
def callback (c : Counters) : Counters :=
  { c with commands := c.commands + 1, callbacks := c.callbacks + 1 }

/-- One more request. -/
def request (c : Counters) : Counters :=
  { c with commands := c.commands + 1, requests := c.requests + 1 }

end Counters

namespace Hub

open Handling

variable {k : ManagerHandle} {g h : Hub} {m : Manager} {p : ManagerParams}

theorem process_callback (h : Hub) (b : Backend) (c : EngineCallback) :
    h.process (.callback b c) = concludeCallback h ((h.count .callback).onCallback b c) := rfl

theorem process_request (h : Hub) (q : Request) :
    h.process (.request q) = concludeRequest h ((h.count .request).onRequest q) := rfl

/-- `g` and `ms` are `f` and `ns`, but for the counters, and with maybe less told. -/
structure Relayed (f g : Hub) (ns ms : List Notice) : Prop where
  tree : g.tree = f.tree
  engine : ∀ b, g.engine? b = f.engine? b
  told : ∀ n ∈ ms, n ∈ ns

section

variable {f : Hub} {ns ms : List Notice} {made : Option ManagerHandle} {x : Counters → Counters}

/-! What is done to a hub with other counters is done to the hub. -/

theorem About.of_count (ha : (h.count x).About k g ns) : h.About k g ns :=
  ⟨ha.tree, ha.named, ha.logs⟩

theorem Quiet.of_count (hq : (h.count x).Quiet g ns) : h.Quiet g ns := ⟨hq.tree, hq.told, hq.log⟩

theorem Founds.of_count (hf : (h.count x).Founds p g ns made) : h.Founds p g ns made := by
  cases hf with
  | known listed quiet => exact .known listed quiet.of_count
  | refused unlisted tree told logs => exact .refused unlisted tree told logs
  | made unlisted unknown key tree named log usable =>
    exact .made unlisted unknown key tree named log usable

theorem About.relayed (ha : h.About k f ns) (hr : Relayed f g ns ms) : h.About k g ms :=
  ⟨ha.tree.trans (.of_eq hr.tree), fun n hn => ha.named n (hr.told n hn),
    ha.logs.trans (.of_log fun b => log_congr (hr.engine b))⟩

theorem nil_of_relayed (hr : Relayed f g ns ms) (quiet : ns = []) : ms = [] :=
  List.eq_nil_iff_forall_not_mem.2 fun n hn => by simpa [quiet] using hr.told n hn

theorem Quiet.relayed (hq : h.Quiet f ns) (hr : Relayed f g ns ms) : h.Quiet g ms :=
  ⟨hr.tree.trans hq.tree, nil_of_relayed hr hq.told,
    fun b => (log_congr (hr.engine b)).trans (hq.log b)⟩

theorem Founds.relayed (hf : h.Founds p f ns made) (hr : Relayed f g ns ms) :
    h.Founds p g ms made := by
  have same (b : Backend) : g.log b = f.log b := log_congr (hr.engine b)
  cases hf with
  | known listed quiet => exact .known listed (quiet.relayed hr)
  | refused unlisted tree told logs =>
    exact .refused unlisted (hr.tree.trans tree) (nil_of_relayed hr told)
      (logs.trans (.of_log same))
  | made unlisted unknown key tree named log usable =>
    exact .made unlisted unknown key (hr.tree.trans tree) (fun n hn => named n (hr.told n hn))
      (fun b => (same b).trans (log b)) usable

end

theorem relayed_conclude (r : Handling) (f : Counters → Counters)
    (a : Option (Except HubError Answer)) :
    Relayed r.hub (conclude { r with hub := r.hub.count f } a).hub r.notices
      (conclude { r with hub := r.hub.count f } a).notices :=
  ⟨rfl, fun _ => rfl, fun n hn => by rwa [notices_conclude] at hn⟩

theorem relayed_halt (h : Hub) (r : Handling) :
    Relayed r.hub (halt h r).hub r.notices (halt h r).notices :=
  ⟨rfl, fun _ => rfl, fun n hn => by cases hn⟩

theorem relayed_concludeRequest (h : Hub) (r : Handling) :
    Relayed r.hub (concludeRequest h r).hub r.notices (concludeRequest h r).notices := by
  unfold concludeRequest
  split
  · exact relayed_conclude r id _
  · split
    · exact relayed_halt h r
    · split
      · exact relayed_conclude r id _
      · exact relayed_conclude r _ _
      · exact relayed_conclude r id _

theorem relayed_concludeCallback (h : Hub) (r : Handling) :
    Relayed r.hub (concludeCallback h r).hub r.notices (concludeCallback h r).notices := by
  unfold concludeCallback
  split
  · exact relayed_conclude r id _
  · split
    · exact relayed_halt h r
    · split
      · exact relayed_conclude r _ _
      · exact relayed_conclude r id _

/-- A request is answered with success if its handling ends well. -/
theorem toOption_concludeRequest (h : Hub) (r : Handling) :
    (concludeRequest h r).answer.bind Except.toOption = r.result.toOption := by
  unfold concludeRequest
  split
  · rename_i hr; rw [hr]; rfl
  · rename_i hr
    rw [hr]
    split
    · rfl
    · split <;> rfl

theorem about_callback (hs : h.tree.Sound) (b : Backend) (c : EngineCallback) :
    h.About (c.addressee b) (h.process (.callback b c)).hub (h.process (.callback b c)).notices :=
  (about_onCallback (h := h.count .callback) hs b c).of_count.relayed (relayed_concludeCallback h _)

/-- What a request for a new manager does, and how it is answered. -/
theorem founds_process (fresh : h.Fresh) (p : ManagerParams) :
    ∃ made, h.Founds p (h.process (.request (.createManager p))).hub
        (h.process (.request (.createManager p))).notices made ∧
      (h.process (.request (.createManager p))).answer.bind Except.toOption =
        made.map .manager := by
  obtain ⟨made, founds, result⟩ := founding_createManager (h := h.count .request) fresh p
  exact ⟨made, founds.of_count.relayed (relayed_concludeRequest h _),
    (toOption_concludeRequest h _).trans result⟩

/-- What a command can do to the records and the engines, and what it tells. -/
inductive Effect (h : Hub) (c : Command) (t : Turn) : Prop
  | about {k : ManagerHandle} (names : c.manager? = some k)
      (about : h.About k t.hub t.notices)
  | founds {p : ManagerParams} {made : Option ManagerHandle}
      (asks : c = .request (.createManager p)) (founds : h.Founds p t.hub t.notices made)
  | quiet (quiet : h.Quiet t.hub t.notices)
  | ending (life : t.life = .stopped)

/-- **Commands.** What a command can do, as long as no number is handed out twice. -/
theorem effect_process (hs : h.tree.Sound) (fresh : h.Fresh) (c : Command) :
    h.Effect c (h.process c) := by
  cases c with
  | callback b c => exact .about rfl (about_callback hs b c)
  | request q =>
    have about {k : ManagerHandle} (names : q.manager? = some k) :
        h.Effect (.request q) (h.process (.request q)) :=
      .about names ((about_onRequest (h := h.count .request) hs names).of_count.relayed
        (relayed_concludeRequest h _))
    cases q with
    | createManager p =>
      obtain ⟨made, founds, -⟩ := founds_process fresh p
      exact .founds rfl founds
    | createWallet | connect | disconnect | sync | setMode | createTransfer | submit =>
      exact about rfl
  | answered q result =>
    refine .quiet ⟨?_, rfl, fun b => ?_⟩ <;> simp only [process, onAnswered] <;> split
    · exact tree_announceResult ..
    · rfl
    · rename_i e he; exact log_announceResult (by exact he) ..
    · rfl
  | register | remove | flush => exact .quiet ⟨rfl, rfl, fun _ => rfl⟩
  | shutdown => exact .ending rfl

/-! ## Deleted managers -/

/-- A manager that is deleted refuses everything it is asked for. -/
theorem refused_of_deleted (known : h.tree.manager? k = some m) (deleted : m.state = .deleted)
    {q : Request} (names : q.manager? = some k) :
    (∃ e, h.onRequest q = refuse h e) ∨ ∃ e, h.onRequest q = violate h e := by
  have live (operation : String) (go : Manager → Handling) :
      requireLive h k operation go =
        violate h (.recordDeleted ("manager " ++ k.text) operation) := by
    simp only [requireLive, known, deleted, if_true]
  have engine {b : Backend} {go : Engine → Handling}
      (hgo : ∀ e, (∃ x, go e = refuse h x) ∨ ∃ x, go e = violate h x) :
      (∃ x, requireEngine h b go = refuse h x) ∨ ∃ x, requireEngine h b go = violate h x := by
    unfold requireEngine
    split
    · exact hgo _
    · exact .inr ⟨_, rfl⟩
  cases q with
  | createManager p => cases names
  | createWallet | connect | disconnect | sync | submit =>
    cases names
    exact engine fun e => .inr ⟨_, live _ _⟩
  | setMode j mode =>
    cases names
    refine engine fun e => .inl ?_
    have idle : m.setMode mode = .error (.invalidManagerState m.handle "set mode" m.state.text) :=
      if_pos (.inr deleted)
    simp only [known, idle]
    exact ⟨_, rfl⟩
  | createTransfer p target amount given =>
    cases names
    refine engine fun e => .inr ?_
    split
    · exact ⟨_, rfl⟩
    · exact ⟨_, live _ _⟩

/-- Callbacks for a deleted manager leave it as it is, and queries go their own way. -/
theorem quiet_onCallback_of_deleted (hs : h.tree.Sound) {b : Backend} {c : EngineCallback}
    (known : h.tree.manager? (c.addressee b) = some m) (deleted : m.state = .deleted) :
    h.Quiet (h.onCallback b c).hub (h.onCallback b c).notices := by
  cases plain : c.isQuery with
  | true =>
    cases c with
    | queryRequested i id q => exact quiet_onQuery h b i id q
    | _ => cases plain
  | false =>
    obtain ⟨same, told⟩ := Manager.still_reaction (h.reads b) deleted b c
    simp only [onCallback_eq plain, toManager, known]
    refine ⟨?_, told, fun b => rfl⟩
    change h.tree.put _ = h.tree
    rw [same, Tree.put_self (hs.place known ▸ known)]

/-- **Deleted managers.** A command that names one does nothing to the records, tells nothing and
says nothing to an engine. -/
theorem quiet_process_of_deleted (hs : h.tree.Sound) (known : h.tree.manager? k = some m)
    (deleted : m.state = .deleted) {c : Command} (names : c.manager? = some k) :
    h.Quiet (h.process c).hub (h.process c).notices := by
  cases c with
  | callback b c =>
    cases names
    exact (quiet_onCallback_of_deleted (h := h.count .callback) hs known deleted).of_count.relayed
      (relayed_concludeCallback h _)
  | request q =>
    have quiet (h : Hub) (known : h.tree.manager? k = some m) :
        h.Quiet (h.onRequest q).hub (h.onRequest q).notices := by
      rcases refused_of_deleted known deleted names with ⟨e, he⟩ | ⟨e, he⟩ <;> rw [he]
      · exact quiet_refl h
      · exact quiet_refl h
    exact (quiet (h.count .request) known).of_count.relayed (relayed_concludeRequest h _)
  | answered | register | remove | flush | shutdown => cases names

end Hub

/-! ## Runs until the shutdown -/

namespace Session

theorem log_adjusted (h : Hub) (b : Backend) (x : Setting) (b' : Backend) :
    (h.adjusted b x).log b' = h.log b' := by
  unfold Hub.adjusted
  split
  · rename_i e he; exact Hub.log_withEngine he (by cases x <;> rfl) b'
  · rfl

/-- A property of a session that looks at its records, its logs, its life and its notices holds
until the shutdown if every command before it keeps it, as long as the logs of the engines fit. -/
theorem Run.invariant_of_going {P : Session → Prop} {s s' : Session} (hs : s.Reachable)
    (hrun : s.Run s') (fits : s'.hub.Fits) (going : s'.life ≠ .stopped) (start : P s)
    (hturn : ∀ s c, s.Reachable → s.hub.Fits → s.life = .running →
      (s.hub.process c).life ≠ .stopped → P s → P (s.take c))
    (hstill : ∀ s h, h.tree = s.hub.tree → (∀ b, h.log b = s.hub.log b) → P s →
      P { s with hub := h }) : P s' := by
  induction hrun with
  | refl => exact start
  | @tail s₁ _ hrun hstep ih =>
    cases hstep with
    | command c running =>
      have fits₁ : s₁.hub.Fits := (Hub.grew_process s₁.hub c).fits fits
      exact hturn s₁ c (hs.run hrun) fits₁ running going (ih fits₁ (by simp [running]))
    | setting b x =>
      exact hstill s₁ _ (tree_adjusted s₁.hub b x) (log_adjusted s₁.hub b x)
        (ih ((grew_adjusted s₁.hub b x).fits fits) going)
    | clock now => exact hstill s₁ _ rfl (fun b => by cases b <;> rfl) (ih fits going)

end Session
end WalletHub
