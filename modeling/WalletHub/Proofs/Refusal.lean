import WalletHub.Proofs.Handover
import WalletHub.Proofs.Primary

/-!
# Requests that fail

A request is checked in the records first, then the engine is asked, and then the records follow.
`Handling.Fate` lists how that ends when it does not end well. Nearly always the request is refused
by the records, and no engine hears of it, or by the engine. In both cases nothing was done
(`Handling.Blank`): also a mode that was written before the engine was asked is set back.

Two ends are left over. An engine that hands out the number of a manager twice makes a manager that
cannot be recorded; as long as its log fits in memory it does not. And an engine may accept a
transfer to a target that no one has looked at, which then cannot be read back: the application is
told of an error, and the engine has the transfer.

* `fate_onRequest`: what can become of a request.
* `failures_blank`: a request that is not answered with success leaves the records, tells nothing
  and has nothing raised.
* `refusals_unissued`: a request that is refused by the hub was not heard of by an engine, unless it
  is for a transfer to a target that cannot be read.
* `unread_target_issued`: such a transfer.
-/
namespace WalletHub

/-- Every engine has logged the same commands. -/
def Hub.SameLogs (h g : Hub) : Prop :=
  ∀ b, (g.engine? b).map (·.issued) = (h.engine? b).map (·.issued)

/-- The target of a new transfer is a text that cannot be read as an address. -/
def Request.Unreadable (q : Request) (x : DecodeError) : Prop :=
  ∃ w t amount given,
    q = .createTransfer w (.utxo t) amount given ∧ Address.parse .utxo t = .error x

/-- One more command was accepted by the engine for outputs: the transfer that is asked for. -/
def Request.Accepted (q : Request) (h g : Hub) : Prop :=
  ∃ w target amount given basis e e', q = .createTransfer w target amount given ∧
    h.engine? .utxo = some e ∧ g.engine? .utxo = some e' ∧
      e'.issued =
        e.issued ++ [⟨.createTransfer w.manager.raw w.wallet.raw ⟨target, amount, basis⟩, true⟩]

namespace Handling

/-- Nothing was done for the application: the records of `h` are as they were, nothing is told and
nothing was raised. -/
structure Blank (h : Hub) (r : Handling) : Prop where
  tree : r.hub.tree = h.tree
  notices : r.notices = []
  raised : r.raised = []

/-- How the handling of a request may end. -/
inductive Fate (h : Hub) (q : Request) (r : Handling) : Prop
  | done (a : Answer) (result : r.result = .ok a)
  /-- The hub refuses it, and no engine hears of it. -/
  | refused (f : Fault) (result : r.result = .error f) (own : ∀ e, f ≠ .error (.engine e))
      (blank : r.Blank h) (logs : h.SameLogs r.hub)
  /-- The engine refuses it. -/
  | denied (e : EngineError) (result : r.result = .error (.error (.engine e))) (blank : r.Blank h)
  /-- The engine accepts it, and what it made cannot be read back. -/
  | unreadable (x : DecodeError) (result : r.result = .error (.error (.decode x)))
      (target : q.Unreadable x) (blank : r.Blank h) (accepted : q.Accepted h r.hub)
  /-- The engine hands out a number that is in use. -/
  | reissued (stale : ¬h.Fresh) (tree : r.hub.tree = h.tree) (notices : r.notices = [])

end Handling

open Handling

/-! ## What does not fail any more -/

namespace Manager

/-- A wallet in a currency of the network is admitted. -/
theorem fault_admitWallet (reads : EngineReads) {m : Manager} {code : String} {c : Currency}
    (listed : m.network.currency? code = some c) (h : WalletHandle) :
    (m.admitWallet reads h code).fault = none := by
  simp only [admitWallet, listed]
  split
  · rfl
  · exact Reaction.fault_andThen (Wallet.fault_refreshBalance reads _)
      (Wallet.fault_refreshFeeBasis reads)

/-- A manager that is not deleted can always be disconnected. -/
theorem fault_disconnect {m : Manager} (live : m.state ≠ .deleted) (reason : DisconnectReason) :
    (m.moveTo (.disconnected reason) []).fault = none := by
  rcases m.transition_cases (.disconnected reason) with ⟨-, ht⟩ | ⟨-, ht⟩ | ⟨refused, -⟩
  · simp only [moveTo, ht]
    rfl
  · simp only [moveTo, ht]
    rfl
  · cases hs : m.state with
    | deleted => exact absurd hs live
    | created | connected | syncing => simp [hs, ManagerState.verdict] at refused
    | disconnected r =>
      simp only [hs, ManagerState.verdict] at refused
      split at refused <;> cases refused

/-- Whether a mode can be changed is for the hub to say. -/
theorem own_setMode {m : Manager} {mode : ManagerMode} {err : HubError}
    (hset : m.setMode mode = .error err) : ∀ x, err ≠ .engine x := by
  intro x
  unfold setMode at hset
  split at hset
  · cases hset
    simp
  · split at hset <;> cases hset

end Manager

/-- A transfer that is read is admitted. -/
theorem Wallet.fault_admitTransfer (reads : EngineReads) {w : Wallet} {h : TransferHandle}
    {raw : RawTransfer} {t : Transfer} (read : w.decodeTransfer h raw = .ok t) :
    (w.admitTransfer reads h raw).fault = none := by
  simp only [admitTransfer, read]
  split
  · rfl
  · exact Reaction.fault_andThen rfl (fault_refreshBalance reads)

namespace Hub

variable {h : Hub} {q : Request}

theorem sameLogs_refl (h : Hub) : h.SameLogs h := fun _ => rfl

/-! ## Ends -/

theorem fate_answer (g : Hub) (a : Answer) : (answer g a).Fate h q := .done a rfl

theorem fate_refuse {e : HubError} (own : ∀ x, e ≠ .engine x) : (refuse h e).Fate h q :=
  .refused (.error e) rfl (fun x hx => own x (by cases hx; rfl)) ⟨rfl, rfl, rfl⟩ (sameLogs_refl h)

theorem fate_violate (e : PreconditionError) : (violate h e).Fate h q :=
  .refused (.violation e) rfl (fun _ hx => by cases hx) ⟨rfl, rfl, rfl⟩ (sameLogs_refl h)

theorem fate_requireEngine {backend : Backend} {go : Engine → Handling}
    (hgo : ∀ e, h.engine? backend = some e → (go e).Fate h q) :
    (requireEngine h backend go).Fate h q := by
  unfold requireEngine
  split
  · rename_i e he
    exact hgo e he
  · exact fate_violate _

theorem fate_requireLive {k : ManagerHandle} {operation : String} {go : Manager → Handling}
    (hgo : ∀ m, h.tree.manager? k = some m → m.state ≠ .deleted → (go m).Fate h q) :
    (requireLive h k operation go).Fate h q := by
  unfold requireLive
  split
  · exact fate_refuse (by simp)
  · rename_i m known
    split
    · exact fate_violate _
    · rename_i live
      exact hgo m known live

/-- An engine refuses, or it is gone on with its answer. -/
theorem fate_issue {α : Type} {backend : Backend} {reply : EngineReply α}
    {go : Hub → α → Handling}
    (hgo : ∀ a, reply.result = .ok a → (issue h backend reply go).Fate h q) :
    (issue h backend reply go).Fate h q := by
  cases hr : reply.result with
  | ok a => exact hgo a hr
  | error e =>
    simp only [issue, hr]
    exact .denied e rfl ⟨tree_withEngine .., rfl, rfl⟩

/-- What goes on well ends well. -/
theorem fate_issue_done {α : Type} {backend : Backend} {reply : EngineReply α}
    {go : Hub → α → Handling} (hgo : ∀ g a, ∃ b, (go g a).result = .ok b) :
    (issue h backend reply go).Fate h q := by
  refine fate_issue fun a hr => ?_
  obtain ⟨b, hb⟩ := hgo (h.withEngine backend reply.engine) a
  refine .done b ?_
  simp only [issue, hr]
  exact hb

theorem result_commit {g : Hub} {r : Reaction Manager} (done : r.fault = none) (a : Answer) :
    (commit g r a).result = .ok a := by
  simp only [commit, done]

/-! ## Requests -/

theorem fate_createManager (hs : h.tree.Sound) (p : ManagerParams) :
    (h.createManager p).Fate h (.createManager p) := by
  unfold createManager
  split
  · exact fate_answer h _
  · split
    · exact fate_refuse (by simp)
    · rename_i native hnative
      refine fate_requireEngine fun e he => fate_issue fun (raw, primary) hr => ?_
      obtain ⟨rfl, -⟩ := createManager_of_ok hr
      have same : (h.withEngine p.network.backend (e.createManager p).engine).tree = h.tree :=
        tree_withEngine ..
      cases hk : h.tree.managers.find? ⟨p.network.backend, e.nextHandle⟩ with
      | none =>
        have listed := Network.currency?_self hnative
        refine .done (.manager ⟨p.network.backend, e.nextHandle⟩) ?_
        simp only [issue, hr, same, Registry.findOrCreate_of_find?_none _ hk]
        exact result_commit (Manager.fault_admitWallet _ (by exact listed) _) _
      | some m =>
        have stale : ¬h.Fresh := by
          intro fresh
          have unused : h.tree.managers.find? ⟨p.network.backend, e.nextHandle⟩ = none :=
            fresh _ e he
          rw [unused] at hk
          cases hk
        have known : h.tree.manager? m.handle = some m := (hs.place hk).symm ▸ hk
        -- a manager that was there already may not know the currency of the new one
        rcases m.leaves_admitWallet ((h.withEngine p.network.backend
            (e.createManager p).engine).reads p.network.backend) ⟨p.network.backend, primary⟩
            native.code with admitted | ⟨f, lost⟩
        · refine .done (.manager ⟨p.network.backend, e.nextHandle⟩) ?_
          simp only [issue, hr, same, Registry.findOrCreate_of_find?_some _ hk]
          exact result_commit admitted _
        · have left : ∀ g : Hub, g.tree = h.tree → ∀ a,
              (commit g (.discard m f) a).hub.tree = h.tree := by
            intro g hg a
            change g.tree.put m = h.tree
            rw [hg, Tree.put_self known]
          refine .reissued stale ?_ ?_
          · simp only [issue, hr, same, Registry.findOrCreate_of_find?_some _ hk]
            rw [lost]
            exact left _ rfl .done
          · simp only [issue, hr, same, Registry.findOrCreate_of_find?_some _ hk]
            rw [lost]
            rfl

theorem fate_createWallet (h : Hub) (k : ManagerHandle) (code : String) :
    (h.createWallet k code).Fate h (.createWallet k code) := by
  refine fate_requireEngine fun e _ => fate_requireLive fun m _ _ => ?_
  split
  · exact fate_refuse (by simp)
  · rename_i c listed
    split
    · exact fate_answer h _
    · exact fate_issue_done fun g raw =>
        ⟨_, result_commit (Manager.fault_admitWallet _ (Network.currency?_self listed) _) _⟩

theorem fate_connect (h : Hub) (k : ManagerHandle) : (h.connect k).Fate h (.connect k) := by
  refine fate_requireEngine fun e _ => fate_requireLive fun m _ _ => ?_
  split
  · exact fate_answer h _
  · exact fate_issue_done fun _ _ => ⟨_, rfl⟩

theorem fate_disconnect (h : Hub) (k : ManagerHandle) :
    (h.disconnect k).Fate h (.disconnect k) :=
  fate_requireEngine fun _ _ => fate_requireLive fun _ _ live =>
    fate_issue_done fun _ _ => ⟨_, result_commit (Manager.fault_disconnect live _) _⟩

/-- A mode that the engine refuses is set back. -/
theorem fate_setMode (hs : h.tree.Sound) (k : ManagerHandle) (mode : ManagerMode) :
    (h.setMode k mode).Fate h (.setMode k mode) := by
  refine fate_requireEngine fun e _ => ?_
  split
  · exact fate_refuse (by simp)
  · rename_i m known
    split
    · rename_i hset
      exact fate_refuse (Manager.own_setMode hset)
    · exact fate_answer h _
    · rename_i m' previous hset
      cases reply : (e.setMode k.raw mode).result with
      | ok a => exact .done .done (by simp only [issue, reply]; rfl)
      | error err =>
        have undone := tree_resetMode known (hs.place known) hset
          (g := (h.withManager m').withEngine k.backend (e.setMode k.raw mode).engine)
          (tree_withEngine ..)
        simp only [issue, reply]
        exact .denied err rfl ⟨undone, rfl, rfl⟩

theorem own_feeBasisFor {w : Wallet} {amount : Amount} {given : Option FeeBasis} {err : HubError}
    (hfee : feeBasisFor w amount given = .error err) : ∀ x, err ≠ .engine x := by
  intro x
  unfold feeBasisFor at hfee
  split at hfee
  · split at hfee <;> cases hfee
    simp
  · cases hfee
    simp

/-- What an engine that accepts a transfer does. -/
theorem createTransfer_of_ok {e : Engine} {m w raw : UInt64} {r : TransferRequest}
    {attributes : RawTransfer} (hr : (e.createTransfer m w r).result = .ok (raw, attributes)) :
    attributes = r.attributes ∧ (e.createTransfer m w r).raised = [] ∧
      (e.createTransfer m w r).engine.issued = e.issued ++ [⟨.createTransfer m w r, true⟩] := by
  unfold Engine.createTransfer Engine.command Engine.take at hr ⊢
  cases armed : e.failNext with
  | some message =>
    simp only [armed] at hr
    cases hr
  | none =>
    simp only [armed] at hr ⊢
    cases hr
    refine ⟨rfl, ?_, trivial⟩
    split <;> rfl

/-- A transfer ends well once the engine has accepted it, unless its target cannot be read. -/
theorem fate_createTransfer (hn : h.tree.Normal) (p : WalletPath) (target : Address)
    (amount : Amount) (given : Option FeeBasis) :
    (h.createTransfer p target amount given).Fate h (.createTransfer p target amount given) := by
  refine fate_requireEngine fun e he => ?_
  split
  · exact fate_violate _
  rename_i hside
  have side : target.backend = p.manager.backend := Decidable.not_not.1 hside
  refine fate_requireLive fun m known live => ?_
  split
  · exact fate_refuse (by simp)
  rename_i w hw
  split
  · rename_i hfee
    exact fate_refuse (own_feeBasisFor hfee)
  rename_i basis _
  split
  · exact fate_violate _
  rename_i hbasis
  have paid : basis.backend = p.manager.backend := Decidable.not_not.1 hbasis
  refine fate_issue fun made hr => ?_
  obtain ⟨raw, attributes⟩ := made
  obtain ⟨rfl, quiet, logged⟩ := createTransfer_of_ok hr
  have order : Manager.Normal p.manager m := Registry.All.find? hn known
  have home : w.backend = p.manager.backend := by
    rw [(order.wallets.find? hw).side, order.key]
  have back := Wallet.decode_requested (w := w) (r := ⟨target, amount, basis⟩)
    (paid.trans home.symm) ⟨p.manager.backend, raw⟩
  cases read : Address.decode w.backend target.rawBytes with
  | ok a =>
    rw [read] at back
    refine .done (.transfer (p.child ⟨p.manager.backend, raw⟩)) ?_
    simp only [issue, hr]
    refine result_commit ?_ _
    simp only [Manager.withWallet, hw, Reaction.map]
    exact Wallet.fault_admitTransfer _ back
  | error x =>
    rw [read] at back
    change w.decodeTransfer _ _ = .error x at back
    have lost : m.withWallet p.wallet (fun w => w.admitTransfer ((h.withEngine p.manager.backend
        (e.createTransfer p.manager.raw p.wallet.raw ⟨target, amount, basis⟩).engine).reads
        p.manager.backend) ⟨p.manager.backend, raw⟩
        (TransferRequest.attributes ⟨target, amount, basis⟩)) = .discard m (.decode x) := by
      simp only [Manager.withWallet, hw, Wallet.admitTransfer, back]
      simp only [Reaction.map, Reaction.discard, Registry.modify_const_self hw]
    -- octets are always read, so the target is a text
    have text : ∃ t, target = .utxo t ∧ Address.parse .utxo t = .error x := by
      rw [home, ← side, Address.decode_rawBytes] at read
      cases target with
      | utxo t => exact ⟨t, rfl, read⟩
      | account bytes => cases read
    obtain ⟨t, rfl, unread⟩ := text
    have utxo : p.manager.backend = .utxo := side.symm
    refine .unreadable x ?_ ⟨p, t, amount, given, rfl, unread⟩ ⟨?_, ?_, ?_⟩ ?_
    · simp only [issue, hr, lost]
      rfl
    · simp only [issue, hr, lost]
      change Tree.put _ m = h.tree
      rw [tree_withEngine]
      exact Tree.put_self (order.key.symm ▸ known)
    · simp only [issue, hr, lost]
      rfl
    · simp only [issue, hr, quiet, lost]
      rfl
    · refine ⟨p, .utxo t, amount, given, basis, e, _, rfl, utxo ▸ he, ?_, logged⟩
      simp only [issue, hr, lost]
      rw [← utxo]
      exact engine?_withEngine_self ..

/-- **Requests.** How a request may end, in records that are sound and in order. -/
theorem fate_onRequest (hs : h.tree.Sound) (hn : h.tree.Normal) (q : Request) :
    (h.onRequest q).Fate h q := by
  cases q with
  | createManager p => exact fate_createManager hs p
  | createWallet k code => exact fate_createWallet h k code
  | connect k => exact fate_connect h k
  | disconnect k => exact fate_disconnect h k
  | sync k =>
    exact fate_requireEngine fun _ _ => fate_requireLive fun _ _ _ =>
      fate_issue_done fun _ _ => ⟨_, rfl⟩
  | setMode k mode => exact fate_setMode hs k mode
  | createTransfer p target amount given => exact fate_createTransfer hn p target amount given
  | submit p auth =>
    refine fate_requireEngine fun _ _ => fate_requireLive fun _ _ _ => ?_
    split
    · exact fate_refuse (by simp)
    · split
      · exact fate_issue_done fun _ _ => ⟨_, rfl⟩
      · exact fate_issue_done fun _ _ => ⟨_, rfl⟩
      · exact fate_refuse (by simp)

/-! ## Turns -/

/-- A request whose handling was silent makes a silent turn, with the records and the engines of the
handling. -/
theorem silent_concludeRequest (h : Hub) {r : Handling} (quiet : r.notices = []) :
    (concludeRequest h r).hub.tree = r.hub.tree ∧ (concludeRequest h r).mail = [] ∧
      (∀ b, (concludeRequest h r).hub.engine? b = r.hub.engine? b) ∧
        (r.raised = [] → (concludeRequest h r).raised = []) := by
  unfold concludeRequest
  split
  · exact ⟨rfl, mail_conclude quiet _ _, fun _ => rfl, fun hr => hr⟩
  · split
    · exact ⟨rfl, rfl, fun _ => rfl, fun _ => rfl⟩
    · split
      all_goals exact ⟨rfl, mail_conclude quiet _ _, fun _ => rfl, fun hr => hr⟩

theorem answer_concludeRequest_ok (h : Hub) {r : Handling} {a : Answer} (hr : r.result = .ok a) :
    (concludeRequest h r).answer = some (.ok a) := by
  simp only [concludeRequest, hr]
  rfl

/-- A command that no engine raised a callback for is all that is handled. -/
theorem step_of_quiet {c : Command} (quiet : (h.process c).raised = []) :
    h.step c = h.process c := by
  simp only [step, quiet, List.foldl_nil]
  rw [← quiet]

/-- A request that is handled well is answered, and is all that is handled. -/
theorem concludeRequest_of_ok (h : Hub) {r : Handling} {a : Answer} (done : r.result = .ok a) :
    (concludeRequest h r).answer = some (.ok a) ∧ (concludeRequest h r).life = .running ∧
      (concludeRequest h r).raised = r.raised ∧ (concludeRequest h r).hub.tree = r.hub.tree := by
  simp only [concludeRequest, done]
  exact ⟨rfl, rfl, rfl, rfl⟩

/-- The error that is answered is the one that the handling ended in, in the words for it. -/
theorem error_of_answer {r : Handling} {f : Fault} {e : HubError} (hr : r.result = .error f)
    (failed : (concludeRequest h r).answer = some (.error e)) :
    f = .error e ∨ ∃ p, f = .violation p ∧ e = .precondition p := by
  simp only [concludeRequest, hr] at failed
  split at failed
  · cases failed
  · rename_i lasting
    cases f with
    | error x =>
      cases failed
      exact .inl rfl
    | violation p =>
      cases failed
      exact .inr ⟨p, rfl, rfl⟩
    | overflow => exact absurd rfl lasting

/-- The handling of a request, as it is counted. -/
theorem fate_counted (hs : h.tree.Sound) (hn : h.tree.Normal) (q : Request) :
    ∃ r : Handling, r.Fate h q ∧ h.process (.request q) = concludeRequest h r := by
  have fate := fate_onRequest (h := (h.count fun c => { c with commands := c.commands + 1 }).count
    fun c => { c with requests := c.requests + 1 }) hs hn q
  refine ⟨_, ?_, rfl⟩
  cases fate with
  | done a result => exact .done a result
  | refused f result own blank logs =>
    exact .refused f result own ⟨blank.tree, blank.notices, blank.raised⟩ logs
  | denied e result blank => exact .denied e result ⟨blank.tree, blank.notices, blank.raised⟩
  | unreadable x result target blank accepted =>
    exact .unreadable x result target ⟨blank.tree, blank.notices, blank.raised⟩ accepted
  | reissued stale tree notices => exact .reissued stale tree notices

/-- What engines hear of a request that the hub refuses. -/
theorem unissued_process (hs : h.tree.Sound) (hn : h.tree.Normal) (fresh : h.Fresh) {e : HubError}
    (failed : (h.process (.request q)).answer = some (.error e)) (own : ∀ x, e ≠ .engine x) :
    h.SameLogs (h.process (.request q)).hub ∨
      ∃ x, e = .decode x ∧ q.Unreadable x ∧ q.Accepted h (h.process (.request q)).hub := by
  obtain ⟨r, fate, turn⟩ := fate_counted hs hn q
  rw [turn] at failed ⊢
  cases fate with
  | done a result =>
    rw [answer_concludeRequest_ok h result] at failed
    cases failed
  | refused f result _ blank logs =>
    have engines := (silent_concludeRequest h blank.notices).2.2.1
    exact .inl fun b => by rw [engines, logs b]
  | denied x result blank =>
    rcases error_of_answer result failed with hx | ⟨p, hp, -⟩
    · cases hx
      exact absurd rfl (own x)
    · cases hp
  | unreadable x result target blank accepted =>
    have engines := (silent_concludeRequest h blank.notices).2.2.1
    rcases error_of_answer result failed with hx | ⟨p, hp, -⟩
    · cases hx
      obtain ⟨w, t, amount, given, basis, e, e', hq, he, he', logged⟩ := accepted
      exact .inr ⟨x, rfl, target, w, t, amount, given, basis, e, e', hq, he,
        (engines .utxo).trans he', logged⟩
    · cases hp
  | reissued stale => exact absurd fresh stale

end Hub

namespace Session

/-- **Failures.** In every run, a request that is not answered with success, because of the hub or
of an engine or because it halts the hub, leaves all records and the index as they were and tells
nothing; and, as long as the logs of the engines fit in memory, no engine has raised a callback for
it. -/
theorem failures_blank {s : Session} (hs : s.Reachable) (q : Request)
    (failed : ∀ a, (s.hub.process (.request q)).answer ≠ some (.ok a)) :
    (s.hub.process (.request q)).hub.tree = s.hub.tree ∧
      (s.hub.process (.request q)).mail = [] ∧
        (s.hub.Fits → (s.hub.process (.request q)).raised = []) := by
  obtain ⟨r, fate, turn⟩ := Hub.fate_counted hs.sound hs.normal q
  rw [turn] at failed ⊢
  have blank : r.Blank s.hub → (Hub.concludeRequest s.hub r).hub.tree = s.hub.tree ∧
      (Hub.concludeRequest s.hub r).mail = [] ∧
        (s.hub.Fits → (Hub.concludeRequest s.hub r).raised = []) := by
    intro blank
    obtain ⟨tree, mail, -, raised⟩ := Hub.silent_concludeRequest s.hub blank.notices
    exact ⟨tree.trans blank.tree, mail, fun _ => raised blank.raised⟩
  cases fate with
  | done a result => exact absurd (Hub.answer_concludeRequest_ok s.hub result) (failed a)
  | refused _ _ _ nothing => exact blank nothing
  | denied _ _ nothing => exact blank nothing
  | unreadable _ _ _ nothing => exact blank nothing
  | reissued stale tree notices =>
    obtain ⟨same, mail, -, -⟩ := Hub.silent_concludeRequest s.hub notices
    exact ⟨same.trans tree, mail, fun fits => absurd (hs.fresh fits) stale⟩

/-- The tour goes on with an engine that fails the next command. -/
def armedTour : Session := { tour with hub := tour.hub.adjusted .account (.failNext "offline") }

theorem reachable_armedTour : armedTour.Reachable := reachable_tour.step (.setting ..)

/-- The engine refuses another mode, which is set back. -/
theorem failures_blank_armedTour :
    (armedTour.hub.process (.request (.setMode ⟨.account, 0x2000⟩ .p2pOnly))).answer =
        some (.error (.engine ⟨"set_mode:p2p_only", "offline"⟩)) ∧
      (armedTour.hub.process (.request (.setMode ⟨.account, 0x2000⟩ .p2pOnly))).hub.tree =
        armedTour.hub.tree ∧
      (armedTour.hub.process (.request (.setMode ⟨.account, 0x2000⟩ .p2pOnly))).mail = [] ∧
      (armedTour.hub.process (.request (.setMode ⟨.account, 0x2000⟩ .p2pOnly))).raised = [] := by
  have refused : (armedTour.hub.process (.request (.setMode ⟨.account, 0x2000⟩ .p2pOnly))).answer =
      some (.error (.engine ⟨"set_mode:p2p_only", "offline"⟩)) := by decide +kernel
  have fits : armedTour.hub.Fits := by
    apply Hub.fits_of_short
    intro b
    cases b <;> decide +kernel
  obtain ⟨tree, mail, raised⟩ := failures_blank reachable_armedTour
    (.setMode ⟨.account, 0x2000⟩ .p2pOnly) (by simp [refused])
  exact ⟨refused, tree, mail, raised fits⟩

/-- **Refusals.** In every run, as long as the logs of the engines fit in memory: if a request is
answered with an error that is not an engine's, no engine has logged a command for it. The one
exception is a transfer to a text that cannot be read as an address. Its engine has accepted it
before the application is told that the address is none. -/
theorem refusals_unissued {s : Session} (hs : s.Reachable) (fits : s.hub.Fits) {q : Request}
    {e : HubError} (failed : (s.hub.process (.request q)).answer = some (.error e))
    (own : ∀ x, e ≠ .engine x) :
    s.hub.SameLogs (s.hub.process (.request q)).hub ∨
      ∃ x, e = .decode x ∧ q.Unreadable x ∧
        q.Accepted s.hub (s.hub.process (.request q)).hub :=
  Hub.unissued_process hs.sound hs.normal (hs.fresh fits) failed own

/-- For a target that was read from a text there is no exception. -/
theorem refusals_unissued_of_parse {s : Session} (hs : s.Reachable) (fits : s.hub.Fits)
    {w : WalletPath} {side : Backend} {raw : String} {target : Address} {amount : Amount}
    {given : Option FeeBasis} {e : HubError} (read : Address.parse side raw = .ok target)
    (failed : (s.hub.process (.request (.createTransfer w target amount given))).answer =
      some (.error e)) (own : ∀ x, e ≠ .engine x) :
    s.hub.SameLogs (s.hub.process (.request (.createTransfer w target amount given))).hub := by
  rcases Hub.unissued_process hs.sound hs.normal (hs.fresh fits) failed own with
    same | ⟨x, -, ⟨_, t, _, _, hq, unread⟩, -⟩
  · exact same
  · cases hq
    have again := Address.decode_of_parse read
    have utxo : side = .utxo := (Address.backend_of_decode again).symm
    have back : Address.decode .utxo (Address.rawBytes (.utxo t)) = Address.parse .utxo t :=
      Address.decode_rawBytes (.utxo t)
    rw [utxo, back, unread] at again
    cases again

/-- A wallet on a chain of outputs. -/
def payer : Session :=
  (opened false false (some false) none).takes
    [.request (.createManager ⟨⟨"dave", 0⟩, .bitcoin true, .apiOnly, "/tmp/dave"⟩)]

/-- A transfer from it. -/
def payment (target : Address) (currency : String) : Request :=
  .createTransfer ⟨⟨.utxo, 0x1000⟩, ⟨.utxo, 0x1001⟩⟩ target ⟨.ofUInt64 1000, currency, 8⟩
    (some (.utxo 1000 226))

/-- An amount of another currency is refused, and the engine does not hear of it. -/
theorem refusals_unissued_payer :
    (payer.hub.process (.request (payment (.utxo "nowhere!") "eth"))).answer =
        some (.error (.invalidRequest "create transfer"
          "amount is in eth but the wallet holds btc")) ∧
      payer.hub.SameLogs (payer.hub.process (.request (payment (.utxo "nowhere!") "eth"))).hub := by
  have refused : (payer.hub.process (.request (payment (.utxo "nowhere!") "eth"))).answer =
      some (.error (.invalidRequest "create transfer"
        "amount is in eth but the wallet holds btc")) := by decide +kernel
  have fits : payer.hub.Fits := by
    apply Hub.fits_of_short
    intro b
    cases b <;> decide +kernel
  refine ⟨refused, ?_⟩
  rcases refusals_unissued ((Reachable.opened ..).takes _) fits refused (by simp) with
    same | ⟨x, hx, -⟩
  · exact same
  · cases hx

/-- Engines do not always hear nothing of a request that is refused. -/
theorem unread_target_issued :
    ¬∀ s : Session, s.Reachable → ∀ q e, (s.hub.process (.request q)).answer = some (.error e) →
      (∀ x, e ≠ .engine x) → s.hub.SameLogs (s.hub.process (.request q)).hub := by
  intro h
  have refused : (payer.hub.process (.request (payment (.utxo "nowhere!") "btc"))).answer =
      some (.error (.decode (.invalidAddress .utxo
        "invalid base58check: provided string contained invalid character '!' at byte 7"))) := by
    decide +kernel
  have same := h payer ((Reachable.opened ..).takes _) _ _ refused (by simp)
  exact absurd (same .utxo) (by decide +kernel)

end Session
end WalletHub
