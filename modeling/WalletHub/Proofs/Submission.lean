import WalletHub.Proofs.Asking
import WalletHub.Proofs.Course
import WalletHub.Proofs.Independence
import WalletHub.Proofs.Redelivery
import WalletHub.Proofs.Teardown

/-!
# Submissions

A transfer can be submitted as long as its record is created or signed. It is not the submission
that moves the record on, but the engine's report of it, and engines report when they like: while
the request is handled, later, or never. Until then each further request reaches the engine as well
(`submissions_of_submittable`, `submitted_twice`).

* `submissions_process`: from the report on, no command adds to the submissions of a transfer.
* `submissions_end`: so they are over in every run, and right away if the engine reports at once.
-/
namespace WalletHub

/-! ## Records -/

namespace Tree

variable {t t' : Tree} {p : TransferPath} {ns : List Notice}

/-- A transfer is there and past the states in which it can be submitted. -/
def Submitted (t : Tree) (p : TransferPath) : Prop :=
  ∃ x, t.transferState? p = some x ∧ TransferState.submitted.rank ≤ x.rank

/-- The end of a transfer is told. -/
theorem mem_of_closes (closes : .closes ∈ transferMarks p ns) : .transfer p .deleted ∈ ns := by
  obtain ⟨n, hn, mark⟩ := List.mem_filterMap.1 closes
  cases n with
  | transfer q n =>
    simp only [transferMark?, Option.ite_none_right_eq_some, Option.some.injEq] at mark
    obtain ⟨rfl, mark⟩ := mark
    cases n <;> cases mark
    exact hn
  | hub | manager | wallet => cases mark

/-- States move onward, so a transfer that is past being submitted stays so as long as it is there.
-/
theorem Change.submitted {made : ManagerHandle → Prop} {guarded : Prop}
    (hc : Change made guarded t ns t') (ht : t.Sound) (submitted : t.Submitted p)
    (untold : .transfer p .deleted ∉ ns) : t'.Submitted p := by
  obtain ⟨x, there, past⟩ := submitted
  have stage := hc.transferStage ht p
  have lasting : .closes ∉ transferMarks p ns := fun closes => untold (mem_of_closes closes)
  rw [there] at stage
  generalize transferMarks p ns = marks at stage lasting
  generalize state : t'.transferState? p = o at stage
  cases stage with
  | still | spoke => exact ⟨x, state, past⟩
  | @moved _ y allowed =>
    refine ⟨y, state, past.trans ?_⟩
    rcases (TransferState.step_of_allowed allowed).onward with higher | ⟨c, c', rfl, rfl, -⟩
    · exact higher.le
    · exact le_rfl
  | gone | ended => simp at lasting

end Tree

/-! ## Requests -/

/-- Whether a command asks an engine to submit a transfer. -/
def EngineCommand.submits (p : TransferPath) : EngineCommand → Bool
  | .submit m w t _ => m = p.manager.raw ∧ w = p.wallet.raw ∧ t = p.transfer.raw
  | _ => false

namespace Hub

open Handling

variable {h : Hub} {p : TransferPath} {auth : SubmitAuth}

/-- How often the engine of a transfer was asked to submit it. -/
def submissions (h : Hub) (p : TransferPath) : Nat :=
  (h.commands p.manager.backend).countP (·.submits p)

/-- There is an engine for a transfer, its manager is not deleted, and the transfer is there in one
of the states in which it can be submitted. -/
structure Submittable (h : Hub) (p : TransferPath) : Prop where
  engine : (h.engine? p.manager.backend).isSome
  live : ∃ m, h.tree.manager? p.manager = some m ∧ m.state ≠ .deleted
  waiting : ∃ t, h.tree.transfer? p = some t ∧ t.state.rank < TransferState.submitted.rank

/-- A request to submit a transfer does not succeed, and no engine hears of it. -/
structure Declines (h : Hub) (p : TransferPath) (auth : SubmitAuth) : Prop where
  refused : ∀ a, (h.process (.request (.submit p auth))).answer ≠ some (.ok a)
  unheard : ∀ b, (h.process (.request (.submit p auth))).hub.log b = h.log b

theorem commands_eq (h : Hub) (b : Backend) : h.commands b = (h.log b).map (·.command) := by
  unfold commands log
  cases h.engine? b <;> rfl

theorem submittable_count {x : Counters → Counters} :
    (h.count x).Submittable p ↔ h.Submittable p :=
  ⟨fun can => ⟨can.engine, can.live, can.waiting⟩, fun can => ⟨can.engine, can.live, can.waiting⟩⟩

/-- A transfer that can be submitted is handed to its engine. -/
theorem process_of_submittable (can : h.Submittable p) (auth : SubmitAuth) :
    ∃ e, h.engine? p.manager.backend = some e ∧ h.process (.request (.submit p auth)) =
      concludeRequest h (.issue (h.count .request) p.manager.backend
        (e.submit p.manager.raw p.wallet.raw p.transfer.raw auth) fun h _ => .answer h .done) := by
  obtain ⟨e, he⟩ := Option.isSome_iff_exists.1 can.engine
  obtain ⟨m, known, live⟩ := can.live
  obtain ⟨t, there, low⟩ := can.waiting
  refine ⟨e, he, ?_⟩
  have he : (h.count .request).engine? p.manager.backend = some e := he
  have known : (h.count .request).tree.manager? p.manager = some m := known
  have there : (h.count .request).tree.transfer? p = some t := there
  simp only [process_request, onRequest, submit, requireEngine, he, requireLive, known, live,
    if_false, there]
  cases state : t.state with
  | created | signed => rfl
  | submitted | included | failed | deleted => simp [state, TransferState.rank] at low

/-- One that cannot goes no further than the records. -/
theorem submit_of_not_submittable (cannot : ¬h.Submittable p) (auth : SubmitAuth) :
    (h.submit p auth).hub = h ∧ ∃ f, (h.submit p auth).result = .error f := by
  unfold submit requireEngine
  split
  case h_2 => exact ⟨rfl, _, rfl⟩
  rename_i e he
  unfold requireLive
  split
  · exact ⟨rfl, _, rfl⟩
  rename_i m known
  split
  · exact ⟨rfl, _, rfl⟩
  rename_i live
  split
  · exact ⟨rfl, _, rfl⟩
  rename_i t there
  have waiting (low : t.state.rank < TransferState.submitted.rank) : h.Submittable p :=
    ⟨by simp [he], ⟨m, known, live⟩, t, there, low⟩
  split
  · rename_i state
    exact absurd (waiting (by simp [state, TransferState.rank])) cannot
  · rename_i state
    exact absurd (waiting (by simp [state, TransferState.rank])) cannot
  · exact ⟨rfl, _, rfl⟩

theorem declines_of_not_submittable (cannot : ¬h.Submittable p) (auth : SubmitAuth) :
    h.Declines p auth := by
  obtain ⟨left, f, failed⟩ := submit_of_not_submittable (mt submittable_count.1 cannot) auth
  refine ⟨fun a answered => ?_, fun b => ?_⟩
  · have granted := toOption_concludeRequest h ((h.count .request).submit p auth)
    rw [failed, show (concludeRequest h ((h.count .request).submit p auth)).answer = some (.ok a)
      from answered] at granted
    cases granted
  · have relayed := relayed_concludeRequest h ((h.count .request).submit p auth)
    rw [left] at relayed
    exact log_congr (relayed.engine b)

theorem not_submittable_of_submitted (submitted : h.tree.Submitted p) : ¬h.Submittable p := by
  rintro ⟨-, -, t, there, low⟩
  obtain ⟨x, state, past⟩ := submitted
  rw [Tree.transferState?_eq, there] at state
  cases state
  exact absurd low past.not_gt

/-- **Open.** As long as a transfer can be submitted, each request for it reaches its engine. -/
theorem submissions_of_submittable (can : h.Submittable p) (auth : SubmitAuth) :
    (h.process (.request (.submit p auth))).hub.submissions p = h.submissions p + 1 := by
  obtain ⟨e, he, turn⟩ := process_of_submittable can auth
  have issued (go : Hub → Unit → Handling) (still : ∀ g u, (go g u).hub = g) :
      (issue (h.count .request) p.manager.backend
        (e.submit p.manager.raw p.wallet.raw p.transfer.raw auth) go).hub =
        (h.count .request).withEngine p.manager.backend
          (e.submit p.manager.raw p.wallet.raw p.transfer.raw auth).engine := by
    unfold issue
    split
    · rfl
    · exact still _ _
  have there : (h.process (.request (.submit p auth))).hub.engine? p.manager.backend =
      some (e.submit p.manager.raw p.wallet.raw p.transfer.raw auth).engine := by
    rw [turn, (relayed_concludeRequest h _).engine, issued _ fun _ _ => rfl,
      engine?_withEngine_self]
  have logged : (e.submit p.manager.raw p.wallet.raw p.transfer.raw auth).engine.issued = _ :=
    e.issued_command _ fun _ => rfl
  simp only [submissions, commands, there, he, logged, List.map_append, List.countP_append,
    List.map_cons, List.map_nil]
  simp [EngineCommand.submits]

/-- What submits a transfer was asked for by a request for one under the same numbers. -/
theorem submit_of_asks {q : Request} {c : EngineCommand} (asks : q.Asks p.manager.backend c)
    (submits : c.submits p) : ∃ p' auth, q = .submit p' auth ∧
      p.manager.backend = p'.manager.backend ∧ p.manager.raw = p'.manager.raw ∧
      p.wallet.raw = p'.wallet.raw ∧ p.transfer.raw = p'.transfer.raw := by
  cases c with
  | submit m w t auth =>
    cases q with
    | submit p' auth' =>
      obtain ⟨backend, rfl, rfl, rfl, -⟩ := asks
      simp only [EngineCommand.submits, decide_eq_true_eq] at submits
      exact ⟨p', auth', rfl, backend, submits.1.symm, submits.2.1.symm, submits.2.2.symm⟩
    | _ => cases asks
  | _ => cases submits

theorem submissions_shutdown (h : Hub) (p : TransferPath) :
    (h.process .shutdown).hub.submissions p = h.submissions p := by
  rcases (moves_process h .shutdown).engines p.manager.backend with
    ⟨before, after⟩ | ⟨e, -, before, -⟩
  · simp only [submissions, commands, before, after]
  · rw [submissions, commands_shutdown h (by simp [before]), List.countP_append, submissions,
      Nat.add_eq_left, List.countP_eq_zero]
    intro c hc
    obtain ⟨k, -, rfl⟩ := List.mem_map.1 hc
    simp [EngineCommand.submits]

/-- **Over.** No command adds to the submissions of a transfer that is past being submitted. -/
theorem submissions_process (hs : h.tree.Sound) (ordered : h.tree.Normal)
    (submitted : h.tree.Submitted p) (c : Command) :
    (h.process c).hub.submissions p = h.submissions p := by
  by_cases going : c = .shutdown
  · rw [going]
    exact submissions_shutdown h p
  obtain ⟨more, log, asked⟩ := logs_process hs going p.manager.backend
  suffices others : ∀ i ∈ more, ¬i.command.submits p by
    simp only [submissions, commands_eq, log, List.map_append, List.countP_append]
    simpa [List.countP_eq_zero] using others
  intro i hi submits
  obtain ⟨q, rfl, asks⟩ := asked i hi
  obtain ⟨p', auth, rfl, backend, manager, wallet, transfer⟩ := submit_of_asks asks submits
  -- another path with the same numbers has another backend in it, and leads nowhere
  have past := not_submittable_of_submitted submitted
  have declined : ¬h.Submittable p' := by
    intro can
    obtain ⟨t', there', -⟩ := can.waiting
    obtain ⟨x, state, -⟩ := submitted
    rw [Tree.transferState?_eq, Option.map_eq_some_iff] at state
    obtain ⟨t, there, -⟩ := state
    obtain rfl := ordered.unique there there' backend manager wallet transfer
    exact past can
  have unheard := (declines_of_not_submittable declined auth).unheard p.manager.backend
  have nothing : more = [] := by simpa [log] using unheard
  simp [nothing] at hi

end Hub

/-! ## Reports -/

/-- An engine reports that a transfer was submitted. -/
def Command.submitted (p : TransferPath) (hash : Option (List UInt8)) : Command :=
  .callback p.manager.backend
    (.transfer p.manager.raw p.wallet.raw p.transfer.raw (.submitted hash))

/-- If a hash comes with a report, it can be read. -/
def Readable (hash : Option (List UInt8)) : Prop := ∀ raw, hash = some raw → raw.length = 32

theorem Readable.decode {hash : Option (List UInt8)} (readable : Readable hash) (side : Backend) :
    ∃ x, hash.mapM (TransferHash.decode side) = .ok x := by
  cases hash with
  | none => exact ⟨none, rfl⟩
  | some raw =>
    have size : raw.toArray.size = 32 := readable raw rfl
    exact ⟨some ⟨side, ⟨raw.toArray, size⟩⟩, by simp [TransferHash.decode, size]⟩

/-- An engine that calls back at once reports what it accepts. -/
theorem Engine.raised_submit {e : Engine} (echo : e.echo = true) {m w t : UInt64}
    {auth : SubmitAuth} (accepted : (e.submit m w t auth).result = .ok ()) :
    (e.submit m w t auth).raised =
      [.transfer m w t (.submitted (some (handleBytes t ++ List.replicate 24 0)))] := by
  unfold submit command at accepted ⊢
  split at accepted
  · cases accepted
  · rename_i e' took
    have same : e'.echo = e.echo := by
      unfold take at took
      split at took <;> cases took
      rfl
    simp only [same, echo, if_true]

/-- Whatever its state was, a transfer is past being submitted once that is reported. -/
theorem Wallet.submitted_reactTransfer (reads : EngineReads) {w : Wallet} {h : TransferHandle}
    {t : Transfer} (known : w.transfers.find? h = some t) {hash : Option (List UInt8)}
    (readable : Readable hash) :
    ∃ x, (w.reactTransfer reads h (.submitted hash)).value.transferState? h = some x ∧
      TransferState.submitted.rank ≤ x.rank := by
  obtain ⟨x, decoded⟩ := readable.decode w.backend
  simp only [reactTransfer, advanceHashed, decoded]
  by_cases refused : t.state.verdict .submitted = .refused
  · refine ⟨t.state, ?_, ?_⟩
    · rw [advance_refused reads x known refused]
      simp [transferState?, Reaction.discard, find?_withTransfer _ known]
    · cases state : t.state <;>
        simp [state, TransferState.verdict, TransferState.rank] at refused ⊢
  · obtain ⟨b, moved⟩ := value_advance reads x known refused
    refine ⟨.submitted, ?_, le_rfl⟩
    rw [moved]
    simp [transferState?, find?_withTransfer _ known]

namespace Hub

open Handling

variable {h : Hub} {p : TransferPath} {auth : SubmitAuth}

/-- What a transfer reports is put down in the wallet that the transfer is in. -/
theorem respond_transfer (ordered : h.tree.Normal) {m : Manager}
    (known : h.tree.manager? p.manager = some m) (live : m.state ≠ .deleted) {w : Wallet}
    (held : m.wallets.find? p.wallet = some w) {t : Transfer}
    (there : h.tree.transfer? p = some t) (c : TransferCallback) :
    h.respond p.manager.backend (.transfer p.manager.raw p.wallet.raw p.transfer.raw c) =
      (w.reactTransfer (h.reads p.manager.backend) p.transfer c).map fun w' =>
        some { m with wallets := m.wallets.modify p.wallet fun _ => w' } := by
  -- the callback has the raw numbers of the path only
  obtain ⟨wallet, transfer⟩ := ordered.backends there
  have toWallet : (⟨p.manager.backend, p.wallet.raw⟩ : WalletHandle) = p.wallet := by rw [← wallet]
  have toTransfer : (⟨p.manager.backend, p.transfer.raw⟩ : TransferHandle) = p.transfer := by
    rw [← transfer]
  have known : h.tree.manager? ((EngineCallback.transfer p.manager.raw p.wallet.raw
    p.transfer.raw c).addressee p.manager.backend) = some m := known
  simp only [respond, known, EngineCallback.reaction, Manager.reactTransfer, Manager.ifLive, live,
    if_false, toWallet, toTransfer, Manager.withWallet, held]
  rfl

theorem submitted_process (hs : h.tree.Sound) (ordered : h.tree.Normal) {m : Manager}
    (known : h.tree.manager? p.manager = some m) (live : m.state ≠ .deleted) {t : Transfer}
    (there : h.tree.transfer? p = some t) {hash : Option (List UInt8)}
    (readable : Readable hash) : (h.process (.submitted p hash)).hub.tree.Submitted p := by
  obtain ⟨w, hw, ht⟩ := Option.bind_eq_some_iff.1 there
  obtain ⟨m', hm, held⟩ := Option.bind_eq_some_iff.1 hw
  cases known.symm.trans hm
  have held : m.wallets.find? p.wallet = some w := held
  have tree := congrArg Hub.tree (process_of_respond (h := h) (b := p.manager.backend)
    (c := .transfer p.manager.raw p.wallet.raw p.transfer.raw (.submitted hash)) rfl id).1
  rw [respond_transfer ordered known live held there] at tree
  simp only [Reaction.value_map, Tree.write] at tree
  obtain ⟨x, state, past⟩ := w.submitted_reactTransfer (h.reads p.manager.backend) ht readable
  refine ⟨x, ?_, past⟩
  have place : m.handle = p.manager := hs.place known
  generalize (w.reactTransfer (h.reads p.manager.backend) p.transfer (.submitted hash)).value = w'
    at tree state
  have put : (h.tree.put { m with wallets := m.wallets.modify p.wallet fun _ => w' }).manager?
      p.manager = some { m with wallets := m.wallets.modify p.wallet fun _ => w' } := by
    rw [Tree.manager?_put (place.symm ▸ known) (by rfl), if_pos place]
  rw [Command.submitted, tree, Tree.transferState?, put]
  simpa [Manager.transferState?, Registry.find?_modify, held] using state

/-- When a submission succeeds, an engine that calls back at once has raised its report. -/
theorem raised_of_submit {e : Engine} (he : h.engine? p.manager.backend = some e)
    (echo : e.echo = true) (can : h.Submittable p) {a : Answer}
    (answered : (h.process (.request (.submit p auth))).answer = some (.ok a)) :
    (h.process (.request (.submit p auth))).hub.tree = h.tree ∧
      (h.process (.request (.submit p auth))).life = .running ∧
      ∃ hash, Readable hash ∧ (h.process (.request (.submit p auth))).raised =
        [(p.manager.backend,
          .transfer p.manager.raw p.wallet.raw p.transfer.raw (.submitted hash))] := by
  obtain ⟨e', he', turn⟩ := process_of_submittable can auth
  cases he.symm.trans he'
  rw [turn] at answered ⊢
  cases reply : (e.submit p.manager.raw p.wallet.raw p.transfer.raw auth).result with
  | error err => simp [issue, reply, refuse, concludeRequest, isFatal, conclude] at answered
  | ok =>
    simp only [issue, reply, answer, concludeRequest, conclude, e.raised_submit echo reply]
    refine ⟨tree_withEngine .., trivial, some _, fun raw hraw => ?_, rfl⟩
    cases hraw
    simp [Engine.handleBytes]

end Hub

/-! ## Runs -/

namespace Session

variable {s s' : Session} {p : TransferPath}

/-- Until it is told that a transfer is deleted, its engine is not asked to submit it any more, and
no request to submit it succeeds. -/
def SubmissionsOver (s : Session) (p : TransferPath) : Prop :=
  ∀ s', s.Run s' → .transfer p .deleted ∉ s'.notices.drop s.notices.length →
    s'.hub.submissions p = s.hub.submissions p ∧
      (s'.life = .running → ∀ auth, s'.hub.Declines p auth)

theorem submitted_take (hs : s.Reachable) (submitted : s.hub.tree.Submitted p) {c : Command}
    (untold : .transfer p .deleted ∉ (s.hub.process c).notices)
    (running : (s.take c).life = .running) : (s.take c).hub.tree.Submitted p := by
  cases Hub.outcome_process hs.sound c with
  | onward _ told =>
    refine told.told (P := Tree.Sound)
      (Q := fun ns t => .transfer p .deleted ∉ ns → t.Submitted p) (fun hc ht => hc.sound ht)
      (fun hc ht submitted untold => ?_) hs.sound (s := []) (fun _ => submitted) untold
    rw [List.mem_append, not_or] at untold
    exact hc.submitted ht (submitted untold.1) untold.2
  | ending life => cases life.symm.trans running
  | halting life => cases life.symm.trans running

theorem Reachable.submissions_over (hs : s.Reachable)
    (submitted : s.life = .running → s.hub.tree.Submitted p) : s.SubmissionsOver p := by
  intro s' hrun untold
  suffices kept : ∃ told, s'.notices = s.notices ++ told ∧ (.transfer p .deleted ∉ told →
      s'.hub.submissions p = s.hub.submissions p ∧
        (s'.life = .running → s'.hub.tree.Submitted p)) by
    obtain ⟨told, notices, kept⟩ := kept
    rw [notices, List.drop_left] at untold
    obtain ⟨same, submitted⟩ := kept untold
    exact ⟨same, fun running auth => Hub.declines_of_not_submittable
      (Hub.not_submittable_of_submitted (submitted running)) auth⟩
  refine Run.told (P := fun told s' => .transfer p .deleted ∉ told →
    s'.hub.submissions p = s.hub.submissions p ∧ (s'.life = .running → s'.hub.tree.Submitted p))
    hs hrun (fun _ => ⟨rfl, submitted⟩) (fun {mid told} c hmid running kept untold => ?_)
    (fun {mid told} b x kept untold => ?_) fun _ kept => kept
  · rw [List.mem_append, not_or] at untold
    obtain ⟨same, submitted⟩ := kept untold.1
    have now := submitted running
    exact ⟨(Hub.submissions_process hmid.sound hmid.normal now c).trans same,
      submitted_take hmid now untold.2⟩
  · obtain ⟨same, submitted⟩ := kept untold
    refine ⟨?_, fun running => (tree_adjusted mid.hub b x).symm ▸ submitted running⟩
    rw [← same, Hub.submissions, Hub.submissions, Hub.commands_eq, Hub.commands_eq, log_adjusted]

/-- The submissions of a transfer are over once its engine reports one. The report may come when the
request for it is carried out and its records are the same as before. -/
theorem Reachable.submissions_over_of_reported (hs : s.Reachable) (running : s.life = .running)
    {h : Hub} (can : h.Submittable p) (same : s.hub.tree = h.tree) {hash : Option (List UInt8)}
    (readable : Readable hash) : (s.take (.submitted p hash)).SubmissionsOver p := by
  obtain ⟨m, known, live⟩ := can.live
  obtain ⟨t, there, -⟩ := can.waiting
  rw [← same] at known there
  exact (hs.step (.command _ running)).submissions_over fun _ =>
    Hub.submitted_process hs.sound hs.normal known live there readable

/-- A command and the one callback that is raised while it is handled are taken one by one. -/
theorem after_step_of_raised {c : Command} (running : (s.hub.process c).life = .running)
    {b : Backend} {x : EngineCallback} (raised : (s.hub.process c).raised = [(b, x)]) :
    s.after (s.hub.step c) = (s.take c).take (.callback b x) := by
  simp only [Hub.step, raised, List.foldl_cons, List.foldl_nil, Turn.follow, running, take, after,
    List.append_assoc]

/-- A request is answered before the callbacks that were raised meanwhile are taken. -/
theorem answer_step (h : Hub) (c : Command) : (h.step c).answer = (h.process c).answer := by
  have row (cs : List (Backend × EngineCallback)) (t : Turn) :
      (cs.foldl Turn.follow t).answer = t.answer := by
    induction cs generalizing t with
    | nil => rfl
    | cons c cs ih =>
      refine (ih _).trans ?_
      unfold Turn.follow
      split <;> rfl
  exact row _ _

/-- **Submissions.** In every run, for every transfer: a request to submit it reaches its engine if
and only if it can be submitted, and does not succeed otherwise. From the moment at which the engine
reports the submission, or at which the record is past it for another reason, its submissions are
over. So they are after the first one that succeeds, if the engine reports it at once. -/
theorem submissions_end (hs : s.Reachable) (running : s.life = .running) (p : TransferPath) :
    (∀ auth, (s.hub.Submittable p →
        (s.take (.request (.submit p auth))).hub.submissions p = s.hub.submissions p + 1) ∧
      (¬s.hub.Submittable p → s.hub.Declines p auth)) ∧
    (s.hub.tree.Submitted p → s.SubmissionsOver p) ∧
    (∀ hash, s.hub.Submittable p → Readable hash →
      (s.take (.submitted p hash)).SubmissionsOver p) ∧
    ∀ auth e a, s.hub.engine? p.manager.backend = some e → e.echo = true →
      (s.hub.step (.request (.submit p auth))).answer = some (.ok a) →
        (s.after (s.hub.step (.request (.submit p auth)))).SubmissionsOver p := by
  refine ⟨fun auth => ⟨fun can => Hub.submissions_of_submittable can auth,
      fun cannot => Hub.declines_of_not_submittable cannot auth⟩,
    fun submitted => hs.submissions_over fun _ => submitted,
    fun hash can readable => hs.submissions_over_of_reported running can rfl readable,
    fun auth e a he echo answered => ?_⟩
  rw [answer_step] at answered
  have can : s.hub.Submittable p := by
    by_contra cannot
    exact (Hub.declines_of_not_submittable cannot auth).refused a answered
  obtain ⟨tree, going, hash, readable, raised⟩ := Hub.raised_of_submit he echo can answered
  rw [after_step_of_raised going raised]
  exact (hs.step (.command _ running)).submissions_over_of_reported going can tree readable

/-- A transfer that waits to be submitted. Its engine calls back at once if `echo`, and otherwise
whenever it likes. -/
def unsent (echo : Bool) : Session :=
  (opened true false none (some echo)).takes
    [.request (.createManager ⟨⟨"dave", 0⟩, .ethereum true, .apiOnly, "/tmp/dave"⟩),
      .callback .account (.transfer 0x2000 0x2001 0x6000
        (.created ⟨none, none, "1000", .sent, none, none⟩))]

def unsentPath : TransferPath := ⟨⟨.account, 0x2000⟩, ⟨.account, 0x2001⟩, ⟨.account, 0x6000⟩⟩

theorem reachable_unsent (echo : Bool) : (unsent echo).Reachable := (Reachable.opened ..).takes _

theorem submittable_unsent (echo : Bool) : (unsent echo).hub.Submittable unsentPath := by
  have live : ((unsent echo).hub.tree.manager? unsentPath.manager).any (·.state ≠ .deleted) =
      true := by
    cases echo <;> decide +kernel
  have waiting : ((unsent echo).hub.tree.transfer? unsentPath).any
      (fun t => t.state.rank < TransferState.submitted.rank) = true := by
    cases echo <;> decide +kernel
  simp only [Option.any_eq_true, decide_eq_true_eq] at live waiting
  exact ⟨by cases echo <;> decide +kernel, live, waiting⟩

/-- It is submitted once, and then the engine has reported that, at once or by a callback; either
way a second request is in vain. -/
theorem submissions_end_unsent :
    ((unsent true).take (.request (.submit unsentPath (.paperKey "ginger")))).hub.submissions
      unsentPath = 1 ∧
    ((unsent true).after ((unsent true).hub.step
      (.request (.submit unsentPath (.paperKey "ginger"))))).SubmissionsOver unsentPath ∧
    ((unsent false).take (.submitted unsentPath none)).SubmissionsOver unsentPath ∧
    ((unsent false).take (.submitted unsentPath none)).hub.Declines unsentPath
      (.signature [1, 2, 3]) := by
  obtain ⟨each, -, -, atOnce⟩ :=
    submissions_end (reachable_unsent true) (by decide +kernel) unsentPath
  obtain ⟨-, -, later, -⟩ := submissions_end (reachable_unsent false) (by decide +kernel) unsentPath
  have reported := (reachable_unsent false).step
    (.command (.submitted unsentPath none) (by decide +kernel))
  obtain ⟨e, engine, echo⟩ : ∃ e, (unsent true).hub.engine? .account = some e ∧ e.echo = true := by
    have there : ((unsent true).hub.engine? .account).any (·.echo) = true := by decide +kernel
    simpa only [Option.any_eq_true] using there
  have spent := later none (submittable_unsent false) (fun _ none => by cases none)
  refine ⟨?_, atOnce _ e .done engine echo (by decide +kernel), spent, ?_⟩
  · rw [(each _).1 (submittable_unsent true)]
    decide +kernel
  · exact (spent _ .refl (by simp)).2 (by decide +kernel) _

/-- An engine that does not report at once is asked a second time. -/
theorem submitted_twice :
    ¬∀ s : Session, s.Reachable → s.life = .running → ∀ p auth a,
      (s.hub.step (.request (.submit p auth))).answer = some (.ok a) →
        (s.after (s.hub.step (.request (.submit p auth)))).SubmissionsOver p := by
  intro once
  have spent := once (unsent false) (reachable_unsent false) (by decide +kernel) unsentPath
    (.paperKey "ginger") .done (by decide +kernel)
  have again := (spent _ (.single (.command (.request (.submit unsentPath (.paperKey "ginger")))
    (by decide +kernel))) (by decide +kernel)).1
  exact absurd again (by decide +kernel)

end Session
end WalletHub
