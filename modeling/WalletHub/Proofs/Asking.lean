import WalletHub.Proofs.Modes

/-!
# What engines are asked

An engine hears nothing but what it is asked to do for a request, until the shutdown. Each request
has one command of its own (`Request.Asks`), for the engine of the backend that it names, and
whatever is logged while the request is handled is that command (`asks_onRequest`). Callbacks,
answers to queries and changes of the audience leave the logs alone (`logs_process`).
-/
namespace WalletHub

/-- Whether a command of the engine of a backend is the one that a request is carried out by. -/
def Request.Asks (b : Backend) : Request → EngineCommand → Prop
  | .createManager p, .createManager p' => b = p.network.backend ∧ p' = p
  | .createWallet k _, .createWallet m _ => b = k.backend ∧ m = k.raw
  | .connect k, .connect m => b = k.backend ∧ m = k.raw
  | .disconnect k, .disconnect m => b = k.backend ∧ m = k.raw
  | .sync k, .sync m => b = k.backend ∧ m = k.raw
  | .setMode k mode, .setMode m mode' => b = k.backend ∧ m = k.raw ∧ mode' = mode
  | .createTransfer p target amount _, .createTransfer m w r =>
    b = p.manager.backend ∧ m = p.manager.raw ∧ w = p.wallet.raw ∧ r.target = target ∧
      r.amount = amount
  | .submit p auth, .submit m w t auth' =>
    b = p.manager.backend ∧ m = p.manager.raw ∧ w = p.wallet.raw ∧ t = p.transfer.raw ∧
      auth' = auth
  | _, _ => False

namespace Handling

variable {g h : Hub} {q : Request}

/-- All that engines heard on the way from `h` is what the request asks. -/
abbrev Asks (h : Hub) (q : Request) (r : Handling) : Prop :=
  h.Logs (fun b i => q.Asks b i.command) r.hub

theorem asks_commit {P : Backend → Issued → Prop} (hg : h.Logs P g) (r : Reaction Manager)
    (a : Answer) : h.Logs P (commit g r a).hub :=
  hg.trans (.of_log fun b => by cases b <;> rfl)

theorem asks_requireEngine {b : Backend} {go : Engine → Handling}
    (hgo : ∀ e, h.engine? b = some e → (go e).Asks h q) : (requireEngine h b go).Asks h q := by
  unfold requireEngine
  split
  · rename_i e he; exact hgo e he
  · exact .refl _ h

theorem asks_requireLive {k : ManagerHandle} {operation : String} {go : Manager → Handling}
    (hgo : ∀ m, (go m).Asks h q) : (requireLive h k operation go).Asks h q := by
  unfold requireLive
  split
  · exact .refl _ h
  · split
    · exact .refl _ h
    · exact hgo _

/-- The engine logs the command of the request, and it is gone on with its answer. -/
theorem asks_issue {α : Type} {f : Hub} {b : Backend} {e : Engine} {reply : EngineReply α}
    {go : Hub → α → Handling} {more : List Issued} (he : f.engine? b = some e)
    (hf : ∀ b, f.log b = h.log b) (logged : reply.engine.issued = e.issued ++ more)
    (own : ∀ i ∈ more, q.Asks b i.command)
    (hgo : ∀ g a, h.Logs (fun b i => q.Asks b i.command) g → (go g a).Asks h q) :
    (issue f b reply go).Asks h q := by
  have asked : h.Logs (fun b i => q.Asks b i.command) (f.withEngine b reply.engine) :=
    (Hub.Logs.of_log hf).trans
      (Hub.logs_withEngine (P := fun b i => q.Asks b i.command) he logged own)
  unfold issue
  split
  · exact asked
  · exact hgo _ _ asked

/-- A request that an engine is asked for in so many words. -/
theorem asks_command {α : Type} {b : Backend} {e : Engine} {c : EngineCommand}
    {act : Engine → Engine × List EngineCallback × α} {go : Hub → α → Handling}
    (he : h.engine? b = some e) (quiet : ∀ e, (act e).1.issued = e.issued) (own : q.Asks b c)
    (hgo : ∀ g a, h.Logs (fun b i => q.Asks b i.command) g → (go g a).Asks h q) :
    (issue h b (e.command c act) go).Asks h q :=
  asks_issue he (fun _ => rfl) (e.issued_command c quiet)
    (fun i hi => by cases List.mem_singleton.1 hi; exact own) hgo

end Handling

namespace Hub

open Handling

variable {g h : Hub}

theorem asks_createWallet (h : Hub) (k : ManagerHandle) (code : String) :
    (h.createWallet k code).Asks h (.createWallet k code) := by
  refine asks_requireEngine fun e he => asks_requireLive fun m => ?_
  split
  · exact .refl _ h
  split
  · exact .refl _ h
  rename_i c _ _ _
  cases side : e.backend with
  | utxo =>
    have silent : (e.createWallet k.raw c).engine.issued = e.issued ++ [] := by
      simp [Engine.createWallet, side]
    exact asks_issue he (fun _ => rfl) silent (by simp) fun g _ hg => asks_commit hg _ _
  | account =>
    simp only [Engine.createWallet, side]
    exact asks_command he (fun _ => rfl) ⟨rfl, rfl⟩ fun g _ hg => asks_commit hg _ _

/-- A mode that is set back is set back in the records. -/
theorem asks_setMode (h : Hub) (k : ManagerHandle) (mode : ManagerMode) :
    (h.setMode k mode).Asks h (.setMode k mode) := by
  refine asks_requireEngine fun e he => ?_
  split
  · exact .refl _ h
  rename_i m _
  split
  · exact .refl _ h
  · exact .refl _ h
  rename_i m' previous _
  have asked : (issue (h.withManager m') k.backend (e.setMode k.raw mode)
      fun g _ => answer g .done).Asks h (.setMode k mode) :=
    asks_issue (f := h.withManager m') he (fun b => by cases b <;> rfl)
      (e.issued_command (.setMode k.raw mode) fun _ => rfl)
      (fun i hi => by cases List.mem_singleton.1 hi; exact ⟨rfl, rfl, rfl⟩) fun _ _ hg => hg
  cases reply : (e.setMode k.raw mode).result with
  | ok a => simpa only [reply] using asked
  | error err =>
    simp only [reply]
    exact asked.trans (.of_log fun b => log_resetMode ..)

/-- **Requests.** Whatever engines hear of a request is what it asks. -/
theorem asks_onRequest (h : Hub) (q : Request) : (h.onRequest q).Asks h q := by
  cases q with
  | createManager p =>
    simp only [onRequest, createManager]
    split
    · exact .refl _ h
    split
    · exact .refl _ h
    refine asks_requireEngine fun e he => asks_command he (fun _ => rfl) ⟨rfl, rfl⟩ fun g _ hg => ?_
    exact hg.trans (.of_log fun b => by cases b <;> rfl)
  | createWallet k code => exact asks_createWallet h k code
  | connect k =>
    refine asks_requireEngine fun e he => asks_requireLive fun m => ?_
    split
    · exact .refl _ h
    · exact asks_command he (fun _ => rfl) ⟨rfl, rfl⟩ fun _ _ hg => hg
  | disconnect k =>
    exact asks_requireEngine fun e he => asks_requireLive fun m =>
      asks_command he (fun _ => rfl) ⟨rfl, rfl⟩ fun _ _ hg => asks_commit hg _ _
  | sync k =>
    exact asks_requireEngine fun e he => asks_requireLive fun m =>
      asks_command he (fun _ => rfl) ⟨rfl, rfl⟩ fun _ _ hg => hg
  | setMode k mode => exact asks_setMode h k mode
  | createTransfer p target amount given =>
    refine asks_requireEngine fun e he => ?_
    split
    · exact .refl _ h
    refine asks_requireLive fun m => ?_
    split
    · exact .refl _ h
    split
    · exact .refl _ h
    split
    · exact .refl _ h
    exact asks_command he (fun _ => rfl) ⟨rfl, rfl, rfl, rfl, rfl⟩ fun _ _ hg => asks_commit hg _ _
  | submit p auth =>
    have own : (Request.submit p auth).Asks p.manager.backend
        (.submit p.manager.raw p.wallet.raw p.transfer.raw auth) := ⟨rfl, rfl, rfl, rfl, rfl⟩
    refine asks_requireEngine fun e he => asks_requireLive fun m => ?_
    split
    · exact .refl _ h
    split
    · exact asks_command he (fun _ => rfl) own fun _ _ hg => hg
    · exact asks_command he (fun _ => rfl) own fun _ _ hg => hg
    · exact .refl _ h

theorem Unmoded.log (hu : h.Unmoded g) (b : Backend) : g.log b = h.log b := by
  unfold Hub.log
  rcases hu.books b with ⟨he, hg⟩ | ⟨e, e', he, hg, same⟩
  · rw [he, hg]
  · rw [he, hg]
    exact same.issued

/-- **Commands.** Until the shutdown, whatever engines hear is what a request asks. -/
theorem logs_process (hs : h.tree.Sound) {c : Command} (going : c ≠ .shutdown) :
    h.Logs (fun b i => ∃ q, c = .request q ∧ q.Asks b i.command) (h.process c).hub := by
  cases c with
  | callback b c =>
    have done := unmoded_onCallback (h := h.count .callback) hs b c
    exact .of_log fun b' => (log_congr ((relayed_concludeCallback h _).engine b')).trans
      (done.log b')
  | request q =>
    have asked := (asks_onRequest (h.count .request) q).trans
      (.of_log fun b => log_congr ((relayed_concludeRequest h _).engine b))
    exact Logs.mono (fun _ _ own => ⟨q, rfl, own⟩) asked
  | answered q r =>
    refine .of_log fun b => ?_
    simp only [process, onAnswered]
    split
    · rename_i e he; exact log_announceResult (by exact he) ..
    · rfl
  | register | remove | flush => exact .of_log fun b => by cases b <;> rfl
  | shutdown => exact absurd rfl going

end Hub
end WalletHub
