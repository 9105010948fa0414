import Mathlib.Logic.Relation
import WalletHub.Proofs.Handling

/-!
# What the hub does to its engines

`Engine.Move` lists everything that the hub has an engine do. All of it is commands, but for the
answers to queries, which an engine gets only while the hub handles a query or the answer to one
(`Command.isAnswering`). Handling a command moves each engine along a path of such moves, and asks
for nothing unless it is a query (`moves_process`), so every property of engines follows from what
one move does.
-/
namespace WalletHub

/-- One thing that an engine does for the hub; it gets answers to queries if `answering`. -/
inductive Engine.Move (answering : Prop) : Engine → Engine → Prop
  | createManager (e : Engine) (p : ManagerParams) : Move answering e (e.createManager p).engine
  | createWallet (e : Engine) (m : UInt64) (c : Currency) :
      Move answering e (e.createWallet m c).engine
  | createTransfer (e : Engine) (m w : UInt64) (r : TransferRequest) :
      Move answering e (e.createTransfer m w r).engine
  /-- A command that makes nothing. -/
  | plain {α : Type} (e : Engine) (c : EngineCommand) (raised : List EngineCallback) (a : α) :
      Move answering e (e.command c fun e => (e, raised, a)).engine
  | release (e : Engine) (m : UInt64) : Move answering e (e.releaseManager m)
  | announce (asked : answering) (e : Engine) (m : UInt64) (i : RequestId) (q : QueryRequest)
      (r : QueryResult) : Move answering e (e.announce m i q r).1

/-- Whether a callback asks for data. -/
def EngineCallback.isQuery : EngineCallback → Bool
  | .queryRequested .. => true
  | _ => false

/-- Whether an engine may get an answer to a query while the command is handled. -/
def Command.isAnswering : Command → Bool
  | .callback _ c => c.isQuery
  | .answered .. => true
  | _ => false

namespace Hub

open Handling

/-- Each engine of `g` comes of the one of `h`, as `R` says. -/
def Engines (R : Engine → Engine → Prop) (h g : Hub) : Prop :=
  ∀ b, (h.engine? b = none ∧ g.engine? b = none) ∨
    ∃ e e', h.engine? b = some e ∧ g.engine? b = some e' ∧ R e e'

section

variable {R S : Engine → Engine → Prop} {f g h : Hub}

theorem Engines.refl (hR : ∀ e, R e e) (h : Hub) : h.Engines R h := by
  intro b
  cases he : h.engine? b with
  | none => exact .inl ⟨rfl, rfl⟩
  | some e => exact .inr ⟨e, e, rfl, rfl, hR e⟩

theorem Engines.trans (hR : ∀ {a b c}, R a b → R b c → R a c) (hfg : f.Engines R g)
    (hgh : g.Engines R h) : f.Engines R h := by
  intro b
  rcases hfg b with ⟨hf, hg⟩ | ⟨e, e', hf, hg, he⟩ <;>
    rcases hgh b with ⟨hg', hh⟩ | ⟨e₁, e₂, hg', hh, he'⟩
  · exact .inl ⟨hf, hh⟩
  · rw [hg] at hg'; cases hg'
  · rw [hg] at hg'; cases hg'
  · rw [hg] at hg'
    cases hg'
    exact .inr ⟨e, e₂, hf, hh, hR he he'⟩

theorem Engines.mono (hRS : ∀ {a b}, R a b → S a b) (hgh : g.Engines R h) : g.Engines S h :=
  fun b => (hgh b).imp_right fun ⟨e, e', he, he', hR⟩ => ⟨e, e', he, he', hRS hR⟩

theorem engine?_withEngine_of_ne {b b' : Backend} (e : Engine) (hb : b' ≠ b) :
    (h.withEngine b e).engine? b' = h.engine? b' := by
  cases b <;> cases b' <;> first | rfl | exact absurd rfl hb

theorem engines_withEngine (hR : ∀ e, R e e) {b : Backend} {e e' : Engine}
    (he : h.engine? b = some e) (hee : R e e') : h.Engines R (h.withEngine b e') := by
  intro b'
  by_cases hb : b' = b
  · subst hb
    exact .inr ⟨e, e', he, engine?_withEngine_self .., hee⟩
  · rw [engine?_withEngine_of_ne e' hb]
    exact Engines.refl hR h b'

/-- An engine that is there is still there, and comes of what it was. -/
theorem Engines.some (hgh : g.Engines R h) {b : Backend} {e : Engine} (he : g.engine? b = some e) :
    ∃ e', h.engine? b = some e' ∧ R e e' := by
  rcases hgh b with ⟨hg, -⟩ | ⟨e₁, e', he₁, he', hR⟩
  · rw [he] at hg; cases hg
  · rw [he] at he₁
    cases he₁
    exact ⟨e', he', hR⟩

end

/-- Each engine of `g` comes of the one of `h` by doing things for the hub. No event was numbered
meanwhile, and there is a query service if there was one. -/
structure Moved (answering : Prop) (h g : Hub) : Prop where
  engines : h.Engines (Relation.ReflTransGen (Engine.Move answering)) g
  events : g.counters.events = h.counters.events
  client : g.hasClient = h.hasClient

variable {answering : Prop} {f g h : Hub}

theorem Moved.refl (answering : Prop) (h : Hub) : h.Moved answering h :=
  ⟨Engines.refl (fun _ => .refl) h, rfl, rfl⟩

theorem Moved.trans (hfg : f.Moved answering g) (hgh : g.Moved answering h) :
    f.Moved answering h :=
  ⟨hfg.engines.trans (fun hab hbc => hab.trans hbc) hgh.engines, hgh.events.trans hfg.events,
    hgh.client.trans hfg.client⟩

theorem moved_withEngine {b : Backend} {e e' : Engine} (he : h.engine? b = some e)
    (move : Engine.Move answering e e') : h.Moved answering (h.withEngine b e') :=
  ⟨engines_withEngine (fun _ => .refl) he (.single move), by cases b <;> rfl, by cases b <;> rfl⟩

end Hub

/-- A handling that moves the engines of `h`, and asks for something only if `answering`. -/
structure Handling.Moves (answering : Prop) (h : Hub) (r : Handling) : Prop where
  moved : h.Moved answering r.hub
  silent : answering ∨ r.queries = []

/-- The same of a turn, which numbers events. -/
structure Turn.Moves (answering : Prop) (h : Hub) (t : Turn) : Prop where
  engines : h.Engines (Relation.ReflTransGen (Engine.Move answering)) t.hub
  client : t.hub.hasClient = h.hasClient
  silent : answering ∨ t.queries = []

namespace Hub

open Handling

variable {answering : Prop} {h g : Hub}

/-! ## Requests -/

/-- Counting what is not an event does not touch the engines. -/
theorem moves_of_count {f : Counters → Counters} {r : Handling}
    (hf : (f h.counters).events = h.counters.events) (hr : r.Moves answering (h.count f)) :
    r.Moves answering h :=
  ⟨⟨hr.moved.engines, hr.moved.events.trans hf, hr.moved.client⟩, hr.silent⟩

theorem moves_answer (hg : h.Moved answering g) (a : Answer) : (answer g a).Moves answering h :=
  ⟨hg, .inr rfl⟩

theorem moves_refuse (hg : h.Moved answering g) (e : HubError) : (refuse g e).Moves answering h :=
  ⟨hg, .inr rfl⟩

theorem moves_commit (hg : h.Moved answering g) (r : Reaction Manager) (a : Answer) :
    (commit g r a).Moves answering h := ⟨⟨hg.engines, hg.events, hg.client⟩, .inr rfl⟩

theorem moves_issue {α : Type} {backend : Backend} {e : Engine} {reply : EngineReply α}
    {go : Hub → α → Handling} (he : h.engine? backend = some e)
    (move : Engine.Move answering e reply.engine)
    (hgo : ∀ g a, h.Moved answering g → (go g a).Moves answering h) :
    (issue h backend reply go).Moves answering h := by
  have hsent := moved_withEngine he move
  unfold issue
  split
  · exact moves_refuse hsent _
  · rename_i a _
    have hgone := hgo _ a hsent
    exact ⟨hgone.moved, hgone.silent⟩

theorem moves_requireEngine {backend : Backend} {go : Engine → Handling}
    (hgo : ∀ e, h.engine? backend = some e → (go e).Moves answering h) :
    (requireEngine h backend go).Moves answering h := by
  unfold requireEngine
  split
  · rename_i e he; exact hgo e he
  · exact ⟨.refl answering h, .inr rfl⟩

theorem moves_requireLive {k : ManagerHandle} {operation : String} {go : Manager → Handling}
    (hgo : ∀ m, (go m).Moves answering h) :
    (requireLive h k operation go).Moves answering h := by
  unfold requireLive
  split
  · exact moves_refuse (.refl answering h) _
  · split
    · exact ⟨.refl answering h, .inr rfl⟩
    · exact hgo _

/-- Setting a mode back is done in the records alone. -/
theorem moved_resetMode (answering : Prop) (h : Hub) (k : ManagerHandle) (mode : ManagerMode) :
    h.Moved answering (h.resetMode k mode) := by
  have still := Moved.refl answering h
  unfold resetMode
  split
  · exact still
  · split
    · exact still
    · exact ⟨still.engines, still.events, still.client⟩

theorem moves_onRequest (answering : Prop) (h : Hub) (r : Request) :
    (h.onRequest r).Moves answering h := by
  have still := Moved.refl answering h
  cases r with
  | createManager p =>
    simp only [onRequest, createManager]
    split
    · exact moves_answer still _
    · split
      · exact moves_refuse still _
      · exact moves_requireEngine fun e he =>
          moves_issue he (.createManager e p) fun g _ hg =>
            ⟨⟨hg.engines, hg.events, hg.client⟩, .inr rfl⟩
  | createWallet k code =>
    refine moves_requireEngine fun e he => moves_requireLive fun m => ?_
    split
    · exact moves_refuse still _
    · split
      · exact moves_answer still _
      · exact moves_issue he (.createWallet e _ _) fun g _ hg => moves_commit hg _ _
  | connect k =>
    refine moves_requireEngine fun e he => moves_requireLive fun m => ?_
    split
    · exact moves_answer still _
    · exact moves_issue he (.plain e _ _ _) fun g _ hg => moves_answer hg _
  | disconnect k =>
    exact moves_requireEngine fun e he => moves_requireLive fun m =>
      moves_issue he (.plain e _ _ _) fun g _ hg => moves_commit hg _ _
  | sync k =>
    exact moves_requireEngine fun e he => moves_requireLive fun m =>
      moves_issue he (.plain e _ _ _) fun g _ hg => moves_answer hg _
  | setMode k mode =>
    refine moves_requireEngine fun e he => ?_
    split
    · exact moves_refuse still _
    · split
      · exact moves_refuse still _
      · exact moves_answer still _
      · rename_i m' previous _
        have asked : (issue (h.withManager m') k.backend (e.setMode k.raw mode)
            fun g _ => answer g .done).Moves answering (h.withManager m') :=
          moves_issue he (.plain e _ _ _) fun g _ hg => moves_answer hg _
        have sent : h.Moved answering _ :=
          ⟨asked.moved.engines, asked.moved.events, asked.moved.client⟩
        cases reply : (e.setMode k.raw mode).result with
        | ok => simp only [reply]; exact ⟨sent, asked.silent⟩
        | error =>
          simp only [reply]
          exact ⟨sent.trans (moved_resetMode answering _ k previous), asked.silent⟩
  | createTransfer p target amount basis =>
    refine moves_requireEngine fun e he => ?_
    split
    · exact ⟨still, .inr rfl⟩
    · refine moves_requireLive fun m => ?_
      split
      · exact moves_refuse still _
      · split
        · exact moves_refuse still _
        · split
          · exact ⟨still, .inr rfl⟩
          · exact moves_issue he (.createTransfer e _ _ _) fun g _ hg => moves_commit hg _ _
  | submit p auth =>
    refine moves_requireEngine fun e he => moves_requireLive fun m => ?_
    split
    · exact moves_refuse still _
    · split
      · exact moves_issue he (.plain e _ _ _) fun g _ hg => moves_answer hg _
      · exact moves_issue he (.plain e _ _ _) fun g _ hg => moves_answer hg _
      · exact moves_refuse still _

/-! ## Callbacks -/

theorem moved_announceResult (asked : answering) {b : Backend} {e : Engine}
    (he : h.engine? b = some e) (k : UInt64) (i : RequestId) (q : QueryRequest) (r : QueryResult) :
    h.Moved answering (h.announceResult b e k i q r) := by
  unfold announceResult
  cases r with
  | ok a => exact moved_withEngine he (.announce asked e k i q _)
  | error err =>
    have hmoved := moved_withEngine (h := h.count fun c =>
      { c with queriesFailed := c.queriesFailed + 1 }) he (.announce asked e k i q (.error err))
    exact ⟨hmoved.engines, hmoved.events, hmoved.client⟩

theorem moves_onCallback (h : Hub) (b : Backend) (c : EngineCallback) :
    (h.onCallback b c).Moves c.isQuery h := by
  have led : ∀ {answering : Prop} k f, (h.toManager k f).Moves answering h := by
    intro answering k f
    unfold toManager
    split
    · exact moves_refuse (.refl answering h) _
    · exact moves_commit (.refl answering h) _ _
  cases c with
  | manager k event => exact led _ _
  | wallet k w event => exact led _ _
  | transfer k w t event => exact led _ _
  | queryRequested k i q =>
    have asked : (EngineCallback.queryRequested k i q).isQuery := rfl
    have still := (Moved.refl (EngineCallback.queryRequested k i q).isQuery h).engines
    refine ⟨?_, .inl asked⟩
    simp only [onCallback, onQuery]
    split
    · exact ⟨still, rfl, rfl⟩
    · rename_i e he
      split
      · have hmoved := moved_announceResult (h := h.count fun c =>
          c.drop (ResolutionError.unknownManager ⟨b, k⟩).bucket) asked he k i q
        exact ⟨(hmoved _).engines, (hmoved _).events, (hmoved _).client⟩
      · split
        · exact ⟨still, rfl, rfl⟩
        · have hmoved := moved_announceResult asked he k i q
          exact ⟨(hmoved _).engines, (hmoved _).events, (hmoved _).client⟩

/-! ## Commands -/

theorem moved_release (answering : Prop) (h : Hub) (k : ManagerHandle) :
    h.Moved answering (h.release k) := by
  unfold release
  split
  · rename_i e he; exact moved_withEngine he (.release e _)
  · exact .refl answering h

theorem moved_teardown (answering : Prop) (h : Hub) : h.Moved answering h.teardown.1 := by
  have hall : ∀ (ms : List (ManagerHandle × Manager)) (g : Hub), h.Moved answering g →
      h.Moved answering (ms.foldl (fun g m => g.release m.1) g) := by
    intro ms
    induction ms with
    | nil => exact fun _ hg => hg
    | cons m ms ih =>
      exact fun g hg => ih _ (hg.trans (moved_release answering g m.1))
  have hgone := hall h.tree.managers.drain.2 h (.refl answering h)
  exact ⟨hgone.engines, hgone.events, hgone.client⟩

theorem moves_concludeCallback {r : Handling} (hr : r.Moves answering h) :
    (concludeCallback h r).Moves answering h := by
  unfold concludeCallback
  split
  · exact ⟨hr.moved.engines, hr.moved.client, hr.silent⟩
  · split
    · exact ⟨hr.moved.engines, hr.moved.client, .inr rfl⟩
    · split <;> exact ⟨hr.moved.engines, hr.moved.client, hr.silent⟩

theorem moves_concludeRequest {r : Handling} (hr : r.Moves answering h) :
    (concludeRequest h r).Moves answering h := by
  unfold concludeRequest
  split
  · exact ⟨hr.moved.engines, hr.moved.client, hr.silent⟩
  · split
    · exact ⟨hr.moved.engines, hr.moved.client, .inr rfl⟩
    · split <;> exact ⟨hr.moved.engines, hr.moved.client, hr.silent⟩

/-- **Engines.** Handling a command moves the engines; they get answers, and something is asked,
only if the command is a query or the answer to one. -/
theorem moves_process (h : Hub) (c : Command) : (h.process c).Moves c.isAnswering h := by
  cases c with
  | callback b cb =>
    exact moves_concludeCallback
      (moves_of_count rfl (moves_of_count rfl (moves_onCallback _ b cb)))
  | request r =>
    exact moves_concludeRequest
      (moves_of_count rfl (moves_of_count rfl (moves_onRequest _ _ r)))
  | answered q result =>
    have asked : (Command.answered q result).isAnswering := rfl
    have moved : h.Moved (Command.answered q result).isAnswering
        (h.process (.answered q result)).hub := by
      simp only [process, onAnswered]
      split
      · rename_i e he
        have hmoved := moved_announceResult (h := h.count _) asked he q.manager q.id q.request
          result
        exact ⟨hmoved.engines, hmoved.events, hmoved.client⟩
      · exact ⟨(Moved.refl _ h).engines, rfl, rfl⟩
    exact ⟨moved.engines, moved.client, .inl rfl⟩
  | register | remove | flush => exact ⟨(Moved.refl _ h).engines, rfl, .inr rfl⟩
  | shutdown =>
    have gone := moved_teardown (Command.shutdown.isAnswering = true) (h.count fun c =>
      { c with commands := c.commands + 1 })
    exact ⟨gone.engines, gone.client, .inr rfl⟩

/-! ## What turns raise and ask -/

/-- No engine raises anything while a callback is handled. -/
theorem raised_callback (h : Hub) (b : Backend) (c : EngineCallback) :
    (h.process (.callback b c)).raised = [] := by
  have handled (g : Hub) : (g.onCallback b c).raised = [] := by
    have led : ∀ k f, (g.toManager k f).raised = [] := by
      intro k f
      unfold toManager
      split <;> rfl
    cases c with
    | manager | wallet | transfer => exact led _ _
    | queryRequested k i q =>
      simp only [onCallback, onQuery]
      split
      · rfl
      · split
        · rfl
        · split <;> rfl
  simp only [process, concludeCallback]
  split
  · exact handled _
  · split
    · rfl
    · split <;> exact handled _

theorem client_step (h : Hub) (c : Command) : (h.step c).hub.hasClient = h.hasClient := by
  have follow (cs : List (Backend × EngineCallback)) (t : Turn) :
      (cs.foldl Turn.follow t).hub.hasClient = t.hub.hasClient := by
    induction cs generalizing t with
    | nil => rfl
    | cons c cs ih =>
      rw [List.foldl_cons, ih]
      unfold Turn.follow
      split
      · exact (moves_process t.hub _).client
      · rfl
  exact (follow _ _).trans (moves_process h c).client

/-- Queries are sent only if there is somebody to send them to. -/
theorem client_of_queries {h : Hub} {c : Command} (sent : (h.process c).queries ≠ []) :
    h.hasClient = true := by
  have silent := (moves_process h c).silent
  cases c with
  | callback b cb =>
    cases cb with
    | queryRequested k i q =>
      by_contra nobody
      refine sent ?_
      have handled : ∀ g : Hub, g.hasClient = h.hasClient →
          (g.onCallback b (.queryRequested k i q)).queries = [] := by
        intro g same
        simp only [onCallback, onQuery]
        split
        · rfl
        · split
          · rfl
          · rw [if_neg (by rw [same]; exact nobody)]
            rfl
      simp only [process, concludeCallback]
      split
      · exact handled _ rfl
      · split
        · rfl
        · split <;> exact handled _ rfl
    | manager | wallet | transfer => exact absurd (silent.resolve_left Bool.false_ne_true) sent
  | request | register | remove | flush | shutdown =>
    exact absurd (silent.resolve_left Bool.false_ne_true) sent
  | answered q r => exact absurd rfl sent

end Hub
end WalletHub
