import WalletHub.Hub
import WalletHub.Proofs.Change.Tree
import WalletHub.Proofs.Fault

/-!
# Handlings tell what they do

Every handling of a request or a callback is a trail of changes of the records, told by its notices.
The one exception is a number of confirmations that cannot be held, which ends a handling in the
middle. From this follows what a turn of the hub can be.

* `faithful_onRequest`, `faithful_onCallback`: handlings.
* `outcome_process`: a turn goes on and tells all it did, or it is the last one.
-/
namespace WalletHub

namespace Hub

/-- No engine is about to hand out the number of a manager that is known. -/
def Fresh (h : Hub) : Prop :=
  ∀ b e, h.engine? b = some e → h.tree.manager? ⟨b, e.nextHandle⟩ = none

/-- The number of `k` was the next one of its engine, and it is used up in `g`. -/
def Makes (h g : Hub) (k : ManagerHandle) : Prop :=
  ∃ e e', h.engine? k.backend = some e ∧ g.engine? k.backend = some e' ∧ k.raw = e.nextHandle ∧
    e'.nextHandle = e.nextHandle + 2

/-- One change of the records of `h` on the way to `g`. -/
abbrev Change (h g : Hub) : Tree → List Notice → Tree → Prop := Tree.Change (h.Makes g) h.Fresh

@[simp] theorem tree_withEngine (h : Hub) (b : Backend) (e : Engine) :
    (h.withEngine b e).tree = h.tree := by
  cases b <;> rfl

@[simp] theorem engine?_withEngine_self (h : Hub) (b : Backend) (e : Engine) :
    (h.withEngine b e).engine? b = some e := by
  cases b <;> rfl

end Hub

/-- A handling tells all it did to the records of `h`. It ends well, in an error, or because of a
precondition, and then it has done nothing. -/
structure Handling.Faithful (h : Hub) (r : Handling) : Prop where
  told : Trail (h.Change r.hub) h.tree r.notices r.hub.tree
  fault : ∀ f, r.result = .error f →
    (∃ e, f = .error e) ∨ ((∃ e, f = .violation e) ∧ r.notices = [] ∧ r.hub.tree = h.tree)

namespace Handling

variable {h g : Hub}

theorem faithful_answer (hg : g.tree = h.tree) (a : Answer) : (answer g a).Faithful h :=
  ⟨hg ▸ .still _, fun f hf => by cases hf⟩

theorem faithful_refuse (hg : g.tree = h.tree) (e : HubError) : (refuse g e).Faithful h :=
  ⟨hg ▸ .still _, fun f hf => by cases hf; exact .inl ⟨e, rfl⟩⟩

theorem faithful_violate (e : PreconditionError) : (violate h e).Faithful h :=
  ⟨.still _, fun f hf => by cases hf; exact .inr ⟨⟨e, rfl⟩, rfl, rfl⟩⟩

/-- Counting is not told. -/
theorem faithful_of_count {r : Handling} {f : Counters → Counters}
    (hr : r.Faithful (h.count f)) : r.Faithful h :=
  ⟨hr.told, hr.fault⟩

/-- A reaction that leaves something ends a handling in nothing but errors. -/
theorem error_commit {b : Manager} {r : Reaction Manager} {a : Answer} {f : Fault}
    (leaves : r.Leaves b) (hf : (commit h r a).result = .error f) : ∃ e, f = .error e := by
  simp only [commit] at hf
  split at hf
  · cases hf
  · rename_i hr
    cases hf
    obtain ⟨e, he, -⟩ := leaves.error hr
    exact ⟨e, he⟩

theorem faithful_commit {m b : Manager} {r : Reaction Manager} (a : Answer)
    (hg : g.tree = h.tree) (known : h.tree.manager? m.handle = some m)
    (trail : Trail (Manager.Step h.Fresh) m r.notices r.value) (leaves : r.Leaves b) :
    (commit g r a).Faithful h :=
  ⟨hg ▸ Tree.trail_manager (hg ▸ known) trail, fun _ hf => .inl (error_commit leaves hf)⟩

/-- A handling with something done before it, and told, and something silent after it. -/
theorem faithful_within {u : Tree} {r r' : Handling} {opened : List Notice}
    (before : Trail (h.Change r'.hub) h.tree opened u)
    (told : Trail (h.Change r'.hub) u r.notices r.hub.tree)
    (after : Trail (h.Change r'.hub) r.hub.tree [] r'.hub.tree)
    (notices : r'.notices = opened ++ r.notices) (result : r'.result = r.result)
    (error : ∀ f, r.result = .error f → ∃ e, f = .error e) : r'.Faithful h := by
  refine ⟨?_, fun f hf => .inl (error f (result ▸ hf))⟩
  rw [notices]
  simpa using (before.trans told).trans after

theorem faithful_issue {α : Type} {backend : Backend} {reply : EngineReply α}
    {go : Hub → α → Handling}
    (hgo : ∀ g a, g.tree = h.tree → g.engine? backend = some reply.engine →
      reply.result = .ok a → (go g a).Faithful h) : (issue h backend reply go).Faithful h := by
  unfold issue
  cases hr : reply.result with
  | error e => exact faithful_refuse (Hub.tree_withEngine ..) (.engine e)
  | ok a =>
    have hf := hgo _ a (Hub.tree_withEngine ..) (Hub.engine?_withEngine_self ..) hr
    exact ⟨hf.told, hf.fault⟩

theorem faithful_requireEngine {backend : Backend} {go : Engine → Handling}
    (hgo : ∀ e, h.engine? backend = some e → (go e).Faithful h) :
    (requireEngine h backend go).Faithful h := by
  unfold requireEngine
  split
  · rename_i e he; exact hgo e he
  · exact faithful_violate _

theorem faithful_requireLive {k : ManagerHandle} {operation : String} {go : Manager → Handling}
    (hgo : ∀ m, h.tree.manager? k = some m → m.state ≠ .deleted → (go m).Faithful h) :
    (requireLive h k operation go).Faithful h := by
  unfold requireLive
  split
  · exact faithful_refuse rfl _
  · rename_i m known
    split
    · exact faithful_violate _
    · rename_i live; exact hgo m known live

end Handling

namespace Hub

open Handling

/-! ## Requests -/

/-- What a command of an engine that is accepted does and returns. -/
theorem command_of_ok {α : Type} {e : Engine} {c : EngineCommand}
    {act : Engine → Engine × List EngineCallback × α} {a : α}
    (hr : (e.command c act).result = .ok a) :
    (e.command c act).engine = (act (e.take c).1).1 ∧ (act (e.take c).1).2.2 = a := by
  unfold Engine.command at hr ⊢
  split at hr
  · cases hr
  · rename_i e' he
    cases hr
    rw [he]
    exact ⟨rfl, rfl⟩

theorem nextHandle_take (e : Engine) (c : EngineCommand) :
    (e.take c).1.nextHandle = e.nextHandle := by
  unfold Engine.take
  split <;> rfl

/-- A new manager has the number that its engine hands out next, and uses it up. -/
theorem createManager_of_ok {e : Engine} {p : ManagerParams} {raw primary : UInt64}
    (hr : (e.createManager p).result = .ok (raw, primary)) :
    raw = e.nextHandle ∧ (e.createManager p).engine.nextHandle = e.nextHandle + 2 := by
  obtain ⟨he, ha⟩ := command_of_ok hr
  simp only [nextHandle_take] at ha
  refine ⟨(congrArg Prod.fst ha).symm, ?_⟩
  rw [Engine.createManager, he]
  simp only [nextHandle_take]

/-- Writing the index is silent. -/
theorem trail_index {made : ManagerHandle → Prop} {guarded : Prop} (t : Tree)
    (index : Table (String × String) ManagerHandle) (r : Except Fault Answer) :
    Trail (Tree.Change made guarded) t []
      (match r with
        | .ok _ => { t with index := index }
        | .error _ => t) := by
  cases r with
  | ok a => exact .one .indexed
  | error f => exact .still t

theorem faithful_createManager {h : Hub} (hs : h.tree.Sound) (p : ManagerParams) :
    (h.createManager p).Faithful h := by
  unfold createManager
  split
  · exact faithful_answer rfl _
  · split
    · exact faithful_refuse rfl _
    · rename_i native hnative
      refine faithful_requireEngine fun e he => faithful_issue fun g (raw, primary) hg hge hr => ?_
      obtain ⟨rfl, hnext⟩ := createManager_of_ok hr
      cases hk : g.tree.managers.find? ⟨p.network.backend, e.nextHandle⟩ with
      | none =>
        let m := Manager.create ⟨p.network.backend, e.nextHandle⟩ p.account p.network p.mode
          p.storagePath
        have hnew : Tree.Change (h.Makes g) h.Fresh g.tree _ _ :=
          .managerCreated (m := m) hk ⟨e, _, he, hge, rfl, hnext⟩ rfl rfl rfl rfl rfl rfl
            (Option.isSome_of_eq_some hnative)
        have known : Tree.manager? { g.tree with managers :=
            (g.tree.managers.findOrCreate ⟨p.network.backend, e.nextHandle⟩ m).1 } m.handle =
            some m := by
          rw [Tree.manager?, Registry.find?_findOrCreate, hk]
          exact if_pos rfl
        rw [Registry.findOrCreate_of_find?_none m hk] at hnew known
        simp only [Registry.findOrCreate_of_find?_none _ hk]
        exact faithful_within (hg ▸ .one hnew)
          (Tree.trail_manager known
            (Manager.trail_admitWallet _ _ rfl fun _ => by simp [m, Manager.create]))
          (trail_index _ _ _) rfl rfl
          fun _ => error_commit (Manager.leaves_admitWallet m _ _ _)
      | some m =>
        have place : m.handle = ⟨p.network.backend, e.nextHandle⟩ := hs.place (hg ▸ hk)
        simp only [Registry.findOrCreate_of_find?_some _ hk]
        exact faithful_within (hg ▸ .still g.tree)
          (Tree.trail_manager (place ▸ hk)
            (Manager.trail_admitWallet _ _ (by rw [place]) fun fresh => by
              have hnone : g.tree.managers.find? _ = none := hg ▸ fresh _ e he
              rw [hnone] at hk
              cases hk))
          (trail_index _ _ _) rfl rfl
          fun _ => error_commit (Manager.leaves_admitWallet m _ _ _)

theorem faithful_createWallet {h : Hub} (hs : h.tree.Sound) (k : ManagerHandle) (code : String) :
    (h.createWallet k code).Faithful h := by
  refine faithful_requireEngine fun e _ => faithful_requireLive fun m known live => ?_
  obtain rfl := hs.place known
  split
  · exact faithful_refuse rfl _
  · split
    · exact faithful_answer rfl _
    · exact faithful_issue fun g raw hg _ _ =>
        faithful_commit _ hg known (Manager.trail_admitWallet _ _ rfl fun _ => live)
          (Manager.leaves_admitWallet m _ _ _)

theorem faithful_disconnect {h : Hub} (hs : h.tree.Sound) (k : ManagerHandle) :
    (h.disconnect k).Faithful h := by
  refine faithful_requireEngine fun e _ => faithful_requireLive fun m known live => ?_
  obtain rfl := hs.place known
  exact faithful_issue fun g _ hg _ _ =>
    faithful_commit _ hg known (Manager.trail_moveTo (fun _ => live) (by simp) [] (by simp))
      (Manager.leaves_moveTo m _ _)

/-- A mode that was changed can be set back, and then nothing was changed. -/
theorem of_setMode {m m' : Manager} {mode previous : ManagerMode}
    (hset : m.setMode mode = .ok (m', some previous)) :
    m.state ≠ .deleted ∧ m' = { m with mode := mode } ∧
      m'.setMode previous = .ok (m, some mode) := by
  unfold Manager.setMode at hset
  split at hset
  · cases hset
  · rename_i idle
    split at hset <;> cases hset
    rename_i other
    refine ⟨fun hd => idle (.inr hd), rfl, ?_⟩
    simp only [Manager.setMode, idle, if_false, Ne.symm other]

/-- A manager is set back to the mode that it had. -/
theorem tree_resetMode {h g : Hub} {k : ManagerHandle} {m m' : Manager}
    {mode previous : ManagerMode} (known : h.tree.manager? k = some m) (place : m.handle = k)
    (hset : m.setMode mode = .ok (m', some previous)) (hg : g.tree = h.tree.put m') :
    (g.resetMode k previous).tree = h.tree := by
  obtain ⟨-, hm', hback⟩ := of_setMode hset
  subst place
  have same : m'.handle = m.handle := by rw [hm']
  have hk : g.tree.manager? m.handle = some m' := by
    rw [hg, Tree.manager?_put known same, if_pos rfl]
  have hput : (h.tree.put m').put m = h.tree.put m := by
    simp only [Tree.put, same, Registry.modify_modify]
  simp only [resetMode, hk, hback]
  change g.tree.put m = h.tree
  rw [hg, hput, Tree.put_self known]

theorem faithful_setMode {h : Hub} (hs : h.tree.Sound) (k : ManagerHandle) (mode : ManagerMode) :
    (h.setMode k mode).Faithful h := by
  refine faithful_requireEngine fun e _ => ?_
  split
  · exact faithful_refuse rfl _
  · rename_i m known
    have place := hs.place known
    split
    · exact faithful_refuse rfl _
    · exact faithful_answer rfl _
    · rename_i m' previous hset
      obtain ⟨live, rfl, -⟩ := of_setMode hset
      have told : ∀ made, Trail (Tree.Change made h.Fresh) h.tree []
          (h.tree.put { m with mode := mode }) := fun _ =>
        Tree.trail_manager (place ▸ known) (Manager.trail_one (fun _ => live) .modeSet)
      cases reply : (e.setMode k.raw mode).result with
      | ok a =>
        simp only [issue, reply]
        exact ⟨(Hub.tree_withEngine ..).symm ▸ told _, fun f hf => by cases hf⟩
      | error err =>
        simp only [issue, reply]
        have undone := tree_resetMode known place hset (g := (h.withManager _).withEngine
          k.backend (e.setMode k.raw mode).engine) (Hub.tree_withEngine ..)
        exact ⟨undone.symm ▸ .still _, fun f hf => by cases hf; exact .inl ⟨_, rfl⟩⟩

theorem faithful_createTransfer {h : Hub} (hs : h.tree.Sound) (p : WalletPath)
    (target : Address) (amount : Amount) (given : Option FeeBasis) :
    (h.createTransfer p target amount given).Faithful h := by
  refine faithful_requireEngine fun e _ => ?_
  split
  · exact faithful_violate _
  · refine faithful_requireLive fun m known live => ?_
    split
    · exact faithful_refuse rfl _
    · split
      · exact faithful_refuse rfl _
      · split
        · exact faithful_violate _
        · refine faithful_issue fun g made hg _ _ => ?_
          exact faithful_commit _ hg ((hs.place known).symm ▸ known)
            (Manager.trail_withWallet (fun _ => live) (hs.sound known) fun w place _ =>
              Wallet.trail_admitTransfer _ w made.2 (by rw [place, hs.place known]))
            (Manager.leaves_withWallet_self fun w => w.leaves_admitTransfer _ _ made.2)

/-- A request that only asks an engine to do something leaves the records. -/
theorem faithful_ask {h : Hub} {backend : Backend} (reply : EngineReply Unit) :
    (issue h backend reply fun g _ => answer g .done).Faithful h :=
  faithful_issue fun _ _ hg _ _ => faithful_answer hg .done

theorem faithful_submit {h : Hub} (p : TransferPath) (auth : SubmitAuth) :
    (h.submit p auth).Faithful h := by
  refine faithful_requireEngine fun e _ => faithful_requireLive fun m _ _ => ?_
  split
  · exact faithful_refuse rfl _
  · split
    · exact faithful_ask _
    · exact faithful_ask _
    · exact faithful_refuse rfl _

/-- **Requests.** Whatever a request does to the records is told. -/
theorem faithful_onRequest {h : Hub} (hs : h.tree.Sound) (r : Request) :
    (h.onRequest r).Faithful h := by
  cases r with
  | createManager p => exact faithful_createManager hs p
  | createWallet k code => exact faithful_createWallet hs k code
  | connect k =>
    refine faithful_requireEngine fun e _ => faithful_requireLive fun m _ _ => ?_
    split
    · exact faithful_answer rfl _
    · exact faithful_ask _
  | disconnect k => exact faithful_disconnect hs k
  | sync k =>
    exact faithful_requireEngine fun e _ => faithful_requireLive fun m _ _ => faithful_ask _
  | setMode k mode => exact faithful_setMode hs k mode
  | createTransfer p target amount basis => exact faithful_createTransfer hs p target amount basis
  | submit p auth => exact faithful_submit p auth

/-! ## Callbacks -/

/-- A height at which confirmations cannot be counted was taken over, without a word. -/
structure Overflowed (t : Tree) (r : Handling) : Prop where
  notices : r.notices = []
  fault : r.result = .error .overflow
  tree : ∃ m height, t.manager? m.handle = some m ∧ r.hub.tree = t.put { m with height := height }

theorem tree_announceResult (h : Hub) (b : Backend) (e : Engine) (k : UInt64) (i : RequestId)
    (q : QueryRequest) (r : QueryResult) : (h.announceResult b e k i q r).tree = h.tree := by
  unfold announceResult
  cases r <;> cases b <;> rfl

/-- A query leaves the records, says nothing and does not fail. -/
theorem silent_onQuery (h : Hub) (b : Backend) (k : UInt64) (i : RequestId) (q : QueryRequest) :
    (h.onQuery b k i q).notices = [] ∧ (h.onQuery b k i q).hub.tree = h.tree ∧
      (h.onQuery b k i q).result = .ok .done := by
  unfold onQuery
  split
  · exact ⟨rfl, rfl, rfl⟩
  · split
    · exact ⟨rfl, tree_announceResult .., rfl⟩
    · split
      · exact ⟨rfl, rfl, rfl⟩
      · exact ⟨rfl, tree_announceResult .., rfl⟩

theorem faithful_onQuery (h : Hub) (b : Backend) (k : UInt64) (i : RequestId) (q : QueryRequest) :
    (h.onQuery b k i q).Faithful h := by
  obtain ⟨hn, ht, ha⟩ := silent_onQuery h b k i q
  refine ⟨?_, fun f hf => by rw [ha] at hf; cases hf⟩
  rw [hn, ht]
  exact .still _

theorem faithful_toManager {h : Hub} (hs : h.tree.Sound) (k : ManagerHandle)
    {f : Manager → Reaction Manager} {g : Manager → Manager}
    (trail : ∀ m, m.handle = k → m.Sound →
      Trail (Manager.Step h.Fresh) m (f m).notices (f m).value)
    (leaves : ∀ m, (f m).Leaves (g m)) : (h.toManager k f).Faithful h := by
  unfold toManager
  split
  · exact faithful_refuse rfl _
  · rename_i m known
    obtain rfl := hs.place known
    exact faithful_commit _ rfl known (trail m rfl (hs.sound known)) (leaves m)

/-- **Callbacks.** Whatever a callback does to the records is told, unless confirmations cannot be
counted. -/
theorem faithful_onCallback {h : Hub} (hs : h.tree.Sound) (b : Backend) (c : EngineCallback) :
    (h.onCallback b c).Faithful h ∨ Overflowed h.tree (h.onCallback b c) := by
  cases c with
  | manager k event =>
    simp only [onCallback, toManager]
    split
    · exact .inl (faithful_refuse rfl _)
    · rename_i m known
      have hm := hs.sound known
      rw [← hs.place known] at known
      rcases m.leaves_react event with leaves | ⟨height, hr⟩
      · have held : (m.react event).fault ≠ some .overflow := by
          rcases leaves with hn | ⟨e, he⟩
          · simp [hn]
          · simp [he, Reaction.discard]
        exact .inl (faithful_commit _ rfl known (Manager.trail_react hm event held) leaves)
      · refine .inr ⟨?_, ?_, m, height, known, ?_⟩ <;> rw [hr] <;> rfl
  | wallet k w event =>
    exact .inl (faithful_toManager hs _
      (fun _ place hm => Manager.trail_reactWallet _ hm (by rw [place]) event)
      fun m => m.leaves_reactWallet _ _ event)
  | transfer k w t event =>
    exact .inl (faithful_toManager hs _
      (fun _ place hm => Manager.trail_reactTransfer _ hm _ (by rw [place]) event)
      fun m => m.leaves_reactTransfer _ _ _ event)
  | queryRequested k i q => exact .inl (faithful_onQuery h b k i q)

end Hub

/-! ## Turns -/

/-- The notice of an event. -/
def Notification.notice? : Notification → Option Notice
  | .event e => some e.notice
  | _ => none

/-- What the mail of a turn tells of the records. -/
def Turn.notices (t : Turn) : List Notice := t.mail.filterMap (·.notice?)

namespace Hub

open Handling

theorem notices_numbered (now : Timestamp) (last : Nat) (ns : List Notice) :
    ((numbered now last ns).map Notification.event).filterMap (·.notice?) = ns := by
  induction ns generalizing last with
  | nil => rfl
  | cons n ns ih => rw [numbered, List.map_cons, List.filterMap_cons, ih]; rfl

theorem notices_conclude (r : Handling) (a : Option (Except HubError Answer)) :
    (conclude r a).notices = r.notices := notices_numbered ..

/-- Where nothing is to be told nothing is sent, also when something else is counted. -/
theorem mail_conclude {r : Handling} (quiet : r.notices = []) (h : Hub)
    (a : Option (Except HubError Answer)) : (conclude { r with hub := h } a).mail = [] := by
  simp [conclude, emit, quiet, numbered]

/-- What a turn can be: one that goes on and tells all it did, the last one of a hub that is shut
down, or the last one of a hub that halts, which tells nothing. -/
inductive Outcome (h : Hub) (t : Turn) : Prop
  | onward (life : t.life = .running) (told : Trail (h.Change t.hub) h.tree t.notices t.hub.tree)
  | ending {ns : List Notice} {u : Tree} (life : t.life = .stopped)
      (told : Trail (h.Change t.hub) h.tree ns u)
      (gone : ∀ {k m}, u.manager? k = some m → m.state = .deleted)
      (notices : t.notices = ns ++ [.hub .deleted]) (tree : t.hub.tree = .empty)
  | halting (life : t.life = .halted) (notices : t.notices = [])
      (tree : t.hub.tree = h.tree ∨ ∃ m height, h.tree.manager? m.handle = some m ∧
        t.hub.tree = h.tree.put { m with height := height })

theorem outcome_conclude {h : Hub} {r : Handling} (hr : r.Faithful h)
    (f : Counters → Counters) (a : Option (Except HubError Answer)) :
    Outcome h (conclude { r with hub := r.hub.count f } a) := by
  refine .onward rfl ?_
  rw [notices_conclude]
  exact hr.told

/-- A faithful handling halts the hub only because of a precondition, and has done nothing then. -/
theorem outcome_halt {h : Hub} {r : Handling} {f : Fault} (hr : r.Faithful h)
    (hf : r.result = .error f) (fatal : h.isFatal f) : Outcome h (halt h r) := by
  rcases hr.fault f hf with ⟨e, rfl⟩ | ⟨-, -, ht⟩
  · cases fatal
  · exact .halting rfl rfl (.inl ht)

theorem outcome_concludeRequest {h : Hub} {r : Handling} (hr : r.Faithful h) :
    Outcome h (concludeRequest h r) := by
  unfold concludeRequest
  split
  · exact outcome_conclude hr id _
  · rename_i f hf
    split
    · rename_i fatal; exact outcome_halt hr hf fatal
    · split
      · exact outcome_conclude hr id _
      · exact outcome_conclude hr _ _
      · exact outcome_conclude hr id _

theorem outcome_concludeCallback {h : Hub} {r : Handling}
    (hr : r.Faithful h ∨ Overflowed h.tree r) : Outcome h (concludeCallback h r) := by
  rcases hr with hr | hr
  · unfold concludeCallback
    split
    · exact outcome_conclude hr id _
    · rename_i f hf
      split
      · rename_i fatal; exact outcome_halt hr hf fatal
      · split
        · exact outcome_conclude hr _ _
        · exact outcome_conclude hr id _
  · simp only [concludeCallback, hr.fault, isFatal, if_true]
    exact .halting rfl rfl (.inr hr.tree)

theorem outcome_shutdown {h : Hub} (hs : h.tree.Sound) : Outcome h (h.process .shutdown) := by
  obtain ⟨u, htrail, gone⟩ := Tree.trail_parting hs
  refine .ending rfl htrail gone ?_ rfl
  simp only [Turn.notices, process, List.filterMap_append]
  exact (List.append_nil _).trans (notices_numbered ..)

/-- **Turns.** A command goes on and tells all it did, or it is the last one. -/
theorem outcome_process {h : Hub} (hs : h.tree.Sound) (c : Command) : Outcome h (h.process c) := by
  cases c with
  | callback b cb =>
    refine outcome_concludeCallback ?_
    rcases faithful_onCallback (h := (h.count _).count _) hs b cb with hr | hr
    · exact .inl (faithful_of_count (faithful_of_count hr))
    · exact .inr hr
  | request r =>
    exact outcome_concludeRequest
      (faithful_of_count (faithful_of_count (faithful_onRequest (h := (h.count _).count _) hs r)))
  | answered q result =>
    refine .onward rfl ?_
    have hsame : (h.process (.answered q result)).hub.tree = h.tree := by
      simp only [process, onAnswered]
      split
      · exact tree_announceResult ..
      · rfl
    exact hsame ▸ .still _
  | register s => exact .onward rfl (.still _)
  | remove name => exact .onward rfl (.still _)
  | flush => exact .onward rfl (.still _)
  | shutdown => exact outcome_shutdown hs

theorem Outcome.sound {h : Hub} {t : Turn} (ho : h.Outcome t) (hs : h.tree.Sound) :
    t.hub.tree.Sound := by
  cases ho with
  | onward _ told => exact told.invariant Tree.Change.sound hs
  | ending _ _ _ _ tree => exact tree ▸ Tree.sound_empty
  | halting _ _ tree =>
    rcases tree with tree | ⟨m, height, known, tree⟩
    · exact tree ▸ hs
    · have hm := hs.sound known
      exact tree ▸ hs.put known rfl (Manager.Sound.with_wallets rfl hm.nodup hm.look)

end Hub
end WalletHub
