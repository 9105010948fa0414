import WalletHub.Proofs.Conduct
import WalletHub.Proofs.Index

/-!
# Modes

The mode of a manager stands twice: in its record, and with its engine, which was told of it when it
made the manager and by every later command it accepted. The engine's side is read off its log
(`Engine.ledger`), which also tells the numbers it handed out, so that nothing is assumed of them.
Only requests change a mode, and each one changes both sides or none (`mode?_heeds`,
`acceptedMode?_heeding`): a record that was written before its engine refused is set back.

* `ledger_next`: the ledger counts as the engine does, in every run.
* `modes_agree`: in every run each record has the mode its engine accepted last, and no command
  changes the mode of a manager that is at work or deleted.
-/
namespace WalletHub

/-! ## Ledgers -/

/-- What the log of an engine says of the managers it made: the number that is next, and the mode
last accepted for each number. -/
structure Ledger where
  next : UInt64
  modes : Table UInt64 ManagerMode

/-- The number and the mode that a line of the log is about, if `next` is the number that the engine
hands out next. -/
def Issued.mode? (i : Issued) (next : UInt64) : Option (UInt64 × ManagerMode) :=
  match i with
  | ⟨.createManager p, true⟩ => some (next, p.mode)
  | ⟨.setMode m mode, true⟩ => some (m, mode)
  | _ => none

/-- The ledger with one more line of the log. -/
def Ledger.enter (l : Ledger) (i : Issued) : Ledger :=
  ⟨l.next + i.made, match i.mode? l.next with
    | some (m, mode) => l.modes.put m mode
    | none => l.modes⟩

/-- The ledger of a new engine. -/
def Ledger.blank (b : Backend) : Ledger := ⟨(Engine.create b false).nextHandle, .empty⟩

/-- The ledger after all that an engine logged. -/
def Engine.ledger (e : Engine) : Ledger := e.issued.foldl .enter (.blank e.backend)

/-- The mode that an engine accepted last for one of its managers. -/
def Engine.acceptedMode? (e : Engine) (m : UInt64) : Option ManagerMode := e.ledger.modes.get? m

/-- The mode that the engine of a manager accepted last for it. -/
def Hub.acceptedMode? (h : Hub) (k : ManagerHandle) : Option ManagerMode :=
  (h.engine? k.backend).bind (·.acceptedMode? k.raw)

/-- The mode of a manager that is known. -/
def Tree.mode? (t : Tree) (k : ManagerHandle) : Option ManagerMode := (t.manager? k).map (·.mode)

/-- The mode of a manager after one of backend `b` was put into another, if one was. -/
def reassigned (b : Backend) (put? : Option (UInt64 × ManagerMode)) (k : ManagerHandle)
    (old : Option ManagerMode) : Option ManagerMode :=
  match put? with
  | some (raw, mode) => if ⟨b, raw⟩ = k then some mode else old
  | none => old

theorem reassigned_of_ne {b : Backend} {k : ManagerHandle} (hb : k.backend ≠ b)
    (put? : Option (UInt64 × ManagerMode)) (old : Option ManagerMode) :
    reassigned b put? k old = old := by
  unfold reassigned
  split
  · exact if_neg fun same => hb (congrArg Handle.backend same).symm
  · rfl

namespace Engine

variable {e e' : Engine} {i : Issued}

theorem Took.ledger (took : e.Took i e') : e'.ledger = e.ledger.enter i := by
  rw [Engine.ledger, took.issued, took.backend, List.foldl_append]
  rfl

/-- The engine counts as its ledger does. -/
def Counted (e : Engine) : Prop := e.ledger.next = e.nextHandle

theorem Took.counted (took : e.Took i e') (hc : e.Counted) : e'.Counted := by
  rw [Counted, took.ledger, took.next]
  exact congrArg (· + i.made) hc

theorem Took.acceptedMode? (took : e.Took i e') (hc : e.Counted) (b : Backend) (m : UInt64) :
    e'.acceptedMode? m = reassigned b (i.mode? e.nextHandle) ⟨b, m⟩ (e.acceptedMode? m) := by
  rw [Engine.acceptedMode?, took.ledger, Ledger.enter, show e.ledger.next = e.nextHandle from hc]
  cases i.mode? e.nextHandle with
  | none => rfl
  | some x => simp only [reassigned, Table.get?_put, Handle.mk.injEq, true_and]; rfl

end Engine

/-! ## Reactions keep modes -/

namespace Manager

variable {m : Manager}

theorem mode_moveTo (m : Manager) (new : ManagerState) (more : List Notice) :
    (m.moveTo new more).value.mode = m.mode := by
  rcases m.transition_cases new with ⟨-, ht⟩ | ⟨-, ht⟩ | ⟨-, ht⟩ <;> simp only [moveTo, ht] <;> rfl

theorem mode_receiveHeight (m : Manager) (height : UInt64) :
    (m.receiveHeight height).value.mode = m.mode := by
  unfold receiveHeight setHeight
  split
  · rfl
  · rename_i m' hm
    split at hm <;> cases hm
    split <;> rfl

theorem mode_reactLive (m : Manager) (c : ManagerCallback) :
    (m.reactLive c).value.mode = m.mode := by
  cases c with
  | created | deleted => rfl
  | connected | disconnected | syncStarted => exact mode_moveTo ..
  | syncProgress => simp only [reactLive]; split <;> rfl
  | syncStopped =>
    simp only [reactLive]
    split
    · exact mode_moveTo ..
    · rfl
  | blockHeightUpdated => exact mode_receiveHeight ..

theorem mode_ifLive {r : Reaction Manager} (hr : r.value.mode = m.mode) :
    (m.ifLive r).value.mode = m.mode := by
  unfold ifLive
  split
  · rfl
  · exact hr

theorem mode_withWallet (m : Manager) (h : WalletHandle) (f : Wallet → Reaction Wallet) :
    (m.withWallet h f).value.mode = m.mode := by
  unfold withWallet
  split <;> rfl

theorem mode_admitWallet (m : Manager) (reads : EngineReads) (h : WalletHandle) (code : String) :
    (m.admitWallet reads h code).value.mode = m.mode := by
  unfold admitWallet
  split
  · rfl
  · split <;> rfl

/-- No callback changes the mode of a manager. -/
theorem mode_reaction (reads : EngineReads) (b : Backend) (c : EngineCallback) (m : Manager) :
    (c.reaction reads b m).value.mode = m.mode := by
  cases c with
  | manager i event =>
    cases event with
    | deleted => simp only [EngineCallback.reaction, react]; split <;> rfl
    | created | connected | disconnected | syncStarted | syncProgress | syncStopped
    | blockHeightUpdated => exact mode_ifLive (mode_reactLive ..)
  | wallet i w event =>
    refine mode_ifLive ?_
    cases event with
    | created => exact mode_admitWallet ..
    | balanceUpdated | defaultFeeBasisUpdated => exact mode_withWallet ..
    | deleted => simp only [dropWallet]; split <;> rfl
  | transfer => exact mode_ifLive (mode_withWallet ..)
  | queryRequested => rfl

theorem Complies.mode {reads : EngineReads} {x : Reaction Manager} (hx : m.Complies reads x) :
    x.value.mode = m.mode := by
  cases hx with
  | admitsWallet => exact mode_admitWallet ..
  | disconnects => exact mode_moveTo ..
  | admitsTransfer => exact mode_withWallet ..

end Manager

/-! ## Requests change both sides -/

namespace Tree

variable {t t' : Tree} {m m' : Manager} {k : ManagerHandle}

theorem mode?_put (known : t.manager? m.handle = some m) (same : m'.handle = m.handle) :
    (t.put m').mode? k = if m.handle = k then some m'.mode else t.mode? k := by
  rw [mode?, manager?_put known same]
  split <;> rfl

/-- A manager that keeps its mode. -/
theorem mode?_put_same (known : t.manager? m.handle = some m) (same : m'.handle = m.handle)
    (mode : m'.mode = m.mode) : (t.put m').mode? k = t.mode? k := by
  rw [mode?_put known same, mode]
  split
  · rename_i hk
    rw [← hk, Tree.mode?, known]
    rfl
  · rfl

theorem mode?_founded (unknown : t.manager? m.handle = none)
    (index : Table (String × String) ManagerHandle) :
    mode? ⟨(t.managers.findOrCreate m.handle m).1, index⟩ k =
      if m.handle = k then some m.mode else t.mode? k := by
  simp only [mode?, manager?, Registry.find?_findOrCreate,
    show t.managers.find? m.handle = none from unknown]
  split <;> rfl

variable {e : Engine} {b : Backend} {i : Issued} {ns : List Notice} {unread : Nat}

/-- What a request does to the modes of the records, if the next number is new. -/
theorem mode?_heeds (heeds : t.Heeds e b i t' ns unread)
    (fresh : t.manager? ⟨b, e.nextHandle⟩ = none) (k : ManagerHandle) :
    t'.mode? k = reassigned b (i.mode? e.nextHandle) k (t.mode? k) := by
  cases heeds with
  | refused c => cases c <;> rfl
  | @relayed c plain => cases c <;> first | rfl | cases plain
  | @complied c m x plain known live _ complies =>
    have same := mode?_put_same (k := k) known complies.handle complies.mode
    cases c <;> first | exact same | cases plain
  | @modeSet m mode known side idle live =>
    subst side
    exact mode?_put known rfl
  | @founded p m x index unknown new complies =>
    have place : x.value.handle = m.handle := complies.handle
    have made := mode?_founded (k := k) (m := x.value) (by rw [place]; exact unknown) index
    rw [place, complies.mode] at made
    rw [made, new]
    rfl
  | reissued known stale =>
    rw [← stale, known] at fresh
    cases fresh

/-- No request changes the mode of a manager that is at work or deleted. -/
theorem mode?_heeds_of_fixed (heeds : t.Heeds e b i t' ns unread)
    (known : t.manager? k = some m) (fixed : m.state.isActive ∨ m.state = .deleted) :
    t'.mode? k = t.mode? k := by
  cases heeds with
  | refused | relayed => rfl
  | complied _ known' _ _ complies => exact mode?_put_same known' complies.handle complies.mode
  | @modeSet m' mode known' side idle live =>
    have put : (t.put { m' with mode := mode }).mode? k =
        if m'.handle = k then some mode else t.mode? k := mode?_put known' rfl
    rw [put]
    refine if_neg fun hk => ?_
    rw [hk, known] at known'
    cases known'
    exact fixed.elim idle live
  | @founded p m' x index unknown new complies =>
    have place : x.value.handle = m'.handle := complies.handle
    have made := mode?_founded (k := k) (m := x.value) (by rw [place]; exact unknown) index
    rw [place] at made
    rw [made]
    refine if_neg fun hk => ?_
    rw [hk, known] at unknown
    cases unknown
  | reissued known' _ complies => exact mode?_put_same known' complies.handle complies.mode

end Tree

namespace Hub

variable {h g : Hub} {b : Backend} {e e' : Engine} {i : Issued} {k : ManagerHandle}

/-- Every engine counts as its ledger does. -/
def Counted (h : Hub) : Prop := ∀ b e, h.engine? b = some e → e.Counted

/-- The record of every manager has the mode that its engine accepted last. -/
def InMode (h : Hub) : Prop := ∀ k mode, h.tree.mode? k = some mode → h.acceptedMode? k = some mode

theorem acceptedMode?_heeding (he : h.engine? b = some e) (took : e.Took i e') (hc : e.Counted)
    (t : Tree) (unread : Nat) (k : ManagerHandle) :
    (h.heeding b e' t unread).acceptedMode? k =
      reassigned b (i.mode? e.nextHandle) k (h.acceptedMode? k) := by
  obtain ⟨side, raw⟩ := k
  by_cases hb : side = b
  · subst hb
    simp only [acceptedMode?, engine?_heeding, engine?_withEngine_self, he]
    exact took.acceptedMode? hc side raw
  · rw [reassigned_of_ne hb]
    simp only [acceptedMode?, engine?_heeding, engine?_withEngine_of_ne _ hb]

theorem counted_heeding (he : h.engine? b = some e) (took : e.Took i e') (hc : h.Counted) (t : Tree)
    (unread : Nat) : (h.heeding b e' t unread).Counted := by
  intro b' e₁ he₁
  rw [engine?_heeding] at he₁
  by_cases hb : b' = b
  · subst hb
    rw [engine?_withEngine_self] at he₁
    cases he₁
    exact took.counted (hc _ _ he)
  · rw [engine?_withEngine_of_ne _ hb] at he₁
    exact hc _ _ he₁

/-- A request changes the mode of a record as it changes the mode its engine accepted last. -/
theorem inMode_heeding {t : Tree} {ns : List Notice} {unread : Nat} (he : h.engine? b = some e)
    (took : e.Took i e') (heeds : h.tree.Heeds e b i t ns unread) (fresh : h.Fresh)
    (hc : h.Counted) (hm : h.InMode) : (h.heeding b e' t unread).InMode := by
  intro k mode hk
  rw [acceptedMode?_heeding he took (hc _ _ he)]
  rw [tree_heeding, Tree.mode?_heeds heeds (fresh _ _ he)] at hk
  unfold reassigned at hk ⊢
  split at hk
  · split at hk
    · rename_i same
      simpa only [if_pos same] using hk
    · rename_i other
      simpa only [if_neg other] using hm k mode hk
  · exact hm k mode hk

end Hub

/-! ## Commands -/

/-- `e'` has logged and handed out what `e` has. -/
structure Engine.SameBooks (e e' : Engine) : Prop where
  issued : e'.issued = e.issued
  next : e'.nextHandle = e.nextHandle
  backend : e'.backend = e.backend

namespace Engine

variable {e e' : Engine}

theorem SameBooks.refl (e : Engine) : e.SameBooks e := ⟨rfl, rfl, rfl⟩

theorem SameBooks.ledger (same : e.SameBooks e') : e'.ledger = e.ledger := by
  rw [Engine.ledger, same.issued, same.backend]
  rfl

theorem sameBooks_announce (e : Engine) (m : UInt64) (id : RequestId) (q : QueryRequest)
    (r : QueryResult) : e.SameBooks (e.announce m id q r).1 := by
  unfold announce
  split <;> exact ⟨rfl, rfl, rfl⟩

theorem sameBooks_adjusted (e : Engine) (x : Setting) : e.SameBooks (e.adjusted x) := by
  cases x <;> exact ⟨rfl, rfl, rfl⟩

end Engine

namespace Hub

open Handling

variable {h g : Hub}

/-- Nothing was done to the modes of managers or to what engines logged and handed out. -/
structure Unmoded (h g : Hub) : Prop where
  books : h.Engines Engine.SameBooks g
  mode : ∀ k, g.tree.mode? k = h.tree.mode? k

theorem Unmoded.of_same (engines : ∀ b, g.engine? b = h.engine? b)
    (mode : ∀ k, g.tree.mode? k = h.tree.mode? k) : h.Unmoded g := by
  refine ⟨fun b => ?_, mode⟩
  rw [engines b]
  exact Engines.refl Engine.SameBooks.refl h b

theorem Unmoded.counted (hu : h.Unmoded g) (hc : h.Counted) : g.Counted := by
  intro b e' he'
  rcases hu.books b with ⟨-, none⟩ | ⟨e, e₁, he, he₁, same⟩
  · rw [none] at he'; cases he'
  · rw [he₁] at he'
    cases he'
    rw [Engine.Counted, same.ledger, same.next]
    exact hc b e he

theorem Unmoded.inMode (hu : h.Unmoded g) (hm : h.InMode) : g.InMode := by
  intro k mode hk
  rw [hu.mode] at hk
  have accepted := hm k mode hk
  rcases hu.books k.backend with ⟨none, -⟩ | ⟨e, e', he, he', same⟩
  · rw [acceptedMode?, none] at accepted; cases accepted
  · rw [acceptedMode?, he] at accepted
    rw [acceptedMode?, he']
    simpa only [Option.bind_some, Engine.acceptedMode?, same.ledger] using accepted

theorem unmoded_withEngine {b : Backend} {e e' : Engine} (he : h.engine? b = some e)
    (same : e.SameBooks e') : h.Unmoded (h.withEngine b e') :=
  ⟨engines_withEngine Engine.SameBooks.refl he same, fun k => by rw [tree_withEngine]⟩

theorem unmoded_announceResult {b : Backend} {e : Engine} (he : h.engine? b = some e) (m : UInt64)
    (id : RequestId) (q : QueryRequest) (r : QueryResult) :
    h.Unmoded (h.announceResult b e m id q r) := by
  have same := e.sameBooks_announce m id q r
  cases r with
  | ok a => exact unmoded_withEngine he same
  | error x =>
    have told := unmoded_withEngine (h := h.count fun c =>
      { c with queriesFailed := c.queriesFailed + 1 }) he same
    exact ⟨told.books, told.mode⟩

theorem unmoded_onQuery (h : Hub) (b : Backend) (m : UInt64) (id : RequestId) (q : QueryRequest) :
    h.Unmoded (h.onQuery b m id q).hub := by
  unfold onQuery
  split
  · exact .of_same (fun b => by cases b <;> rfl) fun _ => rfl
  · rename_i e he
    split
    · have told := unmoded_announceResult (h := h.count fun c =>
        c.drop (ResolutionError.unknownManager ⟨b, m⟩).bucket) he m id q
      exact ⟨(told _).books, (told _).mode⟩
    · split
      · exact .of_same (fun b => by cases b <;> rfl) fun _ => rfl
      · have told := unmoded_announceResult he m id q
        exact ⟨(told _).books, (told _).mode⟩

theorem unmoded_onCallback (hs : h.tree.Sound) (b : Backend) (c : EngineCallback) :
    h.Unmoded (h.onCallback b c).hub := by
  cases plain : c.isQuery with
  | true =>
    cases c with
    | queryRequested m id q => exact unmoded_onQuery h b m id q
    | _ => cases plain
  | false =>
    rw [onCallback_eq plain, toManager]
    split
    · exact .of_same (fun _ => rfl) fun _ => rfl
    · rename_i m known
      obtain place := hs.place known
      refine .of_same (fun b => by cases b <;> rfl) fun k => ?_
      exact Tree.mode?_put_same (place ▸ known)
        (Manager.local_reaction (h.reads b) (hs.sound known) place).handle
        (Manager.mode_reaction (h.reads b) b c m)

/-- The hub of a turn has the engines and the records of the handling. -/
theorem Unmoded.relayed {f : Hub} {ns ms : List Notice} (hu : h.Unmoded f)
    (hr : Relayed f g ns ms) : h.Unmoded g :=
  ⟨fun b => by rw [hr.engine]; exact hu.books b, fun k => by rw [hr.tree]; exact hu.mode k⟩

/-- What a command can do to the modes of managers. -/
inductive Moded (h : Hub) (t : Turn) : Prop
  | kept (unmoded : h.Unmoded t.hub)
  | asked {b : Backend} {e e' : Engine} {i : Issued} {u : Tree} {ns : List Notice} {unread : Nat}
      (engine : h.engine? b = some e) (took : e.Took i e')
      (heeds : h.tree.Heeds e b i u ns unread)
      (done : (h.heeding b e' u unread).Unmoded t.hub)
  | stopped (life : t.life = .stopped) (tree : t.hub.tree = .empty)

theorem moded_request (hs : h.tree.Sound) (q : Request) : h.Moded (h.process (.request q)) := by
  obtain ⟨f, ns, conduct, relayed⟩ := conduct_request hs q
  cases conduct with
  | idle =>
    have still : h.Unmoded (h.count .request) := .of_same (fun b => by cases b <;> rfl) fun _ => rfl
    exact .kept (still.relayed relayed)
  | @asked b e e' i t _ unread engine took heeds =>
    have still : (h.heeding b e' t unread).Unmoded ((h.count .request).heeding b e' t unread) :=
      .of_same (fun b' => by cases b <;> cases b' <;> rfl) fun _ => rfl
    exact .asked engine took heeds (still.relayed relayed)

/-- **Commands.** What a command can do to the modes of managers. -/
theorem moded_process (hs : h.tree.Sound) (c : Command) : h.Moded (h.process c) := by
  cases c with
  | callback b c =>
    have done := unmoded_onCallback (h := h.count .callback) hs b c
    exact .kept (.relayed ⟨done.books, done.mode⟩ (relayed_concludeCallback h _))
  | request q => exact moded_request hs q
  | answered q r =>
    refine .kept ?_
    simp only [process, onAnswered]
    split
    · rename_i e he
      have told := unmoded_announceResult (h := h.count _) he q.manager q.id q.request r
      exact ⟨told.books, told.mode⟩
    · exact .of_same (fun b => by cases b <;> rfl) fun _ => rfl
  | register | remove | flush => exact .kept (.of_same (fun b => by cases b <;> rfl) fun _ => rfl)
  | shutdown => exact .stopped rfl rfl

end Hub

/-! ## Runs -/

namespace Session

variable {s s' : Session}

/-- The ledgers of a session and the modes of its records, until it is over. -/
def Kept (s : Session) : Prop :=
  s.life = .stopped ∧ s.hub.tree = .empty ∨ s.hub.Counted ∧ s.hub.InMode

theorem kept_opened (strict hasClient : Bool) (utxo account : Option Bool) :
    (opened strict hasClient utxo account).Kept := by
  refine .inr ⟨fun b e he => ?_, fun k mode hk => by cases hk⟩
  obtain ⟨echo, rfl⟩ := engine_opened he
  cases b <;> rfl

/-- What is no command changes nothing. -/
theorem unmoded_adjusted (h : Hub) (b : Backend) (x : Setting) : h.Unmoded (h.adjusted b x) := by
  unfold Hub.adjusted
  split
  · rename_i e he; exact Hub.unmoded_withEngine he (e.sameBooks_adjusted x)
  · exact .of_same (fun _ => rfl) fun _ => rfl

theorem Kept.unmoded {g : Hub} (hk : s.Kept) (hu : s.hub.Unmoded g) (tree : g.tree = s.hub.tree) :
    Kept { s with hub := g } :=
  hk.imp (fun ⟨life, empty⟩ => ⟨life, tree.trans empty⟩)
    fun ⟨counted, modes⟩ => ⟨hu.counted counted, hu.inMode modes⟩

/-- As long as the logs fit, ledgers and records keep in step. -/
theorem Reachable.modes (hs : s.Reachable) (fits : s.hub.Fits) : s.Kept := by
  induction hs with
  | opened => exact kept_opened ..
  | @step s _ hs hstep ih =>
    cases hstep with
    | command c running =>
      have fits₁ : s.hub.Fits := (Hub.grew_process s.hub c).fits fits
      obtain ⟨stopped, -⟩ | ⟨counted, modes⟩ := ih fits₁
      · rw [running] at stopped; cases stopped
      · cases Hub.moded_process hs.sound c with
        | kept unmoded => exact .inr ⟨unmoded.counted counted, unmoded.inMode modes⟩
        | asked engine took heeds done =>
          exact .inr ⟨done.counted (Hub.counted_heeding engine took counted _ _),
            done.inMode (Hub.inMode_heeding engine took heeds (hs.fresh fits₁) counted modes)⟩
        | stopped life tree => exact .inl ⟨life, tree⟩
    | setting b x =>
      exact (ih ((grew_adjusted s.hub b x).fits fits)).unmoded (unmoded_adjusted s.hub b x)
        (tree_adjusted s.hub b x)
    | clock now =>
      exact (ih fits).unmoded (.of_same (fun b => by cases b <;> rfl) fun _ => rfl) rfl

/-- The ledger of an engine, read off its log, counts as the engine does. -/
theorem ledger_next (hs : s.Reachable) (fits : s.hub.Fits) (going : s.life ≠ .stopped) {b : Backend}
    {e : Engine} (he : s.hub.engine? b = some e) : e.ledger.next = e.nextHandle := by
  obtain ⟨stopped, -⟩ | ⟨counted, -⟩ := hs.modes fits
  · exact absurd stopped going
  · exact counted b e he

/-- One step of a session leaves the mode of a manager that is at work or deleted. -/
theorem Step.mode_of_fixed (hs : s.Reachable) (hstep : s.Step s') {k : ManagerHandle} {m : Manager}
    (known : s.hub.tree.manager? k = some m) (fixed : m.state.isActive ∨ m.state = .deleted) :
    s'.hub.tree.mode? k = s.hub.tree.mode? k ∨ s'.life = .stopped ∧ s'.hub.tree = .empty := by
  cases hstep with
  | command c =>
    cases Hub.moded_process hs.sound c with
    | kept unmoded => exact .inl (unmoded.mode k)
    | asked _ _ heeds done =>
      exact .inl ((done.mode k).trans (Tree.mode?_heeds_of_fixed heeds known fixed))
    | stopped life tree => exact .inr ⟨life, tree⟩
  | setting b x => exact .inl (congrArg (Tree.mode? · k) (tree_adjusted s.hub b x))
  | clock => exact .inl rfl

/-- **Modes.** In every run, as long as the logs of the engines fit in memory, the mode in the
record of a manager is the one that its engine accepted last for it. And whatever is done next, also
by an engine that fails, a manager that is connected, syncing or deleted keeps its mode, or the
session is over and its records are gone. -/
theorem modes_agree (hs : s.Reachable) (fits : s.hub.Fits) :
    (∀ k m, s.hub.tree.manager? k = some m →
      ∃ e, s.hub.engine? k.backend = some e ∧ e.acceptedMode? k.raw = some m.mode) ∧
    ∀ s', s.Step s' → ∀ k m, s.hub.tree.manager? k = some m →
      m.state.isActive ∨ m.state = .deleted →
      (∃ m', s'.hub.tree.manager? k = some m' ∧ m'.mode = m.mode) ∨
        s'.life = .stopped ∧ s'.hub.tree = .empty := by
  have mode {k : ManagerHandle} {m : Manager} (known : s.hub.tree.manager? k = some m) :
      s.hub.tree.mode? k = some m.mode := by rw [Tree.mode?, known]; rfl
  refine ⟨fun k m known => ?_, fun s' hstep k m known fixed => ?_⟩
  · obtain ⟨-, empty⟩ | ⟨-, modes⟩ := hs.modes fits
    · rw [empty] at known; cases known
    · exact Option.bind_eq_some_iff.1 (modes k _ (mode known))
  · refine (hstep.mode_of_fixed hs known fixed).imp_left fun same => ?_
    exact Option.map_eq_some_iff.1 (same.trans (mode known))

/-- A manager changes its mode before it connects. -/
def steered : Session :=
  (opened true false none (some false)).takes
    [.request (daveOn .apiOnly "/tmp/dave"), .request (.setMode ⟨.account, 0x2000⟩ .p2pOnly)]

/-- Its engine refuses the next change, the same mode is asked for again, and the manager connects
and is asked to change once more. -/
def restless : Session :=
  { steered with hub := steered.hub.adjusted .account (.failNext "offline") }.takes
    [.request (.setMode ⟨.account, 0x2000⟩ .apiWithP2pSubmit),
      .request (.setMode ⟨.account, 0x2000⟩ .p2pOnly),
      .callback .account (.manager 0x2000 .connected),
      .request (.setMode ⟨.account, 0x2000⟩ .apiOnly)]

theorem reachable_restless : restless.Reachable :=
  (((Reachable.opened ..).takes _).step (.setting .account (.failNext "offline"))).takes _

theorem modes_agree_restless :
    (∃ m e, restless.hub.tree.manager? ⟨.account, 0x2000⟩ = some m ∧ m.state = .connected ∧
      m.mode = .p2pOnly ∧ restless.hub.engine? .account = some e ∧
      e.acceptedMode? 0x2000 = some .p2pOnly ∧
      e.issued.map (fun i => (i.command.name, i.accepted)) =
        [("create_manager", true), ("set_mode:p2p_only", true),
          ("set_mode:api_with_p2p_submit", false)]) ∧
    ∃ m, (restless.take (.request (.setMode ⟨.account, 0x2000⟩ .apiOnly))).hub.tree.manager?
      ⟨.account, 0x2000⟩ = some m ∧ m.mode = .p2pOnly := by
  have fits : restless.hub.Fits := by
    apply Hub.fits_of_short
    intro b
    cases b <;> decide +kernel
  have running : restless.life = .running := by decide +kernel
  have present : (restless.hub.tree.manager? ⟨.account, 0x2000⟩).map (fun m => (m.state, m.mode)) =
      some (.connected, .p2pOnly) := by decide +kernel
  have log : (restless.hub.log .account).map (fun i => (i.command.name, i.accepted)) =
      [("create_manager", true), ("set_mode:p2p_only", true),
        ("set_mode:api_with_p2p_submit", false)] := by decide +kernel
  have going :
      (restless.take (.request (.setMode ⟨.account, 0x2000⟩ .apiOnly))).life ≠ .stopped := by
    decide +kernel
  obtain ⟨m, known, hm⟩ := Option.map_eq_some_iff.1 present
  obtain ⟨state, mode⟩ := Prod.mk.inj hm
  obtain ⟨agree, fixed⟩ := modes_agree reachable_restless fits
  obtain ⟨e, he, accepted⟩ := agree _ m known
  rw [Hub.log, show restless.hub.engine? .account = some e from he] at log
  refine ⟨⟨m, e, known, state, mode, he, mode ▸ accepted, log⟩, ?_⟩
  rcases fixed _ (.command _ running) _ m known (.inl (by rw [state]; rfl)) with
    ⟨m', known', same⟩ | ⟨stopped, -⟩
  · exact ⟨m', known', same.trans mode⟩
  · exact absurd stopped going

end Session
end WalletHub
