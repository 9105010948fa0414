import Mathlib.Logic.Relation
import WalletHub.Proofs.Numbers

/-!
# Runs

A session is a hub with simulated engines, and all that was told so far. It opens with the hub's own
announcement; then come commands of any kind in any order, callbacks with any handles and any
payload among them, while engines are set up in between and time goes by. After a shutdown, or once
the hub halted, no command is taken.

* `run_step`: a command and the callbacks that engines raise for it are a run.
* `Reachable.sound`, `Reachable.fresh`: what holds of the records in every run.
* `Reachable.invariant`: how a property of runs is shown from what a turn can be.
-/
namespace WalletHub

/-- What can be set on a simulated engine. -/
inductive Setting where
  | balance (wallet : UInt64) (raw : RawBalance)
  | feePerKb (rate : UInt64)
  | gas (price : String) (limit : UInt64)
  /-- The next command fails. -/
  | failNext (message : String)

def Engine.adjusted (e : Engine) : Setting → Engine
  | .balance w raw => { e with balances := e.balances.put w raw }
  | .feePerKb rate => { e with feePerKb := some rate }
  | .gas price limit => { e with defaultGas := some (.account price limit) }
  | .failNext message => { e with failNext := some message }

/-- The hub with a setting made on the engine of a backend, if it has one. -/
def Hub.adjusted (h : Hub) (b : Backend) (x : Setting) : Hub :=
  match h.engine? b with
  | some e => h.withEngine b (e.adjusted x)
  | none => h

theorem Hub.client_adjusted (h : Hub) (b : Backend) (x : Setting) :
    (h.adjusted b x).hasClient = h.hasClient := by
  unfold Hub.adjusted
  split
  · cases b <;> rfl
  · rfl

theorem Hub.start_adjusted (h : Hub) (b : Backend) (x : Setting) :
    (h.adjusted b x).start.1 = h.start.1.adjusted b x := by
  have same : h.start.1.engine? b = h.engine? b := by cases b <;> rfl
  unfold Hub.adjusted
  rw [same]
  split
  · cases b <;> rfl
  · rfl

/-- A hub, whether it takes commands, and all that it has told its audience. -/
structure Session where
  hub : Hub
  life : Life
  mail : List Notification

namespace Session

/-- What was told of the records so far. -/
def notices (s : Session) : List Notice := s.mail.filterMap (·.notice?)

/-- A new hub. An engine that is there raises callbacks or does not. -/
def opened (strict hasClient : Bool) (utxo account : Option Bool) : Session :=
  let (h, mail) := (Hub.create strict hasClient (utxo.map (.create .utxo))
    (account.map (.create .account))).start
  ⟨h, .running, mail⟩

/-- The session after a turn. -/
def after (s : Session) (t : Turn) : Session := ⟨t.hub, t.life, s.mail ++ t.mail⟩

/-- The session after one command. -/
def take (s : Session) (c : Command) : Session := s.after (s.hub.process c)

inductive Step : Session → Session → Prop
  | command {s : Session} (c : Command) (running : s.life = .running) : Step s (s.take c)
  | setting {s : Session} (b : Backend) (x : Setting) :
      Step s { s with hub := s.hub.adjusted b x }
  | clock {s : Session} (now : Timestamp) : Step s { s with hub := { s.hub with now := now } }

inductive Reachable : Session → Prop
  | opened (strict hasClient : Bool) (utxo account : Option Bool) :
      Reachable (opened strict hasClient utxo account)
  | step {s s' : Session} : s.Reachable → s.Step s' → Reachable s'

/-- What may come of a session later. -/
abbrev Run : Session → Session → Prop := Relation.ReflTransGen Step

theorem Reachable.run {s s' : Session} (hs : s.Reachable) (hrun : s.Run s') : s'.Reachable := by
  induction hrun with
  | refl => exact hs
  | tail _ hstep ih => exact ih.step hstep

/-- Every session came of a new one. -/
theorem Reachable.opened_run {s : Session} (hs : s.Reachable) :
    ∃ strict hasClient utxo account, (Session.opened strict hasClient utxo account).Run s := by
  induction hs with
  | opened strict hasClient utxo account => exact ⟨strict, hasClient, utxo, account, .refl⟩
  | step _ hstep ih =>
    obtain ⟨strict, hasClient, utxo, account, hrun⟩ := ih
    exact ⟨strict, hasClient, utxo, account, hrun.tail hstep⟩

/-- A command and the callbacks that engines raise while it is handled are a row of commands. -/
theorem run_step {s : Session} (running : s.life = .running) (c : Command) :
    s.Run (s.after (s.hub.step c)) := by
  have row : ∀ (cs : List (Backend × EngineCallback)) (t : Turn), s.Run (s.after t) →
      s.Run (s.after (cs.foldl Turn.follow t)) := by
    intro cs
    induction cs with
    | nil => exact fun _ ht => ht
    | cons c cs ih =>
      intro t ht
      refine ih _ ?_
      unfold Turn.follow
      split
      · rename_i hlife
        have hnext := ht.tail (.command (.callback c.1 c.2) hlife)
        simpa only [take, after, List.append_assoc] using hnext
      · exact ht
  exact row _ _ (.single (.command c running))

/-- The session after a list of commands; after the hub's last turn none is taken. -/
def takes (s : Session) : List Command → Session
  | [] => s
  | c :: cs => if s.life = .running then (s.take c).takes cs else s

theorem run_takes (s : Session) (cs : List Command) : s.Run (s.takes cs) := by
  induction cs generalizing s with
  | nil => exact .refl
  | cons c cs ih =>
    rw [Session.takes]
    split
    · rename_i running; exact .head (.command c running) (ih _)
    · exact .refl

theorem Reachable.takes {s : Session} (hs : s.Reachable) (cs : List Command) :
    (s.takes cs).Reachable := hs.run (s.run_takes cs)

/-- A run in which a transfer moves to another block, and its wallet is deleted and comes again. -/
def tour : Session :=
  (opened true false none (some false)).takes
    [.request (.createManager ⟨⟨"dave", 0⟩, .ethereum true, .apiOnly, "/tmp/dave"⟩),
      .callback .account (.transfer 0x2000 0x2001 0x6000
        (.created ⟨none, none, "1000", .sent, none, none⟩)),
      .callback .account (.transfer 0x2000 0x2001 0x6000 (.included 7 0 0 "21000")),
      .callback .account (.transfer 0x2000 0x2001 0x6000 (.included 8 1 0 "21000")),
      .callback .account (.wallet 0x2000 0x2001 .deleted),
      .callback .account (.wallet 0x2000 0x2001 (.created "eth")),
      .callback .account (.transfer 0x2000 0x2001 0x6000
        (.created ⟨none, none, "1000", .sent, none, none⟩)),
      .callback .account (.transfer 0x2000 0x2001 0x6000 (.signed none))]

theorem reachable_tour : tour.Reachable := (Reachable.opened ..).takes _

theorem fits_tour : tour.hub.Fits := by
  apply Hub.fits_of_short
  intro b
  cases b <;> decide +kernel

/-! ## What holds in every run -/

theorem tree_adjusted (h : Hub) (b : Backend) (x : Setting) : (h.adjusted b x).tree = h.tree := by
  unfold Hub.adjusted
  split
  · exact Hub.tree_withEngine ..
  · rfl

theorem counters_adjusted (h : Hub) (b : Backend) (x : Setting) :
    (h.adjusted b x).counters = h.counters := by
  unfold Hub.adjusted
  split
  · cases b <;> rfl
  · rfl

theorem notices_after (s : Session) (t : Turn) : (s.after t).notices = s.notices ++ t.notices :=
  List.filterMap_append ..

/-- What was told along a run, and a property of that and of the session which every step keeps. -/
theorem Run.told {P : List Notice → Session → Prop} {s s' : Session} (hs : s.Reachable)
    (hrun : s.Run s') (start : P [] s)
    (turn : ∀ {s told} c, s.Reachable → s.life = .running → P told s →
      P (told ++ (s.hub.process c).notices) (s.take c))
    (setting : ∀ {s told} b x, P told s → P told { s with hub := s.hub.adjusted b x })
    (clock : ∀ {s told} now, P told s → P told { s with hub := { s.hub with now := now } }) :
    ∃ told, s'.notices = s.notices ++ told ∧ P told s' := by
  induction hrun with
  | refl => exact ⟨[], by simp, start⟩
  | tail hrun hstep ih =>
    obtain ⟨told, notices, kept⟩ := ih
    cases hstep with
    | command c running =>
      refine ⟨_, ?_, turn c (hs.run hrun) running kept⟩
      rw [take, notices_after, notices, List.append_assoc]
    | setting b x => exact ⟨told, notices, setting b x kept⟩
    | clock now => exact ⟨told, notices, clock now kept⟩

/-- Records are sound in every run. -/
theorem Reachable.sound {s : Session} (hs : s.Reachable) : s.hub.tree.Sound := by
  induction hs with
  | opened => exact Tree.sound_empty
  | @step s _ _ hstep ih =>
    cases hstep with
    | command c => exact (Hub.outcome_process ih c).sound ih
    | setting b x => exact (tree_adjusted s.hub b x).symm ▸ ih
    | clock => exact ih

/-- A property of a session that looks at its records, its life and its notices holds in every run
if it holds at the beginning and every turn keeps it. -/
theorem Reachable.invariant {P : Session → Prop}
    (hopen : ∀ strict hasClient utxo account, P (Session.opened strict hasClient utxo account))
    (hturn : ∀ s c, s.Reachable → s.life = .running → s.hub.Outcome (s.hub.process c) → P s →
      P (s.take c))
    (hstill : ∀ s h, h.tree = s.hub.tree → P s → P { s with hub := h })
    {s : Session} (hs : s.Reachable) : P s := by
  induction hs with
  | opened => exact hopen ..
  | @step s _ hs hstep ih =>
    cases hstep with
    | command c running => exact hturn s c hs running (Hub.outcome_process hs.sound c) ih
    | setting b x => exact hstill s _ (tree_adjusted s.hub b x) ih
    | clock now => exact hstill s _ rfl ih

/-- A property of the records alone holds in every run if it holds when there are none, and both
single changes and heights that are taken over without a word keep it. -/
theorem Reachable.records {P : Tree → Prop} (none : P .empty)
    (change : ∀ {made : ManagerHandle → Prop} {guarded : Prop} {t t' : Tree} {ns : List Notice},
      Tree.Change made guarded t ns t' → P t → P t')
    (raise : ∀ {t : Tree} {m : Manager} (height : UInt64), t.manager? m.handle = some m → P t →
      P (t.put { m with height := height }))
    {s : Session} (hs : s.Reachable) : P s.hub.tree := by
  refine Reachable.invariant (P := fun s => P s.hub.tree) (fun _ _ _ _ => none)
    (fun s c _ _ houtcome hp => ?_) (fun s h htree hp => htree ▸ hp) hs
  cases houtcome with
  | onward _ told => exact told.invariant change hp
  | ending _ _ _ _ tree => exact tree ▸ none
  | halting _ _ tree =>
    rcases tree with tree | ⟨m, height, known, tree⟩
    · exact tree ▸ hp
    · exact tree ▸ raise height known hp

/-! ## Numbers in a run -/

/-- The engines of a new session are new. -/
theorem engine_opened {strict hasClient : Bool} {utxo account : Option Bool} {b : Backend}
    {e : Engine} (he : (opened strict hasClient utxo account).hub.engine? b = some e) :
    ∃ echo, e = .create b echo := by
  cases b with
  | utxo =>
    obtain ⟨echo, -, he⟩ := Option.map_eq_some_iff.1 (show utxo.map _ = some e from he)
    exact ⟨echo, he.symm⟩
  | account =>
    obtain ⟨echo, -, he⟩ := Option.map_eq_some_iff.1 (show account.map _ = some e from he)
    exact ⟨echo, he.symm⟩

theorem ahead_opened (strict hasClient : Bool) (utxo account : Option Bool) :
    (opened strict hasClient utxo account).hub.Ahead := by
  refine ⟨fun {b e} he => ?_, fun _ hk => absurd rfl hk⟩
  obtain ⟨echo, rfl⟩ := engine_opened he
  cases b <;> cases echo <;> decide

/-- Settings are not logged and hand out nothing. -/
theorem grew_adjusted (h : Hub) (b : Backend) (x : Setting) : h.Grew (h.adjusted b x) := by
  unfold Hub.adjusted
  split
  · rename_i e he
    exact Hub.grew_withEngine he (by cases x <;> exact .of_same rfl rfl)
  · exact .refl h

/-- As long as the logs fit, the counters of engines stay ahead. -/
theorem Reachable.ahead {s : Session} (hs : s.Reachable) (fits : s.hub.Fits) : s.hub.Ahead := by
  induction hs with
  | opened => exact ahead_opened ..
  | @step s _ hs hstep ih =>
    cases hstep with
    | command c => exact (ih ((Hub.grew_process s.hub c).fits fits)).process hs.sound c fits
    | setting b x =>
      have hgrew := grew_adjusted s.hub b x
      exact (ih (hgrew.fits fits)).grow hgrew fits fun k hk => .inl (tree_adjusted s.hub b x ▸ hk)
    | clock => exact ⟨(ih fits).bound, (ih fits).used⟩

/-- As long as the logs fit, no number is handed out twice. -/
theorem Reachable.fresh {s : Session} (hs : s.Reachable) (fits : s.hub.Fits) : s.hub.Fresh :=
  (hs.ahead fits).fresh

/-- As `invariant`, for runs in which no number is handed out twice. -/
theorem Reachable.invariant_of_fits {P : Session → Prop}
    (hopen : ∀ strict hasClient utxo account, P (Session.opened strict hasClient utxo account))
    (hturn : ∀ s c, s.Reachable → s.life = .running → s.hub.Fresh →
      s.hub.Outcome (s.hub.process c) → P s → P (s.take c))
    (hstill : ∀ s h, h.tree = s.hub.tree → P s → P { s with hub := h })
    {s : Session} (hs : s.Reachable) (fits : s.hub.Fits) : P s := by
  induction hs with
  | opened => exact hopen ..
  | @step s _ hs hstep ih =>
    cases hstep with
    | command c running =>
      have hfits : s.hub.Fits := (Hub.grew_process s.hub c).fits fits
      exact hturn s c hs running (hs.fresh hfits) (Hub.outcome_process hs.sound c) (ih hfits)
    | setting b x =>
      exact hstill s _ (tree_adjusted s.hub b x) (ih ((grew_adjusted s.hub b x).fits fits))
    | clock now => exact hstill s _ rfl (ih fits)

end Session
end WalletHub
