import WalletHub.LiveHub
import WalletHub.Proofs.Announced
import WalletHub.Proofs.House
import WalletHub.Proofs.Waiting

/-!
# Runs of the hub at work

`LiveHub.Step` lists what can happen to a hub at work: steps of the work in front, the clock, and
callers. `run` and what callers ask for are made of these steps.

Most of that work leaves hub and audience alone and has errands change places: queries at the
service, and commands on their way to the hub. `LiveHub.Alike` says so: no errand comes in but the
new ones, and while the intake is open none is lost.
-/
namespace WalletHub

/-- Something that the hub will hear of. -/
inductive Errand where
  /-- A query at the service. -/
  | query (q : Inquiry)
  /-- A command that waits. -/
  | command (c : Command)

namespace Duty

def errand? : Duty → Option Errand
  | .ask q | .answer q _ => some (.query q)
  | .hub | .audience | .feeder | .sender => none

end Duty

namespace LiveHub

variable {s s' s'' : LiveHub} {new more : List Errand}

/-- All errands. Those who are in the middle of their turn are on none. -/
def errands (s : LiveHub) : List Errand :=
  s.agenda.tasks.filterMap Duty.errand? ++ s.intake.pending.map .command

/-- The event under way, and the listeners whose turn is still to come. -/
def turns (s : LiveHub) : Option (Event × List Seat) := s.serving.map fun v => (v.event, v.seats)

/-- The hub is the same, and there are some new errands. A hub that runs loses none of them. -/
structure Still (new : List Errand) (s s' : LiveHub) : Prop where
  hub : s'.hub = s.hub
  begun : s'.begun = s.begun
  life : s'.life = s.life
  client : s'.client.isSome = s.client.isSome
  closed : s.life = .running → s'.intake.closed = s.intake.closed
  /-- Nothing opens a way in that is closed. -/
  shut : s.intake.closed = true → s'.intake.closed = true
  underway : ∀ d used, s'.agenda.underway = some (d, used) →
    d.errand? = none ∨ s.agenda.underway = some (d, used)
  errands : Grows (s.life = .running ∧ s.intake.closed = false) s.errands new s'.errands

/-- The audience is the same as well. -/
structure Alike (new : List Errand) (s s' : LiveHub) : Prop extends Still new s s' where
  founders : s'.founders = s.founders
  room : s'.room = s.room
  serving : s'.turns = s.turns
  dismissed : s'.dismissed = s.dismissed
  mail : s'.mail = s.mail

theorem still_refl (s : LiveHub) : Still [] s s :=
  ⟨rfl, rfl, rfl, rfl, fun _ => rfl, id, fun _ _ => .inr, .refl _⟩

theorem Still.trans (hs : Still new s s') (hs' : Still more s' s'') :
    Still (more ++ new) s s'' where
  hub := hs'.hub.trans hs.hub
  begun := hs'.begun.trans hs.begun
  life := hs'.life.trans hs.life
  client := hs'.client.trans hs.client
  closed running := (hs'.closed (hs.life ▸ running)).trans (hs.closed running)
  shut gone := hs'.shut (hs.shut gone)
  underway d used hu := (hs'.underway d used hu).elim .inl (hs.underway d used)
  errands := hs.errands.trans (hs'.errands.mono fun ⟨running, hopen⟩ =>
    ⟨hs.life.trans running, (hs.closed running).trans hopen⟩)

/-- What comes first brings nothing new. -/
theorem Still.after (hs' : Still new s' s'') (hs : Still [] s s') : Still new s s'' := by
  have both := hs.trans hs'
  rwa [List.append_nil] at both

theorem alike_refl (s : LiveHub) : Alike [] s s :=
  ⟨still_refl s, rfl, rfl, rfl, rfl, rfl⟩

theorem Alike.trans (hs : Alike new s s') (hs' : Alike more s' s'') :
    Alike (more ++ new) s s'' where
  toStill := hs.toStill.trans hs'.toStill
  founders := hs'.founders.trans hs.founders
  room := hs'.room.trans hs.room
  serving := hs'.serving.trans hs.serving
  dismissed := hs'.dismissed.trans hs.dismissed
  mail := hs'.mail.trans hs.mail

theorem Alike.after (hs' : Alike new s' s'') (hs : Alike [] s s') : Alike new s s'' := by
  have both := hs.trans hs'
  rwa [List.append_nil] at both

/-! ## Errands change places -/

theorem alike_aside (s : LiveHub) (published : AudienceStats) (shutDown : Bool)
    (answer : Option (Except HubError Answer)) : Alike [] s { s with
      published := published
      shutDown := shutDown
      answer := answer } :=
  ⟨⟨rfl, rfl, rfl, rfl, fun _ => rfl, id, fun _ _ => .inr, .refl _⟩, rfl, rfl, rfl, rfl, rfl⟩

theorem alike_client {c : QueryClient} (client : s.client = some c) (c' : QueryClient) :
    Alike [] s { s with client := some c' } :=
  ⟨⟨rfl, rfl, rfl, by rw [client]; rfl, fun _ => rfl, id, fun _ _ => .inr, .refl _⟩, rfl, rfl, rfl,
    rfl, rfl⟩

theorem alike_agenda (s : LiveHub) (ds : List Duty) {g : Agenda Duty}
    (tasks : g.tasks.Perm (ds ++ s.agenda.tasks))
    (underway : ∀ d used, g.underway = some (d, used) →
      d.errand? = none ∨ s.agenda.underway = some (d, used)) :
    Alike (ds.filterMap Duty.errand?) s { s with agenda := g } := by
  have errands : (g.tasks.filterMap Duty.errand?).Perm
      (ds.filterMap Duty.errand? ++ s.agenda.tasks.filterMap Duty.errand?) := by
    rw [← List.filterMap_append]
    exact tasks.filterMap _
  exact ⟨⟨rfl, rfl, rfl, rfl, fun _ => rfl, id, underway, (Grows.of_perm errands).append_right _⟩,
    rfl, rfl, rfl, rfl, rfl⟩

theorem alike_call (s : LiveHub) {d : Duty} (silent : d.errand? = none) :
    Alike [] s (s.call d) := by
  have called : [d].filterMap Duty.errand? = [] := by simp [silent]
  unfold call Agenda.call
  split
  · exact s.alike_refl
  · exact called ▸ s.alike_agenda [d] (s.agenda.tasks_add d) fun _ _ => .inr

theorem alike_goOn (s : LiveHub) {d : Duty} (silent : d.errand? = none) (used : Nat) :
    Alike [] s (s.goOn d used) := by
  refine s.alike_agenda [] (.refl _) fun d' used' hu => .inl ?_
  cases hu
  exact silent

theorem alike_setAside (s : LiveHub) {d : Duty} (silent : d.errand? = none) :
    Alike [] s (s.setAside d) := by
  have aside : [d].filterMap Duty.errand? = [] := by simp [silent]
  exact aside ▸ s.alike_agenda [d] (s.agenda.tasks_setAside d) fun _ _ => .inr

theorem alike_withIntake (s : LiveHub) {q : Intake Command} {cs : List Command}
    (takes : s.intake.Takes cs q) : Alike (cs.map .command) s (s.withIntake q) := by
  have taken : Alike (cs.map .command) s { s with intake := q } :=
    ⟨⟨rfl, rfl, rfl, rfl, fun _ => takes.closed, takes.closed.trans, fun _ _ => .inr,
      ((takes.pending.map _).append_left _).mono And.right⟩, rfl, rfl, rfl, rfl, rfl⟩
  unfold withIntake
  dsimp only
  split <;> split
  · exact taken
  · exact taken.trans (alike_call _ rfl)
  · exact taken.trans (alike_call _ rfl)
  · exact (taken.trans (alike_call _ rfl)).trans (alike_call _ rfl)

theorem alike_callAudience (s : LiveHub) : Alike [] s s.callAudience := by
  unfold callAudience
  split
  · exact s.alike_call rfl
  · exact s.alike_refl

theorem alike_post (s : LiveHub) (mail : List Notification) :
    Alike [] { s with mail := s.mail ++ mail } (s.post mail) := by
  unfold post
  split
  · rename_i nothing
    rw [List.isEmpty_iff.1 nothing, List.append_nil]
    exact s.alike_refl
  · exact alike_callAudience _

theorem alike_deliver (s : LiveHub) (b : Backend) (c : EngineCallback) :
    Alike [.command (.callback b c)] s (s.deliver b c).1 :=
  s.alike_withIntake (s.intake.takes_send _)

/-- What listeners raised. -/
def raisings (raised : List (Backend × EngineCallback)) : List Errand :=
  raised.map fun c => .command (.callback c.1 c.2)

theorem alike_deliverAll (s : LiveHub) (raised : List (Backend × EngineCallback)) :
    Alike (raisings raised.reverse) s (s.deliverAll raised) := by
  induction raised generalizing s with
  | nil => exact s.alike_refl
  | cons c raised ih =>
    rw [List.reverse_cons, raisings, List.map_append]
    exact (s.alike_deliver c.1 c.2).trans (ih _)

/-- The queue of a hub that does not run any more is closed, and what is in it is lost. -/
theorem alike_close (stopped : s.life ≠ .running) (answer : Option (Except HubError Answer)) :
    Alike [] s { s with intake := s.intake.close, answer := answer } := by
  have never {p : Prop} (running : s.life = .running) : p := absurd running stopped
  refine ⟨⟨rfl, rfl, rfl, rfl, never, fun _ => rfl, fun _ _ => .inr, ?_,
    fun kept => never kept.1⟩, rfl, rfl, rfl, rfl, rfl⟩
  exact ((List.nil_sublist _).append_left _).subperm

/-- What came of a command brings its queries. -/
theorem alike_conclude (s : LiveHub) (c : Command) (t : Turn) :
    Alike (t.queries.map .query)
      { s with hub := t.hub, life := t.life, mail := s.mail ++ t.mail } (s.conclude c t) := by
  set base : LiveHub := { s with hub := t.hub, life := t.life, mail := s.mail ++ t.mail }
  set g := t.queries.foldl (fun g q => g.add (.ask q)) s.agenda with hg
  have asked : Alike (t.queries.map .query) base { base with agenda := g } := by
    have queries : (t.queries.map Duty.ask).filterMap Duty.errand? = t.queries.map .query := by
      rw [List.filterMap_map]
      exact congrFun (List.filterMap_eq_map (f := Errand.query)) t.queries
    rw [← queries]
    refine base.alike_agenda _ (Agenda.tasks_addAll ..) fun d used hu => .inr ?_
    rwa [hg, Agenda.underway_addAll] at hu
  have posted (answer : Option (Except HubError Answer)) : Alike (t.queries.map .query) base
      (({ s with hub := t.hub, agenda := g, life := t.life, answer := answer } : LiveHub).post
        t.mail) := by
    have told := alike_post { s with hub := t.hub, agenda := g, life := t.life, answer := answer }
      t.mail
    have answered := alike_aside { base with agenda := g } s.published s.shutDown answer
    exact (asked.trans answered).trans told
  unfold conclude
  dsimp only
  split
  · exact posted _
  · rename_i stopped
    have stopped := (posted (t.answer.or s.answer)).life.trans_ne stopped
    exact ((posted _).trans (alike_close stopped _)).trans (alike_callAudience _)

theorem alike_feederTurn (s : LiveHub) (used : Nat) : Alike [] s (s.feederTurn used) := by
  unfold feederTurn
  split
  · exact s.alike_setAside rfl
  · split
    · rename_i q hq
      split
      · exact s.alike_withIntake (Intake.takes_feed hq)
      · exact (s.alike_goOn rfl _).trans (alike_withIntake _ (Intake.takes_feed hq))
    · exact s.alike_refl

theorem alike_redeem {kind : Sender Command → Bool} {q : Intake Command}
    (hq : s.intake.redeem kind = some q) : Alike [] s (s.withIntake q) :=
  s.alike_withIntake (Intake.takes_redeem hq)

theorem alike_senderTurn (s : LiveHub) : Alike [] s s.senderTurn := by
  unfold senderTurn
  split
  · rename_i q hq
    split
    · exact (s.alike_goOn rfl 1).trans (alike_redeem hq)
    · exact alike_redeem hq
  · exact s.alike_refl

/-- The service answers with a value of the kind that was asked for, or with an error. -/
theorem alike_finishQuery {c : QueryClient} (client : s.client = some c) (q : Inquiry)
    (failure : Option QueryError) :
    ∃ v, Alike [.command (.answered q (q.request.result v))] s (s.finishQuery q failure) := by
  obtain ⟨v, hv⟩ := QueryClient.complete_eq_result c failure q.request
  refine ⟨v, ?_⟩
  unfold finishQuery
  rw [client, ← hv]
  have completed := alike_client client (c.complete failure q.request).1
  exact (alike_withIntake { s with client := some (c.complete failure q.request).1 }
    (s.intake.takes_sendPast _)).after completed

/-- The service takes a query, or answers it at once. -/
theorem alike_beginQuery {c : QueryClient} (client : s.client = some c) (q : Inquiry) :
    Alike [.query q] s (s.beginQuery q) ∨
      ∃ v, Alike [.command (.answered q (q.request.result v))] s (s.beginQuery q) := by
  unfold beginQuery
  rw [client]
  dsimp only
  have accepted := alike_client client (c.accept q.network q.request).1
  split
  · refine .inr ?_
    set s' : LiveHub := { s with client := some (c.accept q.network q.request).1 } with hs'
    have client' : s'.client = some (c.accept q.network q.request).1 := rfl
    obtain ⟨v, hv⟩ := alike_finishQuery client' q (c.accept q.network q.request).2
    exact ⟨v, hv.after accepted⟩
  · refine .inl (Alike.after ?_ accepted)
    exact alike_agenda { s with client := some (c.accept q.network q.request).1 }
      [.answer q (c.accept q.network q.request).2] (s.agenda.tasks_putOff _ _) fun _ _ => .inr

/-- The command in front is received. -/
theorem errands_receive (s : LiveHub) {c : Command} {q : Intake Command}
    (received : s.intake.receive = some (c, q)) :
    s.errands.Perm (.command c :: ({ s with intake := q } : LiveHub).errands) := by
  rw [errands, (Intake.pending_receive received).1, List.map_cons, errands]
  exact List.perm_middle

/-- The task in front is taken. Who is in the middle of its turn is on no errand. -/
theorem errands_take (s : LiveHub) {d : Duty} {used : Nat} {g : Agenda Duty}
    (taken : s.agenda.take = some (d, used, g)) :
    g.underway = none ∧
      (s.agenda.underway = some (d, used) ∧ s.errands = ({ s with agenda := g } : LiveHub).errands ∨
        s.errands.Perm (d.errand?.toList ++ ({ s with agenda := g } : LiveHub).errands)) := by
  obtain ⟨idle, ⟨underway, tasks⟩ | tasks⟩ := Agenda.tasks_take taken
  · refine ⟨idle, .inl ⟨underway, ?_⟩⟩
    rw [errands, tasks, errands]
  · refine ⟨idle, .inr (.of_eq ?_)⟩
    rw [errands, tasks, House.filterMap_cons_toList, List.append_assoc, errands]

/-- The next round, and a later moment. -/
theorem alike_nextRound (s : LiveHub) : Alike [] s { s with agenda := s.agenda.nextRound } :=
  s.alike_agenda [] (.of_eq s.agenda.tasks_nextRound) fun _ _ => .inr

theorem alike_atMoment (s : LiveHub) (t : Nat) :
    Alike [] s { s with agenda := s.agenda.atMoment t } :=
  s.alike_agenda [] (s.agenda.tasks_atMoment t) fun _ _ => .inr

/-- A system that is let go of shuts down, if there is room for that. -/
theorem alike_drop (s : LiveHub) :
    Alike [] s s.drop ∨ Alike [.command .shutdown] s s.drop := by
  unfold drop
  split
  · exact .inl s.alike_refl
  · have shut := s.alike_aside s.published true s.answer
    have takes := s.intake.takes_trySend .shutdown
    split at takes
    · exact .inr ((alike_withIntake { s with shutDown := true } takes).after shut)
    · exact .inl ((alike_withIntake { s with shutDown := true } takes).after shut)

/-! ## Turns -/

/-- The hub's turn: it announces itself, or does nothing, or takes the command in front. -/
theorem hubTurn_cases (s : LiveHub) (used : Nat) :
    (s.begun = false ∧ s.hubTurn used = s.begin) ∨ Alike [] s (s.hubTurn used) ∨
      ∃ (s' : LiveHub) (c : Command) (q : Intake Command), Alike [] s s' ∧ s'.begun = true ∧
        s'.life = .running ∧ s'.intake.receive = some (c, q) ∧
          s.hubTurn used = ({ s' with intake := q } : LiveHub).conclude c (s'.hub.step c) := by
  unfold hubTurn
  split
  · rename_i silent
    exact .inl ⟨Bool.eq_false_iff.2 silent, rfl⟩
  · rename_i begun
    refine .inr ?_
    split
    · exact .inl s.alike_refl
    · rename_i running
      split
      · exact .inl (s.alike_setAside rfl)
      · split
        · exact .inl s.alike_refl
        · rename_i c q received
          have begun : s.begun = true := by simpa using begun
          have running : s.life = .running := by simpa using running
          have called : Alike [] s { s with agenda := s.agenda.add .sender } :=
            s.alike_agenda [.sender] (s.agenda.tasks_add .sender) fun _ _ => .inr
          have went (s' : LiveHub) : Alike [] s' (s'.goOn .hub (used + 1)) := s'.alike_goOn rfl _
          refine .inr ?_
          dsimp only
          split
          · exact ⟨_, c, q, called.trans (went _), begun, running, received, rfl⟩
          · exact ⟨_, c, q, called.trans (went _), begun, running, received, rfl⟩
          · exact ⟨_, c, q, went s, begun, running, received, rfl⟩

/-- The audience at work has nothing to do with errands. -/
theorem still_audience (s : LiveHub) (room : Room) (founders : List Seat)
    (serving : Option Serving) (dismissed : Bool) (mail : List Notification)
    (published : AudienceStats) (answer : Option (Except HubError Answer)) : Still [] s { s with
      room := room
      founders := founders
      serving := serving
      dismissed := dismissed
      mail := mail
      published := published
      answer := answer } :=
  ⟨rfl, rfl, rfl, rfl, fun _ => rfl, id, fun _ _ => .inr, .refl _⟩

theorem still_serve (s : LiveHub) (used : Nat) (v : Serving) :
    ∃ raised, Still (raisings raised) s (s.serve used v) := by
  obtain ⟨e, seats, ready⟩ := v
  have nothing {t : LiveHub} (h : Still [] s t) : ∃ raised, Still (raisings raised) s t := ⟨[], h⟩
  have acts (x : Seat) (rest : List Seat) (used : Nat) :
      ∃ raised, Still (raisings raised) s (s.act e x rest used) := by
    refine ⟨(s.room.offer x e).2.reverse, ?_⟩
    have offered := s.still_audience (s.room.offer x e).1 s.founders (some ⟨e, rest, false⟩)
      s.dismissed s.mail s.published s.answer
    have raised := (alike_deliverAll _ (s.room.offer x e).2).toStill.after offered
    exact raised.trans (alike_goOn _ rfl used).toStill
  cases seats with
  | nil =>
    have served := s.still_audience s.room s.founders none s.dismissed s.mail
      s.room.audience.stats s.answer
    exact nothing (served.trans (alike_goOn _ rfl used).toStill)
  | cons x rest =>
    cases ready with
    | true => exact acts x rest (used + 1)
    | false =>
      rw [serve]
      split
      · exact acts x rest used
      · split
        · exact nothing (s.alike_setAside rfl).toStill
        · have slow := s.still_audience s.room s.founders (some ⟨e, x :: rest, true⟩) s.dismissed
            s.mail s.published s.answer
          have later : Alike [] _ { s with
              serving := some ⟨e, x :: rest, true⟩
              agenda := s.agenda.putOff x.listener.delay .audience } :=
            alike_agenda { s with serving := some ⟨e, x :: rest, true⟩ } [.audience]
              (s.agenda.tasks_putOff _ _) fun _ _ => .inr
          exact nothing (later.toStill.after slow)

theorem still_tell (s : LiveHub) (n : Notification) : Still [] s (s.tell n) := by
  cases n with
  | event | barrier | shutdown => exact s.still_audience ..
  | register x =>
    simp only [tell]
    exact s.still_audience ..
  | remove name =>
    simp only [tell]
    exact s.still_audience ..

theorem still_audienceTurn (s : LiveHub) (used : Nat) :
    ∃ raised, Still (raisings raised) s (s.audienceTurn used) := by
  have nothing {t : LiveHub} (h : Still [] s t) : ∃ raised, Still (raisings raised) s t := ⟨[], h⟩
  unfold audienceTurn
  split
  · exact nothing s.still_refl
  · split
    · have found : Still [] s s.found := s.still_audience ..
      exact nothing (found.trans (alike_goOn _ rfl used).toStill)
    · split
      · exact s.still_serve used _
      · split
        · exact nothing (s.alike_setAside rfl).toStill
        · split
          · rename_i n rest _
            have read := s.still_audience s.room s.founders s.serving s.dismissed rest s.published
              s.answer
            exact nothing ((read.trans (still_tell _ n)).trans (alike_goOn _ rfl _).toStill)
          · split
            · exact nothing s.still_refl
            · exact nothing (s.still_audience ..)

/-! ## Runs -/

/-- What can happen to a hub at work. -/
inductive Step : LiveHub → LiveHub → Prop
  | tick {s s' : LiveHub} (due : s.tick = some s') : Step s s'
  | round {s : LiveHub} : Step s { s with agenda := s.agenda.nextRound }
  | clock {s : LiveHub} (t : Nat) : Step s (s.atClock t)
  /-- A caller makes use of room that was kept for it. -/
  | caller {s s' : LiveHub} (kept : s.callerTurn = some s') : Step s s'
  | callback {s : LiveHub} (b : Backend) (c : EngineCallback) : Step s (s.deliver b c).1
  /-- A caller sends a command, and waits if there is no room for it. Listeners and answers to
  queries are sent by nobody. -/
  | send {s : LiveHub} {c : Command} {q : Intake Command} (plain : c.seat? = none)
      (outside : ∀ q r, c ≠ .answered q r) (sent : s.intake.sendWaiting c = (q, true)) :
      Step s (s.withIntake q)
  /-- A caller sends a listener. -/
  | register {s : LiveHub} (l : Listener) {q : Intake Command}
      (sent : s.intake.sendWaiting (.register (s.room.present l).2) = (q, true)) :
      Step s (({ s with room := (s.room.present l).1, answer := none } : LiveHub).withIntake q)
  /-- A listener comes too late to be sent. -/
  | late {s : LiveHub} (l : Listener) : Step s { s with room := (s.room.present l).1 }
  | forget {s : LiveHub} : Step s { s with answer := none }
  | shutDown {s : LiveHub} : Step s { s with shutDown := true }
  | drop {s : LiveHub} : Step s s.drop
  | setting {s : LiveHub} (b : Backend) (x : Setting) : Step s { s with hub := s.hub.adjusted b x }
  /-- Other answers are prepared. -/
  | service {s : LiveHub} (c : QueryClient) (there : s.client.isSome) :
      Step s { s with client := some c }
  /-- A recorder's tape is emptied. -/
  | clear {s : LiveHub} (name : String) : Step s { s with room := s.room.clear name }

inductive Reachable : LiveHub → Prop
  | created {c : Configuration} (utxo account : Option Bool) {client : Option QueryClient}
      {listeners : List Listener} {s : LiveHub}
      (ok : create c (utxo.map (.create .utxo)) (account.map (.create .account)) client listeners =
        .ok s) : Reachable s
  | step {s s' : LiveHub} : s.Reachable → s.Step s' → Reachable s'

/-! ## What callers do -/

theorem Reachable.wait (hs : s.Reachable) {goal : Goal} (hw : s.wait? goal = some s') :
    s'.Reachable := by
  unfold wait? at hw
  split at hw
  · obtain ⟨a, -, ha⟩ := Option.bind_eq_some_iff.1 hw
    split at ha
    · cases ha
      exact hs.step (.clock a)
    · cases ha
  · obtain ⟨a, -, rfl⟩ := Option.map_eq_some_iff.1 hw
    exact hs.step (.clock a)

theorem Reachable.nextRound (hs : s.Reachable) (goal : Goal) : (s.nextRound goal).1.Reachable := by
  have round := hs.step .round
  unfold LiveHub.nextRound
  dsimp only
  split
  · rename_i kept
    have acted := round.step (.caller kept)
    split
    · exact acted
    · rw [if_pos (.inl rfl)]
      exact acted
  · split
    · exact round
    · split
      · exact round
      · split
        · rename_i waited
          exact round.wait waited
        · exact round

theorem Reachable.run (hs : s.Reachable) (goal : Goal) (fuel : Nat) :
    (run goal fuel s).Reachable := by
  induction fuel generalizing s with
  | zero => exact hs
  | succ fuel ih =>
    have round := hs.nextRound goal
    unfold LiveHub.run
    split
    · rename_i due
      exact ih (hs.step (.tick due))
    · split <;> rename_i hround <;> rw [hround] at round
      · exact ih round
      · exact round

theorem Reachable.sleep (hs : s.Reachable) (millis : Nat) : (s.sleep millis).Reachable := by
  unfold LiveHub.sleep
  split
  · exact hs
  · exact (hs.run _ _).step (.clock _)

theorem Reachable.awaitCount (hs : s.Reachable) (held : LiveHub → Nat) (count n : Nat) :
    (s.awaitCount held count n).1.Reachable := by
  induction n generalizing s with
  | zero => exact hs
  | succ n ih =>
    unfold LiveHub.awaitCount
    split
    · exact hs
    · exact ih (hs.sleep 5)

theorem Reachable.deliverWaiting (hs : s.Reachable) (b : Backend) (c : EngineCallback) :
    (s.deliverWaiting b c).1.Reachable := by
  unfold LiveHub.deliverWaiting
  split
  · exact hs
  · rename_i sent
    have sent := hs.step (.send rfl (fun _ _ h => by cases h) sent)
    dsimp only
    split
    · exact sent
    · exact sent.run _ _

theorem Reachable.request (hs : s.Reachable) {c : Command} (plain : c.seat? = none)
    (outside : ∀ q r, c ≠ .answered q r) : (s.request c).1.Reachable := by
  unfold LiveHub.request
  split
  · exact hs
  · rename_i sent
    exact ((hs.step .forget).step (.send plain outside sent)).run _ _

theorem Reachable.register (hs : s.Reachable) (l : Listener) : (s.register l).1.Reachable := by
  unfold LiveHub.register
  dsimp only
  unfold LiveHub.request
  split
  · exact hs.step (.late l)
  · rename_i sent
    exact (hs.step (.register l sent)).run _ _

theorem Reachable.shutdown (hs : s.Reachable) : s.shutdown.1.Reachable := by
  unfold LiveHub.shutdown
  split
  · exact hs
  · exact (hs.step .shutDown).request rfl fun _ _ h => by cases h

end LiveHub
end WalletHub
