import WalletHub.Proofs.Answers
import WalletHub.Proofs.Live

/-!
# The hub at work is a desk

At a desk a query is under way until its answer is in the queue, and the hub takes what is in front.
The hub at work has the query on its agenda first, and then the answer in its intake, where other
commands may overtake it. `LiveHub.Tracks` lets the desk finish a query at the moment at which the
hub takes its answer; until then query and answer are one errand.

* `Reachable.tracked`: every run of the hub at work is a run of a desk, and as long as the hub runs,
  the queries that are under way there are the errands here.
* `Reachable.all_answered`: when no query is left among the errands of a hub that runs, every
  request was answered, once.
-/
namespace WalletHub

namespace Desk

variable {d : Desk}

/-- Only a hub with somebody to ask has queries under way. -/
theorem Reachable.client_of_running (hd : d.Reachable) {x : Nat × Inquiry} (hx : x ∈ d.running) :
    d.session.hub.hasClient = true := by
  induction hd generalizing x with
  | opened => cases hx
  | @step d _ _ hstep ih =>
    cases hstep with
    | arrive | clock => exact ih hx
    | @turn e rest _ _ =>
      have client := (Hub.moves_process d.session.hub e.toCommand).client
      rcases List.mem_append.1 hx with old | new
      · exact client.trans (ih old)
      · refine client.trans (Hub.client_of_queries (c := e.toCommand) fun silent => ?_)
        rw [silent] at new
        cases new
    | finish running v =>
      refine ih (x := x) ?_
      rw [running]
      exact (List.sublist_cons_self ..).append_left _ |>.subset hx
    | setting b y => exact (Hub.client_adjusted ..).trans (ih hx)

/-! ## One command -/

/-- The desk stands where a turn ends, with callbacks that are still to follow, and with the queries
of the turn behind others. -/
structure Follows (d : Desk) (others : List Inquiry) (cs : List (Backend × EngineCallback))
    (t : Turn) : Prop where
  hub : d.session.hub = t.hub
  life : d.session.life = t.life
  queue : t.life = .running → d.queue = cs.map fun c => .command (.callback c.1 c.2)
  running : d.running.map (·.2) = others ++ t.queries

/-- The callbacks follow one after the other, unless the hub stops. -/
theorem Reachable.follow {others : List Inquiry} (hd : d.Reachable)
    (cs : List (Backend × EngineCallback)) {t : Turn} (ht : d.Follows others cs t) :
    ∃ d' : Desk, d'.Reachable ∧ d'.Follows others [] (cs.foldl Turn.follow t) := by
  induction cs generalizing d t with
  | nil => exact ⟨d, hd, ht⟩
  | cons c cs ih =>
    by_cases running : t.life = .running
    · refine ih (hd.step (.turn (ht.queue running) (ht.life.trans running))) ?_
      have next : t.follow c =
          let u := t.hub.process (.callback c.1 c.2)
          ⟨u.hub, t.mail ++ u.mail, t.queries ++ u.queries, t.answer, t.raised ++ u.raised,
            u.life⟩ := by
        unfold Turn.follow
        rw [running]
      rw [next]
      refine ⟨?_, ?_, fun _ => ?_, ?_⟩
      · rw [turn, ht.hub]; rfl
      · rw [turn, ht.hub]; rfl
      · rw [turn]
        simp only [Entry.toCommand, Hub.raised_callback]
        rfl
      · rw [turn, List.map_append, ht.running, ht.hub, List.append_assoc, List.map_map]
        exact congrArg (fun qs => others ++ (t.queries ++ qs)) (List.map_id _)
    · have stays : t.follow c = t := by
        unfold Turn.follow
        split
        · contradiction
        · rfl
      rw [List.foldl_cons, stays]
      exact ih hd ⟨ht.hub, ht.life, fun h => absurd h running, ht.running⟩

/-- The hub takes the only thing in the queue, and the callbacks that it gives rise to. -/
theorem Reachable.turn_step (hd : d.Reachable) (running : d.session.life = .running) {e : Entry}
    (queue : d.queue = [e]) : ∃ d' : Desk, d'.Reachable ∧
      d'.Follows (d.running.map (·.2)) [] (d.session.hub.step e.toCommand) := by
  refine (hd.step (.turn queue running)).follow _ ⟨rfl, rfl, fun _ => List.append_nil _, ?_⟩
  rw [turn, List.map_append, List.map_map]
  exact congrArg (d.running.map (·.2) ++ ·) (List.map_id _)

end Desk

/-! ## Errands with queries -/

namespace Errand

/-- The query that an errand is about. -/
def inquiry? : Errand → Option Inquiry
  | .query q => some q
  | .command (.answered q _) => some q
  | .command _ => none

theorem inquiry?_command {c : Command} (outside : ∀ q r, c ≠ .answered q r) :
    (Errand.command c).inquiry? = none := by
  cases c with
  | answered q r => exact absurd rfl (outside q r)
  | callback | request | register | remove | flush | shutdown => rfl

/-- An answer has the form that was asked for. -/
def Sound : Errand → Prop
  | .command (.answered q r) => ∃ v, r = q.request.result v
  | _ => True

end Errand

/-- A desk with an empty queue takes a command. If that is an answer, its query was under way. -/
theorem Desk.Reachable.hear {d : Desk} (hd : d.Reachable) (queue : d.queue = [])
    (running : d.session.life = .running) {c : Command} (sound : (Errand.command c).Sound)
    {qs : List Inquiry}
    (waits : (d.running.map (·.2)).Perm ((Errand.command c).inquiry?.toList ++ qs)) :
    ∃ (d' : Desk) (others : List Inquiry), d'.Reachable ∧ others.Perm qs ∧
      d'.Follows others [] (d.session.hub.step c) := by
  by_cases answer : ∃ q r, c = .answered q r
  · obtain ⟨q, r, rfl⟩ := answer
    obtain ⟨v, rfl⟩ := sound
    simp only [Errand.inquiry?, Option.toList_some, List.singleton_append] at waits
    obtain ⟨⟨n, q'⟩, there, hq⟩ := List.mem_map.1 (waits.symm.subset List.mem_cons_self)
    cases hq
    obtain ⟨before, after, split⟩ := List.append_of_mem there
    have finished := hd.step (.finish split v)
    rw [queue] at finished
    obtain ⟨d', hd', hfollows⟩ := finished.turn_step running rfl
    refine ⟨d', _, hd', ?_, hfollows⟩
    rw [split, List.map_append, List.map_cons] at waits
    rw [List.map_append]
    exact (List.perm_middle.symm.trans waits).cons_inv
  · have outside : ∀ q r, c ≠ .answered q r := fun q r h => answer ⟨q, r, h⟩
    have arrived := hd.step (.arrive c outside)
    rw [queue] at arrived
    obtain ⟨d', hd', hfollows⟩ := arrived.turn_step running rfl
    refine ⟨d', _, hd', ?_, hfollows⟩
    rw [Errand.inquiry?_command outside] at waits
    exact waits

namespace LiveHub

variable {s s' : LiveHub} {new : List Errand} {waits rest : List Inquiry}

/-- The queries among the errands. -/
def inquiries (s : LiveHub) : List Inquiry := s.errands.filterMap Errand.inquiry?

/-- The hub once it has announced itself. -/
def started (s : LiveHub) : Hub := if s.begun then s.hub else s.hub.start.1

/-- What does not matter to the announcement can be done before it or after it. -/
theorem started_of_comm (f : Hub → Hub) (comm : f s.hub.start.1 = (f s.hub).start.1)
    (hub : s'.hub = f s.hub) (begun : s'.begun = s.begun) : f s.started = s'.started := by
  unfold started
  rw [hub, begun]
  split
  · rfl
  · exact comm

/-- A hub at work stands where a desk stands. Somebody holds the queries in `waits` just now; no
other query is away from the errands. -/
structure Tracks (s : LiveHub) (waits : List Inquiry) (d : Desk) : Prop where
  hub : d.session.hub = s.started
  life : d.session.life = s.life
  client : s.hub.hasClient = s.client.isSome
  underway : ∀ duty used, s.agenda.underway = some (duty, used) → duty.errand? = none
  sound : ∀ e ∈ s.errands, e.Sound
  hopen : s.life = .running → s.intake.closed = false
  queue : s.life = .running → d.queue = []
  running : s.life = .running → (d.running.map (·.2)).Perm (waits ++ s.inquiries)

/-- A hub at work that stands where some run of a desk leads to. -/
def Tracked (s : LiveHub) (waits : List Inquiry) : Prop :=
  ∃ d : Desk, d.Reachable ∧ s.Tracks waits d

/-- Errands that change places leave the desk where it stands. Queries come back from those who
hold them. -/
theorem Tracks.still {d : Desk} (hd : s.Tracks waits d) (same : Still new s s')
    (sound : ∀ e ∈ new, e.Sound) (back : waits.Perm (new.filterMap Errand.inquiry? ++ rest)) :
    s'.Tracks rest d where
  hub := by rw [hd.hub, started, started, same.hub, same.begun]
  life := hd.life.trans same.life.symm
  client := by rw [same.hub, hd.client, same.client]
  underway duty used hu := (same.underway duty used hu).elim id (hd.underway duty used)
  sound e he := (List.mem_append.1 (same.errands.within.subset he)).elim (sound e) (hd.sound e)
  hopen run := (same.closed (same.life ▸ run)).trans (hd.hopen (same.life ▸ run))
  queue run := hd.queue (same.life ▸ run)
  running run := by
    have run : s.life = .running := same.life ▸ run
    have whole := (same.errands.filterMap Errand.inquiry?).whole ⟨run, hd.hopen run⟩
    have moved : (waits ++ s.inquiries).Perm
        (rest ++ (new.filterMap Errand.inquiry? ++ s.inquiries)) := by
      refine (back.append_right _).trans ?_
      rw [List.append_assoc]
      exact List.perm_append_comm_assoc ..
    exact ((hd.running run).trans moved).trans (whole.symm.append_left rest)

theorem Tracked.still (hs : s.Tracked waits) (same : Still new s s') (sound : ∀ e ∈ new, e.Sound)
    (back : waits.Perm (new.filterMap Errand.inquiry? ++ rest)) : s'.Tracked rest := by
  obtain ⟨d, hr, hd⟩ := hs
  exact ⟨d, hr, hd.still same sound back⟩

/-- Nothing comes that has to do with queries. -/
theorem Tracked.plain (hs : s.Tracked []) (same : Still new s s')
    (plain : ∀ e ∈ new, e.inquiry? = none) : s'.Tracked [] := by
  refine hs.still same (fun e he => ?_) ?_
  · have unasked := plain e he
    cases e with
    | query q => trivial
    | command c => cases c <;> trivial
  · rw [List.filterMap_eq_nil_iff.2 plain]
    exact .refl _

theorem plain_raisings (raised : List (Backend × EngineCallback)) :
    ∀ e ∈ raisings raised, e.inquiry? = none := by
  intro e he
  obtain ⟨c, -, rfl⟩ := List.mem_map.1 he
  rfl

theorem Tracked.aside (hs : s.Tracked []) (same : Still [] s s') : s'.Tracked [] :=
  hs.plain same fun _ he => by cases he

/-! ## Turns -/

/-- The hub announces itself. That is where the desk began. -/
theorem Tracked.begin (hs : s.Tracked []) (silent : s.begun = false) : s.begin.Tracked [] := by
  obtain ⟨d, hr, hd⟩ := hs
  have begun : ({ s with begun := true, hub := s.hub.start.1 } : LiveHub).Tracked [] := by
    refine ⟨d, hr, ?_, hd.life, hd.client, hd.underway, hd.sound, hd.hopen, hd.queue, hd.running⟩
    rw [hd.hub, started, silent]
    rfl
  have told : ({ s with
      begun := true
      hub := s.hub.start.1
      mail := s.mail ++ s.hub.start.2 } : LiveHub).Tracked [] :=
    begun.aside (still_audience _ _ _ _ _ _ _ _)
  have posted := alike_post { s with begun := true, hub := s.hub.start.1 } s.hub.start.2
  exact told.aside (posted.trans (alike_goOn _ rfl 0)).toStill

/-- The hub takes the next command: it arrives at the desk, and is taken at once. -/
theorem Tracked.conclude (hs : s.Tracked []) (begun : s.begun = true) (running : s.life = .running)
    {c : Command} {q : Intake Command} (received : s.intake.receive = some (c, q)) :
    (({ s with intake := q } : LiveHub).conclude c (s.hub.step c)).Tracked [] := by
  obtain ⟨d, hr, hd⟩ := hs
  have errands := s.errands_receive received
  have waits := (hd.running running).trans (errands.filterMap Errand.inquiry?)
  rw [House.filterMap_cons_toList] at waits
  have hub : d.session.hub = s.hub := by rw [hd.hub, started, if_pos begun]
  obtain ⟨d', others, hr', same, follows⟩ := hr.hear (hd.queue running) (hd.life.trans running)
    (hd.sound _ (errands.symm.subset List.mem_cons_self)) waits
  rw [hub] at follows
  have taken : ({ s with
      intake := q
      hub := (s.hub.step c).hub
      life := (s.hub.step c).life
      mail := s.mail ++ (s.hub.step c).mail } : LiveHub).Tracked (s.hub.step c).queries := by
    refine ⟨d', hr', ?_, follows.life, ?_, hd.underway, fun e he => ?_, fun _ => ?_, follows.queue,
      fun _ => ?_⟩
    · rw [follows.hub, started, if_pos begun]
    · rw [← hd.client]
      exact s.hub.client_step c
    · exact hd.sound e (errands.symm.subset (List.mem_cons_of_mem _ he))
    · rw [← hd.hopen running]
      exact (Intake.pending_receive received).2
    · rw [follows.running]
      exact List.perm_append_comm.trans (same.append_left _)
  refine taken.still (alike_conclude { s with intake := q } c (s.hub.step c)).toStill
    (fun e he => ?_) ?_
  · obtain ⟨q, -, rfl⟩ := List.mem_map.1 he
    trivial
  · rw [List.append_nil, List.filterMap_map]
    exact .of_eq (List.filterMap_some (l := (s.hub.step c).queries)).symm

theorem Tracked.hubTurn (hs : s.Tracked []) (used : Nat) : (s.hubTurn used).Tracked [] := by
  rcases s.hubTurn_cases used with
    ⟨silent, turn⟩ | same | ⟨s', c, q, same, begun, running, received, turn⟩
  · rw [turn]
    exact hs.begin silent
  · exact hs.aside same.toStill
  · rw [turn]
    exact (hs.aside same.toStill).conclude begun running received

/-- While the hub runs, no query is left with a service that is not there. -/
theorem Tracked.dropped {q : Inquiry} (hs : s.Tracked [q]) (nobody : s.client = none) :
    s.Tracked [] := by
  obtain ⟨d, hr, hd⟩ := hs
  refine ⟨d, hr, hd.hub, hd.life, hd.client, hd.underway, hd.sound, hd.hopen, hd.queue,
    fun run => ?_⟩
  obtain ⟨x, there, -⟩ := List.mem_map.1 ((hd.running run).symm.subset List.mem_cons_self)
  have client := hr.client_of_running there
  have same : d.session.hub.hasClient = s.hub.hasClient := by
    rw [hd.hub, started]
    split <;> rfl
  rw [same, hd.client, nobody] at client
  cases client

/-- The answer to a query takes its place. -/
theorem Tracked.answered {q : Inquiry} {v : Except QueryError q.request.Value}
    (hs : s.Tracked [q]) (same : Alike [.command (.answered q (q.request.result v))] s s') :
    s'.Tracked [] :=
  hs.still same.toStill (List.forall_mem_singleton.2 ⟨v, rfl⟩) (.refl _)

theorem Tracked.finishQuery {q : Inquiry} (hs : s.Tracked [q]) (failure : Option QueryError) :
    (s.finishQuery q failure).Tracked [] := by
  cases client : s.client with
  | none =>
    rw [LiveHub.finishQuery, client]
    exact hs.dropped client
  | some c =>
    obtain ⟨v, same⟩ := alike_finishQuery client q failure
    exact hs.answered same

theorem Tracked.beginQuery {q : Inquiry} (hs : s.Tracked [q]) : (s.beginQuery q).Tracked [] := by
  cases client : s.client with
  | none =>
    rw [LiveHub.beginQuery, client]
    exact hs.dropped client
  | some c =>
    rcases alike_beginQuery client q with same | ⟨v, same⟩
    · exact hs.still same.toStill (List.forall_mem_singleton.2 trivial) (.refl _)
    · exact hs.answered same

/-- **Work.** Whatever work is done is work of a desk, if the query that it is about is in hand. -/
theorem Tracked.perform {d : Duty} (hs : s.Tracked (d.errand?.bind Errand.inquiry?).toList)
    (used : Nat) : (s.perform used d).Tracked [] := by
  cases d with
  | hub => exact hs.hubTurn used
  | audience =>
    obtain ⟨raised, same⟩ := s.still_audienceTurn used
    exact hs.plain same (plain_raisings raised)
  | feeder => exact hs.aside (s.alike_feederTurn used).toStill
  | sender => exact hs.aside s.alike_senderTurn.toStill
  | ask q => exact hs.beginQuery
  | answer q failure => exact hs.finishQuery failure

/-! ## Runs -/

theorem tracked_created {c : Configuration} {utxo account : Option Bool}
    {client : Option QueryClient} {listeners : List Listener}
    (ok : create c (utxo.map (.create .utxo)) (account.map (.create .account)) client listeners =
      .ok s) : s.Tracked [] := by
  unfold create at ok
  cases hvalid : c.validate with
  | error e => rw [hvalid] at ok; cases ok
  | ok u =>
    rw [hvalid] at ok
    cases ok
    refine ⟨_, .opened c.strict client.isSome utxo account, rfl, rfl, rfl, ?_, ?_, fun _ => rfl,
      fun _ => rfl, fun _ => .refl _⟩
    · rintro duty used ⟨⟩
    · rintro e ⟨⟩

/-- What is in front is taken, with the query that it is about. -/
theorem Tracked.tick (hs : s.Tracked []) (due : s.tick = some s') : s'.Tracked [] := by
  obtain ⟨⟨duty, used, g⟩, taken, rfl⟩ := Option.map_eq_some_iff.1 due
  obtain ⟨d, hr, hd⟩ := hs
  obtain ⟨idle, tasks⟩ := s.errands_take taken
  have inHand : ({ s with agenda := g } : LiveHub).Tracked
      (duty.errand?.bind Errand.inquiry?).toList := by
    refine ⟨d, hr, hd.hub, hd.life, hd.client, fun _ _ hu => ?_, fun e he => hd.sound e ?_,
      hd.hopen, hd.queue, fun run => (hd.running run).trans ?_⟩
    · rw [idle] at hu
      cases hu
    · obtain ⟨-, same⟩ | perm := tasks
      · rw [same]
        exact he
      · exact perm.symm.subset (List.mem_append_right _ he)
    · obtain ⟨busy, same⟩ | perm := tasks
      · rw [hd.underway duty used busy, inquiries, same]
        exact .refl _
      · refine (perm.filterMap Errand.inquiry?).trans (.of_eq ?_)
        rw [List.filterMap_append]
        cases duty.errand? with
        | none => rfl
        | some e =>
          rw [Option.toList_some, House.filterMap_cons_toList, List.filterMap_nil, List.append_nil]
          rfl
  exact inHand.perform used

/-- **Steps.** Whatever happens to a hub at work, it stands where a desk may come to stand. -/
theorem Tracked.step (hs : s.Tracked []) (hstep : s.Step s') : s'.Tracked [] := by
  cases hstep with
  | tick due => exact hs.tick due
  | round => exact hs.aside s.alike_nextRound.toStill
  | clock t =>
    obtain ⟨d, hr, hd⟩ := hs.aside (s.alike_atMoment t).toStill
    have later := hr.step (.clock (s.atClock t).hub.now)
    refine ⟨_, later, ?_, hd.life, hd.client, hd.underway, hd.sound, hd.hopen, hd.queue, hd.running⟩
    rw [hd.hub]
    exact started_of_comm (fun h => { h with now := (s.atClock t).hub.now }) rfl rfl rfl
  | caller kept =>
    obtain ⟨q, hq, rfl⟩ := Option.map_eq_some_iff.1 kept
    exact hs.aside (alike_redeem hq).toStill
  | callback b c => exact hs.plain (s.alike_deliver b c).toStill (plain_raisings [(b, c)])
  | @send c q _ outside sent =>
    have takes := s.intake.takes_sendWaiting c
    rw [sent] at takes
    exact hs.plain (s.alike_withIntake takes).toStill
      (List.forall_mem_singleton.2 (Errand.inquiry?_command outside))
  | @register l q sent =>
    have takes := s.intake.takes_sendWaiting (.register (s.room.present l).2)
    rw [sent] at takes
    have presented := s.still_audience (s.room.present l).1 s.founders s.serving s.dismissed s.mail
      s.published none
    have registered := (alike_withIntake
      { s with room := (s.room.present l).1, answer := none } takes).toStill.after presented
    exact hs.plain registered (List.forall_mem_singleton.2 rfl)
  | late l => exact hs.aside (s.still_audience ..)
  | clear name => exact hs.aside (s.still_audience ..)
  | forget | shutDown => exact hs.aside (s.alike_aside _ _ _).toStill
  | drop =>
    rcases s.alike_drop with same | same
    · exact hs.aside same.toStill
    · exact hs.plain same.toStill (List.forall_mem_singleton.2 rfl)
  | setting b x =>
    obtain ⟨d, hr, hd⟩ := hs
    refine ⟨_, hr.step (.setting b x), ?_, hd.life, (Hub.client_adjusted ..).trans hd.client,
      hd.underway, hd.sound, hd.hopen, hd.queue, hd.running⟩
    rw [hd.hub]
    exact started_of_comm (·.adjusted b x) (s.hub.start_adjusted b x).symm rfl rfl
  | service c there =>
    obtain ⟨c', client⟩ := Option.isSome_iff_exists.1 there
    exact hs.aside (alike_client client c).toStill

/-- **Refinement.** A hub at work stands where some run of a desk leads to. -/
theorem Reachable.tracked (hs : s.Reachable) : s.Tracked [] := by
  induction hs with
  | created utxo account ok => exact tracked_created ok
  | step _ hstep ih => exact ih.step hstep

/-! ## Answers -/

/-- **Answers.** When no query is left among the errands of a hub that runs, every request that the
engine has the method for was answered, once. What the engines heard is all of it. -/
theorem Reachable.all_answered (hs : s.Reachable) (running : s.life = .running)
    (done : s.inquiries = []) : ∃ d : Desk, d.Reachable ∧
      (∀ b, s.hub.announced b = (d.heard.filter (·.backend = b)).map (·.announced)) ∧
      ∀ n a, d.asked[n]? = some a → a.Attached → a.Supported → d.answers n = 1 := by
  obtain ⟨d, hr, hd⟩ := hs.tracked
  have idle : d.running = [] := by
    have perm := hd.running running
    rw [done] at perm
    exact List.map_eq_nil_iff.1 perm.eq_nil
  refine ⟨d, hr, fun b => ?_, fun n a ha attached supported => ?_⟩
  · rw [← hr.ledger.log b, hd.hub, started]
    split <;> rfl
  · have once := (hr.ledger.accounts n a ha attached).once supported
    rw [Desk.executing, Desk.completing, idle, hd.queue running] at once
    exact once

end LiveHub
end WalletHub
