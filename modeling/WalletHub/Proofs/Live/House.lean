import WalletHub.Proofs.Delivery
import WalletHub.Proofs.Live

/-!
# The hub at work is a house

A house takes its steps in any order; the hub at work takes turns as its agenda says. This module
shows that it never leaves what a house can do. `LiveHub.Shows` says when a hub at work stands
where a house stands: hub, audience and letters are the same, and the queue of the house is empty,
since a command arrives there at the moment at which it is taken. Until then a command counts for
nothing but the listener that it presents (`Errand.seat?`).

* `Reachable.housed`: every run of the hub at work is a run of a house, so that what is delivered
  there is delivered here.
* `Reachable.tape_increasing`: events stand on a tape in the order of their numbers.
-/
namespace WalletHub

/-- Hands a command to a hub whose queue is empty: if it presents a listener, then one of those who
were presented and not sent yet. -/
theorem House.Reachable.hand {h : House} (hr : h.Reachable) (queue : h.queue = []) {c : Command}
    {xs : List Seat} (visitors : (c.seat?.toList ++ xs).Subperm h.visitors) :
    ∃ vs, xs.Subperm vs ∧ ({ h with queue := [c], visitors := vs } : House).Reachable := by
  cases hc : c.seat? with
  | none =>
    have hsent := hr.step (.arrive c hc)
    rw [queue, List.nil_append] at hsent
    rw [hc] at visitors
    exact ⟨h.visitors, visitors, hsent⟩
  | some x =>
    obtain rfl : c = .register x := by cases c <;> cases hc; rfl
    rw [hc, Option.toList_some, List.singleton_append] at visitors
    obtain ⟨before, after, hx⟩ := List.append_of_mem (visitors.subset List.mem_cons_self)
    have hsent := hr.step (.enlist hx)
    rw [queue, List.nil_append] at hsent
    refine ⟨before ++ after, ?_, hsent⟩
    rw [hx] at visitors
    exact (List.subperm_cons x).1 (visitors.trans List.perm_middle.subperm)

/-- The listener that is presented by an errand. -/
def Errand.seat? : Errand → Option Seat
  | .query _ => none
  | .command c => c.seat?

namespace LiveHub

variable {s s' s'' : LiveHub} {new : List Errand}

/-- A hub at work stands where a house stands. -/
structure Shows (s : LiveHub) (h : House) : Prop where
  hub : h.hub = s.hub
  begun : h.begun = s.begun
  life : h.life = s.life
  founders : h.founders = s.founders
  room : h.hall.room = s.room
  serving : h.hall.serving = s.turns
  dismissed : h.hall.dismissed = s.dismissed
  unread : h.unread.map (·.body) = s.mail
  queue : h.queue = []
  visitors : (s.errands.filterMap Errand.seat?).Subperm h.visitors

/-- A hub at work that stands where some run of a house leads to. -/
def Housed (s : LiveHub) : Prop := ∃ h : House, h.Reachable ∧ s.Shows h

theorem Shows.alike {h : House} (hh : s.Shows h) (same : Alike new s s')
    (visitors : (new.filterMap Errand.seat? ++ s.errands.filterMap Errand.seat?).Subperm
      h.visitors) : s'.Shows h where
  hub := hh.hub.trans same.hub.symm
  begun := hh.begun.trans same.begun.symm
  life := hh.life.trans same.life.symm
  founders := hh.founders.trans same.founders.symm
  room := hh.room.trans same.room.symm
  serving := hh.serving.trans same.serving.symm
  dismissed := hh.dismissed.trans same.dismissed.symm
  unread := hh.unread.trans same.mail.symm
  queue := hh.queue
  visitors := (same.errands.filterMap Errand.seat?).within.trans visitors

/-- Errands that present nobody leave the house where it stands. -/
theorem Housed.alike (hs : s.Housed) (same : Alike new s s')
    (plain : new.filterMap Errand.seat? = []) : s'.Housed := by
  obtain ⟨h, hr, hh⟩ := hs
  refine ⟨h, hr, hh.alike same ?_⟩
  rw [plain]
  exact hh.visitors

theorem seats_raisings (raised : List (Backend × EngineCallback)) :
    (raisings raised).filterMap Errand.seat? = [] := by
  simp [raisings, Errand.seat?, Command.seat?]

/-! ## Turns -/

/-- The hub announces itself. -/
theorem Housed.begin (hs : s.Housed) (silent : s.begun = false) : s.begin.Housed := by
  obtain ⟨h, hr, hh⟩ := hs
  have begun : ({ s with
      begun := true
      hub := s.hub.start.1
      mail := s.mail ++ s.hub.start.2 } : LiveHub).Housed := by
    refine ⟨h.begin, hr.step (.begin (hh.begun.trans silent)), ?_⟩
    refine ⟨?_, rfl, hh.life, hh.founders, hh.room, hh.serving, hh.dismissed, ?_, hh.queue,
      hh.visitors⟩
    · rw [House.begin, hh.hub]
    · rw [House.begin, List.map_append, List.map_map, hh.unread, hh.hub]
      exact congrArg (s.mail ++ ·) (List.map_id _)
  have posted := alike_post { s with begun := true, hub := s.hub.start.1 } s.hub.start.2
  exact begun.alike (posted.trans (alike_goOn _ rfl 0)) rfl

/-- The hub takes the next command: it arrives at the house, and is taken at once. -/
theorem Housed.conclude (hs : s.Housed) (begun : s.begun = true) (running : s.life = .running)
    {c : Command} {q : Intake Command} (received : s.intake.receive = some (c, q)) :
    (({ s with intake := q } : LiveHub).conclude c (s.hub.step c)).Housed := by
  obtain ⟨h, hr, hh⟩ := hs
  have waiting : (c.seat?.toList ++
      ({ s with intake := q } : LiveHub).errands.filterMap Errand.seat?).Subperm h.visitors := by
    have errands := (s.errands_receive received).filterMap Errand.seat?
    rw [House.filterMap_cons_toList] at errands
    exact errands.symm.subperm.trans hh.visitors
  obtain ⟨vs, rest, handed⟩ := hr.hand hh.queue waiting
  have taken : ({ s with
      intake := q
      hub := (s.hub.step c).hub
      life := (s.hub.step c).life
      mail := s.mail ++ (s.hub.step c).mail } : LiveHub).Housed := by
    refine ⟨_, handed.step (.take rfl (hh.begun.trans begun) (hh.life.trans running)), ?_⟩
    refine ⟨?_, hh.begun, ?_, hh.founders, hh.room, hh.serving, hh.dismissed, ?_, rfl, rest⟩
    · rw [House.take, hh.hub]
    · rw [House.take, hh.hub]
    · rw [House.take, List.map_append, List.map_map, hh.unread, hh.hub]
      exact congrArg (s.mail ++ ·) (List.map_id _)
  refine taken.alike (alike_conclude { s with intake := q } c (s.hub.step c)) ?_
  simp [Errand.seat?]

theorem Housed.hubTurn (hs : s.Housed) (used : Nat) : (s.hubTurn used).Housed := by
  rcases s.hubTurn_cases used with
    ⟨silent, turn⟩ | same | ⟨s', c, q, same, begun, running, received, turn⟩
  · rw [turn]
    exact hs.begin silent
  · exact hs.alike same rfl
  · rw [turn]
    exact (hs.alike same rfl).conclude begun running received

/-- Listeners that are there from the start are registered one after the other. -/
theorem Housed.found (hs : s.Housed) : s.found.Housed := by
  have all (xs : List Seat) : ∀ room, ({ s with room := room, founders := xs } : LiveHub).Housed →
      ({ s with
        room := xs.foldl (fun room f => (room.register f).1) room
        founders := [] } : LiveHub).Housed := by
    induction xs with
    | nil => exact fun _ hs => hs
    | cons x xs ih =>
      rintro room ⟨h, hr, hh⟩
      have entered : ({ s with
          room := (room.register x).1
          founders := xs } : LiveHub).Housed := by
        have visitors := hh.visitors
        simp only [errands] at visitors
        refine ⟨_, hr.step (.found hh.founders), ?_⟩
        refine ⟨hh.hub, hh.begun, hh.life, rfl, ?_, ?_, ?_, hh.unread, hh.queue, visitors⟩
        · rw [Hall.room_enter, hh.room]
        · simp only [Hall.serving_enter, hh.serving, turns]
        · rw [Hall.dismissed_enter, hh.dismissed]
      rw [List.foldl_cons]
      exact ih _ entered
  exact (all s.founders s.room hs).alike (alike_aside _ _ _ _) rfl

/-- One listener acts. What it raises waits. -/
theorem Housed.act (hs : s.Housed) {e : Event} {x : Seat} {rest : List Seat}
    (turns : s.turns = some (e, x :: rest)) (used : Nat) : (s.act e x rest used).Housed := by
  obtain ⟨h, hr, hh⟩ := hs
  have offered : ({ s with
      room := (s.room.offer x e).1
      serving := some ⟨e, rest, false⟩ } : LiveHub).Housed := by
    refine ⟨_, hr.step (.offer (hh.serving.trans turns)), ?_⟩
    refine ⟨hh.hub, hh.begun, hh.life, hh.founders, ?_, rfl, hh.dismissed, hh.unread, hh.queue,
      hh.visitors⟩
    rw [Hall.offer, hh.room]
  exact offered.alike ((alike_deliverAll _ _).trans (alike_goOn _ rfl used)) (seats_raisings _)

theorem Housed.serve (hs : s.Housed) {v : Serving} (serving : s.serving = some v) (used : Nat) :
    (s.serve used v).Housed := by
  have turns : s.turns = some (v.event, v.seats) := by rw [LiveHub.turns, serving]; rfl
  obtain ⟨e, seats, ready⟩ := v
  cases seats with
  | nil =>
    obtain ⟨h, hr, hh⟩ := hs
    have served : ({ s with serving := none } : LiveHub).Housed :=
      ⟨_, hr.step (.served (hh.serving.trans turns)), hh.hub, hh.begun, hh.life, hh.founders,
        hh.room, rfl, hh.dismissed, hh.unread, hh.queue, hh.visitors⟩
    exact served.alike ((alike_aside _ _ _ _).trans (alike_goOn _ rfl used)) rfl
  | cons x rest =>
    cases ready with
    | true => exact hs.act turns (used + 1)
    | false =>
      rw [LiveHub.serve]
      split
      · exact hs.act turns used
      · split
        · exact hs.alike (s.alike_setAside rfl) rfl
        · -- the listener is slow, and the event waits
          have waits : Alike [] s { s with serving := some ⟨e, x :: rest, true⟩ } :=
            ⟨⟨rfl, rfl, rfl, rfl, fun _ => rfl, id, fun _ _ => .inr, .refl _⟩, rfl, rfl, turns.symm,
              rfl, rfl⟩
          have later := alike_agenda { s with serving := some ⟨e, x :: rest, true⟩ } [.audience]
            (s.agenda.tasks_putOff x.listener.delay _) fun _ _ => .inr
          exact hs.alike (waits.trans later) rfl

/-- The audience is told one thing. -/
theorem Housed.tell (hs : s.Housed) (staying : s.dismissed = false) (founders : s.founders = [])
    (idle : s.serving = none) {n : Notification} {rest : List Notification}
    (mail : s.mail = n :: rest) : (({ s with mail := rest } : LiveHub).tell n).Housed := by
  obtain ⟨h, hr, hh⟩ := hs
  obtain ⟨l, ls, unread, rfl, hrest⟩ := List.map_eq_cons_iff.1 (hh.unread.trans mail)
  have quiet : h.hall.serving = none := by rw [hh.serving, turns, idle]; rfl
  have told := hr.step (.tell (hh.founders.trans founders) quiet
    (hh.dismissed.trans staying) unread)
  -- what remains to be compared is the hall
  have shown (room : Room) (serving : Option Serving) (dismissed : Bool)
      (hroom : (h.hall.tell l).room = room)
      (hserving : (h.hall.tell l).serving = serving.map fun v => (v.event, v.seats))
      (hdismissed : (h.hall.tell l).dismissed = dismissed) : ({ s with
        mail := rest
        room := room
        serving := serving
        dismissed := dismissed } : LiveHub).Housed :=
    ⟨_, told, hh.hub, hh.begun, hh.life, hh.founders, hroom, hserving, hdismissed, hrest, hh.queue,
      hh.visitors⟩
  have serving : h.hall.serving = s.serving.map fun v => (v.event, v.seats) := hh.serving
  obtain ⟨n, body⟩ := l
  cases body with
  | event e =>
    refine shown _ (some ⟨e, s.room.audience.seats, false⟩) _ ?_ ?_ hh.dismissed
    · rw [← hh.room]
      rfl
    · rw [← hh.room]
      rfl
  | register x =>
    rw [Hall.tell_register] at shown
    have registered := shown (s.room.register x).1 s.serving s.dismissed
      (by rw [Hall.room_enter]; exact congrArg (fun r => (Room.register r x).1) hh.room)
      (by rw [Hall.serving_enter]; exact serving)
      (by rw [Hall.dismissed_enter]; exact hh.dismissed)
    simp only [LiveHub.tell]
    exact registered.alike (alike_aside _ _ _ _) rfl
  | remove name =>
    obtain ⟨-, -, served, gone, room⟩ := h.hall.tell_remove n name
    have removed := shown (s.room.remove name).1 s.serving s.dismissed
      (by rw [room, hh.room]) (served.trans serving) (gone.trans hh.dismissed)
    simp only [LiveHub.tell]
    exact removed.alike (alike_aside _ _ _ _) rfl
  | barrier =>
    exact (shown _ _ _ hh.room serving hh.dismissed).alike (alike_aside _ _ _ _) rfl
  | shutdown =>
    have dismissed := shown s.room.dismiss s.serving true (by rw [← hh.room]; rfl) serving rfl
    exact dismissed.alike (alike_aside _ _ _ _) rfl

/-- Nothing follows. -/
theorem Housed.dismiss (hs : s.Housed) (founders : s.founders = []) (idle : s.serving = none)
    (mail : s.mail = []) (stopped : s.life ≠ .running) : s.dismiss.Housed := by
  obtain ⟨h, hr, hh⟩ := hs
  have quiet : h.hall.serving = none := by rw [hh.serving, turns, idle]; rfl
  have unread : h.unread = [] := List.map_eq_nil_iff.1 (hh.unread.trans mail)
  have gone : ({ s with room := s.room.dismiss, dismissed := true } : LiveHub).Housed := by
    refine ⟨_, hr.step (.leave (hh.founders.trans founders) quiet unread
      (by rw [hh.life]; exact stopped)), ?_⟩
    refine ⟨hh.hub, hh.begun, hh.life, hh.founders, ?_, hh.serving, rfl, hh.unread, hh.queue,
      hh.visitors⟩
    rw [Hall.dismiss, hh.room]
  exact gone.alike (alike_aside _ _ _ _) rfl

theorem Housed.audienceTurn (hs : s.Housed) (used : Nat) : (s.audienceTurn used).Housed := by
  unfold LiveHub.audienceTurn
  split
  · exact hs
  · rename_i staying
    split
    · exact hs.found.alike (alike_goOn _ rfl used) rfl
    · rename_i founders
      have founders : s.founders = [] := by simpa using founders
      split
      · rename_i v serving
        exact hs.serve serving used
      · rename_i idle
        split
        · exact hs.alike (s.alike_setAside rfl) rfl
        · split
          · rename_i mail
            have told := hs.tell (Bool.eq_false_iff.2 staying) founders idle mail
            exact told.alike (alike_goOn _ rfl (used + 1)) rfl
          · rename_i mail
            split
            · exact hs
            · rename_i stopped
              exact hs.dismiss founders idle mail stopped

/-- **Work.** Whatever work is done is work of a house. -/
theorem Housed.perform (hs : s.Housed) (used : Nat) (d : Duty) : (s.perform used d).Housed := by
  cases d with
  | hub => exact hs.hubTurn used
  | audience => exact hs.audienceTurn used
  | feeder => exact hs.alike (s.alike_feederTurn used) rfl
  | sender => exact hs.alike s.alike_senderTurn rfl
  | ask q =>
    cases client : s.client with
    | none =>
      rw [LiveHub.perform, beginQuery, client]
      exact hs
    | some c =>
      rcases alike_beginQuery client q with same | ⟨v, same⟩
      · exact hs.alike same rfl
      · exact hs.alike same rfl
  | answer q failure =>
    cases client : s.client with
    | none =>
      rw [LiveHub.perform, finishQuery, client]
      exact hs
    | some c =>
      obtain ⟨v, same⟩ := alike_finishQuery client q failure
      exact hs.alike same rfl

/-! ## Runs -/

/-- Presenting one listener after the other. -/
theorem foldl_present (f : Room × List Seat → Listener → Room × List Seat)
    (hf : ∀ r xs l, f (r, xs) l = ((r.present l).1, xs ++ [(r.present l).2])) (r : Room)
    (xs : List Seat) (ls : List Listener) :
    ls.foldl f (r, xs) = ((r.presentAll ls).1, xs ++ (r.presentAll ls).2) := by
  induction ls generalizing r xs with
  | nil => simp [Room.presentAll]
  | cons l ls ih => simp [Room.presentAll, hf, ih]

theorem housed_created {c : Configuration} {utxo account : Option Engine}
    {client : Option QueryClient} {listeners : List Listener}
    (ok : create c utxo account client listeners = .ok s) : s.Housed := by
  unfold create at ok
  rw [foldl_present _ fun _ _ _ => rfl] at ok
  cases hvalid : c.validate with
  | error e => rw [hvalid] at ok; cases ok
  | ok u =>
    rw [hvalid] at ok
    cases ok
    have opened := House.Reachable.opened c.strict client.isSome utxo account
      (c.maxListeners.map UInt64.toNat) listeners
    exact ⟨_, opened, rfl, rfl, rfl, rfl, rfl, rfl, rfl, rfl, rfl, List.nil_subperm⟩

/-- A listener is presented. -/
theorem Shows.present {h : House} (hh : s.Shows h) (l : Listener) :
    ({ s with room := (s.room.present l).1 } : LiveHub).Shows { h with
      hall := { h.hall with room := (h.hall.room.present l).1 }
      visitors := h.visitors ++ [(h.hall.room.present l).2] } := by
  refine ⟨hh.hub, hh.begun, hh.life, hh.founders, ?_, hh.serving, hh.dismissed, hh.unread,
    hh.queue, ?_⟩
  · exact congrArg (fun room => (Room.present room l).1) hh.room
  · exact hh.visitors.trans (List.sublist_append_left ..).subperm

/-- A listener is presented and sent. -/
theorem Housed.register (hs : s.Housed) (l : Listener) {q : Intake Command}
    (takes : s.intake.Takes [.register (s.room.present l).2] q) :
    (({ s with room := (s.room.present l).1, answer := none } : LiveHub).withIntake q).Housed := by
  obtain ⟨h, hr, hh⟩ := hs
  have sent := alike_withIntake { s with room := (s.room.present l).1, answer := none } takes
  have presented := alike_aside { s with room := (s.room.present l).1 } s.published s.shutDown none
  refine ⟨_, hr.step (.present l), (hh.present l).alike (sent.after presented) ?_⟩
  have visitors := (List.subperm_cons (s.room.present l).2).2 hh.visitors
  refine visitors.trans (List.Perm.subperm ?_)
  rw [hh.room]
  exact (List.perm_append_singleton ..).symm

/-- **Steps.** Whatever happens to a hub at work, it stands where a house may come to stand. -/
theorem Housed.step (hs : s.Housed) (hstep : s.Step s') : s'.Housed := by
  cases hstep with
  | tick due =>
    obtain ⟨⟨d, used, g⟩, taken, rfl⟩ := Option.map_eq_some_iff.1 due
    obtain ⟨h, hr, hh⟩ := hs
    have fewer : ({ s with agenda := g } : LiveHub).errands.Subperm s.errands := by
      obtain ⟨-, ⟨-, same⟩ | perm⟩ := s.errands_take taken
      · exact same ▸ .refl _
      · exact (List.sublist_append_right ..).subperm.trans perm.symm.subperm
    have begun : ({ s with agenda := g } : LiveHub).Housed :=
      ⟨h, hr, hh.hub, hh.begun, hh.life, hh.founders, hh.room, hh.serving, hh.dismissed, hh.unread,
        hh.queue, (subperm_filterMap Errand.seat? fewer).trans hh.visitors⟩
    exact begun.perform used d
  | round => exact hs.alike s.alike_nextRound rfl
  | clock t =>
    obtain ⟨h, hr, hh⟩ := hs.alike (s.alike_atMoment t) rfl
    have later := hr.step (.clock (s.atClock t).hub.now)
    exact ⟨_, later, by rw [hh.hub]; rfl, hh.begun, hh.life, hh.founders, hh.room, hh.serving,
      hh.dismissed, hh.unread, hh.queue, hh.visitors⟩
  | caller kept =>
    obtain ⟨q, hq, rfl⟩ := Option.map_eq_some_iff.1 kept
    exact hs.alike (alike_redeem hq) rfl
  | callback b c => exact hs.alike (s.alike_deliver b c) rfl
  | @send c q plain _ sent =>
    have takes := s.intake.takes_sendWaiting c
    rw [sent] at takes
    exact hs.alike (s.alike_withIntake takes) (by simp [Errand.seat?, plain])
  | @register l q sent =>
    have takes := s.intake.takes_sendWaiting (.register (s.room.present l).2)
    rw [sent] at takes
    exact hs.register l takes
  | late l =>
    obtain ⟨h, hr, hh⟩ := hs
    exact ⟨_, hr.step (.present l), hh.present l⟩
  | forget | shutDown => exact hs.alike (s.alike_aside _ _ _) rfl
  | service c there =>
    obtain ⟨c', client⟩ := Option.isSome_iff_exists.1 there
    exact hs.alike (alike_client client c) rfl
  | drop => exact s.alike_drop.elim (hs.alike · rfl) (hs.alike · rfl)
  | setting b x =>
    obtain ⟨h, hr, hh⟩ := hs
    exact ⟨_, hr.step (.setting b x), by rw [hh.hub], hh.begun, hh.life, hh.founders, hh.room,
      hh.serving, hh.dismissed, hh.unread, hh.queue, hh.visitors⟩
  | clear name =>
    obtain ⟨h, hr, hh⟩ := hs
    exact ⟨_, hr.step (.clear name), hh.hub, hh.begun, hh.life, hh.founders, by rw [hh.room],
      hh.serving, hh.dismissed, hh.unread, hh.queue, hh.visitors⟩

/-- **Refinement.** A hub at work stands where some run of a house leads to. -/
theorem Reachable.housed (hs : s.Reachable) : s.Housed := by
  induction hs with
  | created utxo account ok => exact housed_created ok
  | step _ hstep ih => exact ih.step hstep

/-! ## Tapes -/

/-- **Tapes.** The events on a tape stand in the order of their numbers, each once. -/
theorem Reachable.tape_increasing (hs : s.Reachable) (rec : Recorder) :
    ((s.room.tape rec).map (·.sequence)).Pairwise (· < ·) := by
  obtain ⟨h, hr, hh⟩ := hs.housed
  have heard := hr.heard_increasing rec.serial
  rw [hh.room] at heard
  exact heard.sublist (((List.drop_sublist ..).filterMap _).map _)

end LiveHub
end WalletHub
