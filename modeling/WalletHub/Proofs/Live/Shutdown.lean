import WalletHub.Proofs.Cleanup
import WalletHub.Proofs.Live.Desk
import WalletHub.Proofs.Live.House
import WalletHub.Proofs.Teardown

/-!
# Shutdown of the hub at work

The way in is closed in the same turn in which the hub stops, and nothing opens it again. So whoever
asks for something afterwards is told that the hub is closed, and whoever asks for a shutdown once
more is told that it is done.

* `Step.lasts_or_sealed`: one step.
* `Reachable.sealed`, `Run.lasts`: the way in is closed once the hub does not run, and stays so.
* `torn_down`: what comes of a shutdown: for the hub and its engines, for the audience, and for
  those who ask for something later.
-/
namespace WalletHub

namespace LiveHub

variable {s s' s'' : LiveHub} {new : List Errand}

/-! ## The way in -/

/-- The hub runs or does not, as before, and a way in that is closed stays so. -/
structure Lasts (s s' : LiveHub) : Prop where
  life : s'.life = s.life
  shut : s.intake.closed = true → s'.intake.closed = true

/-- The way in to a hub that does not run is closed. -/
def Sealed (s : LiveHub) : Prop := s.life ≠ .running → s.intake.closed = true

theorem lasts_refl (s : LiveHub) : s.Lasts s := ⟨rfl, id⟩

theorem Lasts.trans (h : s.Lasts s') (h' : s'.Lasts s'') : s.Lasts s'' :=
  ⟨h'.life.trans h.life, h'.shut ∘ h.shut⟩

theorem Still.lasts (same : Still new s s') : s.Lasts s' := ⟨same.life, same.shut⟩

theorem Alike.lasts (same : Alike new s s') : s.Lasts s' := same.toStill.lasts

theorem Lasts.sealed (h : s.Lasts s') (hs : s.Sealed) : s'.Sealed := by
  intro halted
  rw [h.life] at halted
  exact h.shut (hs halted)

theorem lasts_begin (s : LiveHub) : s.Lasts s.begin := by
  have begun : s.Lasts { s with
      begun := true
      hub := s.hub.start.1
      mail := s.mail ++ s.hub.start.2 } := ⟨rfl, id⟩
  have posted := alike_post { s with begun := true, hub := s.hub.start.1 } s.hub.start.2
  exact begun.trans (posted.trans (alike_goOn _ rfl 0)).lasts

/-- The hub closes its way in as it stops. -/
theorem sealed_conclude (s : LiveHub) (c : Command) (t : Turn) : (s.conclude c t).Sealed := by
  have life : (s.conclude c t).life = t.life := (alike_conclude s c t).life
  intro halted
  rw [life] at halted
  unfold conclude
  dsimp only
  split
  · rename_i running
    exact absurd running halted
  · exact (alike_callAudience _).shut rfl

/-- One turn of the hub: the way in stays as it is, unless a hub that ran closes it. -/
theorem lasts_or_sealed_hubTurn (s : LiveHub) (used : Nat) :
    s.Lasts (s.hubTurn used) ∨ s.life = .running ∧ (s.hubTurn used).Sealed := by
  rcases s.hubTurn_cases used with
    ⟨-, turn⟩ | same | ⟨s', c, q, same, -, running, -, turn⟩
  · rw [turn]
    exact .inl s.lasts_begin
  · exact .inl same.lasts
  · rw [turn]
    exact .inr ⟨same.life.symm.trans running, sealed_conclude _ _ _⟩

theorem lasts_or_sealed_perform (s : LiveHub) (used : Nat) (d : Duty) :
    s.Lasts (s.perform used d) ∨ s.life = .running ∧ (s.perform used d).Sealed := by
  cases d with
  | hub => exact s.lasts_or_sealed_hubTurn used
  | audience =>
    obtain ⟨raised, same⟩ := s.still_audienceTurn used
    exact .inl same.lasts
  | feeder => exact .inl (s.alike_feederTurn used).lasts
  | sender => exact .inl s.alike_senderTurn.lasts
  | ask q =>
    refine .inl ?_
    cases client : s.client with
    | none =>
      rw [perform, beginQuery, client]
      exact s.lasts_refl
    | some c =>
      rcases alike_beginQuery client q with same | ⟨v, same⟩
      · exact same.lasts
      · exact same.lasts
  | answer q failure =>
    refine .inl ?_
    cases client : s.client with
    | none =>
      rw [perform, finishQuery, client]
      exact s.lasts_refl
    | some c =>
      obtain ⟨v, same⟩ := alike_finishQuery client q failure
      exact same.lasts

/-! ## Runs -/

/-- **Steps.** Whatever happens, the way in stays as it is, unless a hub that ran closes it. -/
theorem Step.lasts_or_sealed (hstep : s.Step s') :
    s.Lasts s' ∨ s.life = .running ∧ s'.Sealed := by
  cases hstep with
  | tick due =>
    obtain ⟨⟨d, used, g⟩, -, rfl⟩ := Option.map_eq_some_iff.1 due
    have begun : s.Lasts { s with agenda := g } := ⟨rfl, id⟩
    rcases lasts_or_sealed_perform { s with agenda := g } used d with same | sealed
    · exact .inl (begun.trans same)
    · exact .inr sealed
  | caller kept =>
    obtain ⟨q, hq, rfl⟩ := Option.map_eq_some_iff.1 kept
    exact .inl (alike_redeem hq).lasts
  | callback b c => exact .inl (s.alike_deliver b c).lasts
  | @send c q _ _ sent =>
    have takes := s.intake.takes_sendWaiting c
    rw [sent] at takes
    exact .inl (s.alike_withIntake takes).lasts
  | @register l q sent =>
    have takes := s.intake.takes_sendWaiting (.register (s.room.present l).2)
    rw [sent] at takes
    have presented : s.Lasts { s with room := (s.room.present l).1, answer := none } := ⟨rfl, id⟩
    have sent := alike_withIntake { s with room := (s.room.present l).1, answer := none } takes
    exact .inl (presented.trans sent.lasts)
  | drop => exact .inl (s.alike_drop.elim Alike.lasts Alike.lasts)
  | round | clock | late | forget | shutDown | setting | service | clear => exact .inl ⟨rfl, id⟩

/-- The way in to a hub that does not run is closed, in every run. -/
theorem Reachable.sealed (hs : s.Reachable) : s.Sealed := by
  induction hs with
  | @created c utxo account client listeners s ok =>
    unfold create at ok
    cases hvalid : c.validate with
    | error e => rw [hvalid] at ok; cases ok
    | ok u =>
      rw [hvalid] at ok
      cases ok
      exact fun halted => absurd rfl halted
  | step _ hstep ih =>
    rcases hstep.lasts_or_sealed with same | ⟨-, done⟩
    · exact same.sealed ih
    · exact done

/-- What may come of a hub at work later. -/
abbrev Run : LiveHub → LiveHub → Prop := Relation.ReflTransGen Step

/-- A hub that does not run never runs again. -/
theorem Run.lasts (hrun : s.Run s') (halted : s.life ≠ .running) : s.Lasts s' := by
  induction hrun with
  | refl => exact s.lasts_refl
  | tail _ hstep ih =>
    rcases hstep.lasts_or_sealed with same | ⟨running, -⟩
    · exact ih.trans same
    · exact absurd (ih.life.symm.trans running) halted

/-! ## What is answered -/

/-- Nothing is taken in. Whoever asks for something is told that the hub is closed, but for whoever
asks for a shutdown once more. -/
structure Refuses (s : LiveHub) : Prop where
  request : ∀ c, s.request c = (s, .error .closed)
  register : ∀ l, (s.register l).2 = .error .closed
  callback : ∀ b c, (s.deliver b c).2 = false
  again : s.shutDown = true → s.shutdown = (s, .ok .done)

theorem refuses_of_closed (closed : s.intake.closed = true) : s.Refuses := by
  refine ⟨fun c => ?_, fun l => ?_, fun b c => ?_, fun asked => ?_⟩
  · simp only [LiveHub.request, Intake.sendWaiting, closed, if_true]
  · simp only [LiveHub.register, LiveHub.request, Intake.sendWaiting, closed, if_true]
  · simp only [deliver, Intake.send, closed, if_true]
  · simp only [shutdown, asked, if_true]

theorem answer_callAudience (s : LiveHub) : s.callAudience.answer = s.answer := by
  unfold callAudience
  split <;> rfl

theorem intake_post (s : LiveHub) (mail : List Notification) :
    (s.post mail).intake = s.intake := by
  unfold post callAudience
  split
  · rfl
  · split <;> rfl

/-- The turn in which the hub takes a shutdown: it stops, and if somebody waits for the answer to a
command behind it, the answer is that the hub is closed. -/
theorem conclude_shutdown (s : LiveHub) :
    (s.conclude .shutdown (s.hub.step .shutdown)).life = .stopped ∧
      ((∃ c ∈ s.intake.pending, c.isAwaited = true) →
        (s.conclude .shutdown (s.hub.step .shutdown)).answer = some (.error .closed)) := by
  refine ⟨(alike_conclude s .shutdown (s.hub.step .shutdown)).life, fun waiting => ?_⟩
  have stopped : (s.hub.step .shutdown).life = .stopped := rfl
  have lost : s.intake.pending.any Command.isAwaited = true := List.any_eq_true.2 waiting
  simp [conclude, stopped, answer_callAudience, intake_post, lost]

theorem hubTurn_shutdown {q : Intake Command} {used : Nat} (begun : s.begun = true)
    (running : s.life = .running) (share : used ≠ Agenda.share)
    (received : s.intake.receive = some (.shutdown, q)) :
    (s.hubTurn used).life = .stopped ∧
      ((∃ c ∈ q.pending, c.isAwaited = true) →
        (s.hubTurn used).answer = some (.error .closed)) := by
  simp only [hubTurn, begun, running, share, received, not_true, if_false, ne_eq]
  exact conclude_shutdown _

end LiveHub

/-! ## What comes of a shutdown -/

/-- What a shutdown does to the records and to the engines, and what it leaves. -/
structure Session.Ends (s : Session) : Prop where
  running : s.life = .running → s.Closing
  stopped : s.life = .stopped → s.Closed

/-- What a shutdown means to the audience. -/
structure House.Ends (s : House) : Prop where
  /-- When the hub takes a shutdown, a hall that reads on comes to let its listeners go. -/
  comes : s.begun = true → s.life = .running → ∀ rest, s.queue = .shutdown :: rest →
    ∃ s', (s.take .shutdown rest).Reads s' ∧ s'.Reachable ∧ s'.hall.dismissed = true
  /-- By then all that were let in were cleaned up once, after they were handed the last event that
  they were to hear. -/
  parted : s.hall.dismissed = true → ∀ x i, (x, i) ∈ s.hall.joined →
    s.hall.Parted x ∧ s.hall.heard x = x.hears (s.mail.drop i)

/-- What a shutdown means to those who ask a hub at work for something. -/
structure LiveHub.Ends (s : LiveHub) : Prop where
  /-- Its hub stands where some session leads to. -/
  session : ∃ t : Session, t.Reachable ∧ t.hub = s.started ∧ t.life = s.life
  /-- Hub and audience stand where some house leads to. -/
  house : ∃ h : House, h.Reachable ∧ s.Shows h
  /-- When the hub takes a shutdown it stops, and who waits behind it is told that it is closed. -/
  turn : ∀ q used, s.begun = true → s.life = .running → used ≠ Agenda.share →
    s.intake.receive = some (.shutdown, q) → (s.hubTurn used).life = .stopped ∧
      ((∃ c ∈ q.pending, c.isAwaited = true) → (s.hubTurn used).answer = some (.error .closed))
  /-- Whoever asks for something later is told the same. -/
  refuses : s.life ≠ .running → ∀ s', s.Run s' → s'.life = s.life ∧ s'.Refuses

/-- **Shutdown.** In every run, a shutdown has each engine let go of every manager that was ever
made there, in the order in which they were made. It tells the end of all that is left and of the
hub at last, and leaves nothing, so that whatever came into being came to its end, as often. Every
listener that was let in is cleaned up once, after the last event that it is handed. And whoever
asks for something later is told that the hub is closed. -/
theorem torn_down :
    (∀ s : Session, s.Reachable → s.hub.Fits → s.Ends) ∧ (∀ s : House, s.Reachable → s.Ends) ∧
      ∀ s : LiveHub, s.Reachable → s.Ends := by
  refine ⟨fun s hs fits => ?_, fun s hs => ?_, fun s hs => ?_⟩
  · exact ⟨hs.closing fits, hs.closed fits⟩
  · refine ⟨fun begun running rest queue => ?_, fun gone x i hx => hs.parted gone hx⟩
    obtain ⟨s', reads, gone⟩ := s.reads_shutdown rest
    exact ⟨s', reads, (hs.step (.take queue begun running)).reads reads, gone⟩
  · refine ⟨?_, hs.housed, fun q used => LiveHub.hubTurn_shutdown, fun halted s' hrun => ?_⟩
    · obtain ⟨d, hd, tracks⟩ := hs.tracked
      exact ⟨d.session, hd.session, tracks.hub, tracks.life⟩
    · have lasts := hrun.lasts halted
      exact ⟨lasts.life, LiveHub.refuses_of_closed (lasts.shut (hs.sealed halted))⟩

/-! ## Three ends -/

/-- A hub with two managers, the first of which was deleted by its engine. -/
def Session.leaving : Session :=
  (Session.opened true false none (some false)).takes
    [.request (.createManager ⟨⟨"dave", 0⟩, .ethereum true, .apiOnly, "/tmp/dave"⟩),
      .request (.createManager ⟨⟨"carol", 0⟩, .ethereum true, .apiOnly, "/tmp/carol"⟩),
      .callback .account (.manager 0x2000 .deleted),
      .callback .account (.transfer 0x2002 0x2003 0x6000
        (.created ⟨none, none, "1000", .sent, none, none⟩))]

theorem Session.reachable_leaving : Session.leaving.Reachable := (Reachable.opened ..).takes _

theorem Session.fits_leaving : Session.leaving.hub.Fits := by
  apply Hub.fits_of_short
  intro b
  cases b <;> decide +kernel

/-- A hub at work that is about to start, with an engine and nobody in its audience. -/
def LiveHub.starting : LiveHub where
  configuration := .standard
  hub := .create true false none (some (.create .account false))
  life := .running
  agenda := .start [.audience, .hub]
  begun := false
  intake := .empty 1024
  mail := []
  room := .empty none
  founders := []
  serving := none
  dismissed := false
  published := .zero
  client := none
  shutDown := false
  answer := none

theorem LiveHub.reachable_starting : LiveHub.starting.Reachable := by
  have created : LiveHub.create .standard none (some (.create .account false)) none [] =
      .ok LiveHub.starting := rfl
  exact .created none (some false) created

/-- The hub once it was shut down. -/
def LiveHub.shutDownOnce : LiveHub := LiveHub.starting.shutdown.1

theorem LiveHub.reachable_shutDownOnce : LiveHub.shutDownOnce.Reachable :=
  LiveHub.reachable_starting.shutdown

/-- Both managers are let go of, and the end of the second one is told, from its transfer up. In a
house one listener was removed and the other one stayed to the end; both are cleaned up once. A hub
that was shut down refuses whatever comes later. -/
theorem torn_down_thrice :
    (Session.leaving.Closing ∧ (Session.leaving.take .shutdown).Closed ∧
      (Session.leaving.take .shutdown).hub.commands .account =
        Session.leaving.hub.commands .account ++ [.releaseManager 0x2000, .releaseManager 0x2002] ∧
      ((Session.leaving.take .shutdown).notices.drop Session.leaving.notices.length).map
          (fun n => (n.subject, n.stroke)) =
        [(.transfer ⟨⟨.account, 0x2002⟩, ⟨.account, 0x2003⟩, ⟨.account, 0x6000⟩⟩, .speaks),
          (.transfer ⟨⟨.account, 0x2002⟩, ⟨.account, 0x2003⟩, ⟨.account, 0x6000⟩⟩, .closes),
          (.wallet ⟨⟨.account, 0x2002⟩, ⟨.account, 0x2003⟩⟩, .speaks),
          (.wallet ⟨⟨.account, 0x2002⟩, ⟨.account, 0x2003⟩⟩, .speaks),
          (.wallet ⟨⟨.account, 0x2002⟩, ⟨.account, 0x2003⟩⟩, .closes),
          (.manager ⟨.account, 0x2002⟩, .speaks), (.manager ⟨.account, 0x2002⟩, .speaks),
          (.manager ⟨.account, 0x2002⟩, .closes), (.hub, .speaks), (.hub, .closes)]) ∧
    ((∀ x i, (x, i) ∈ House.visited.hall.joined →
        House.visited.hall.Parted x ∧
          House.visited.hall.heard x = x.hears (House.visited.mail.drop i)) ∧
      House.visited.hall.guests.map (·.serial) = [0, 1] ∧
      House.visited.hall.room.history.filterMap (·.cleaned?) = [0, 1]) ∧
    (∀ s', LiveHub.shutDownOnce.Run s' → s'.life = .stopped ∧ s'.Refuses) ∧
      LiveHub.shutDownOnce.shutdown = (LiveHub.shutDownOnce, .ok .done) := by
  have closing := (torn_down.1 Session.leaving Session.reachable_leaving Session.fits_leaving)
  have house := torn_down.2.1 House.visited House.reachable_visited
  have live := torn_down.2.2 LiveHub.shutDownOnce LiveHub.reachable_shutDownOnce
  have stopped : LiveHub.shutDownOnce.life = .stopped := by decide +kernel
  refine ⟨⟨closing.running (by decide +kernel), ?_, by decide +kernel, by decide +kernel⟩,
    ⟨house.parted (by decide +kernel), by decide +kernel, by decide +kernel⟩, fun s' hrun => ?_, ?_⟩
  · exact (closing.running (by decide +kernel)).closed
  · obtain ⟨life, refuses⟩ := live.refuses (by rw [stopped]; decide) s' hrun
    exact ⟨life.trans stopped, refuses⟩
  · have asked : LiveHub.shutDownOnce.shutDown = true := by decide +kernel
    exact (live.refuses (by rw [stopped]; decide) _ .refl).2.again asked

end WalletHub
