import WalletHub.Agenda
import WalletHub.Configuration
import WalletHub.Hub
import WalletHub.Intake
import WalletHub.Listener.Room
import WalletHub.Query.Client

/-!
# The hub at work

A hub with its queue, the audience it tells, the queries it sends, and an agenda that says whose
turn it is. Hub, audience and feeder are called when there is something for them and go on until
they have nothing left to do or have to wait; every query is a piece of work of its own. `tick` is
one step of the work in front. Slow listeners and slow answers put their work off to a later
moment, and the clock moves there once nothing is left to do before. A caller waits by `run`: for
its answer, for a moment, or until nothing is left to do. It is looked after between rounds.
-/
namespace WalletHub

/-- Work on the agenda. -/
inductive Duty where
  /-- Commands are taken from the queue. -/
  | hub
  | audience
  /-- Parked commands are taken to the queue. -/
  | feeder
  /-- A sender who waited for room puts a command into the queue. -/
  | sender
  /-- The service is handed a query. -/
  | ask (inquiry : Inquiry)
  /-- The service answers a query, with a failure if that is what it is to be. -/
  | answer (inquiry : Inquiry) (failure : Option QueryError)
  deriving DecidableEq

/-- An event on its way through the audience. -/
structure Serving where
  event : Event
  /-- Listeners whose turn is still to come. -/
  seats : List Seat
  /-- Whether the first of them took its time already. -/
  ready : Bool

structure LiveHub where
  configuration : Configuration
  hub : Hub
  life : Life
  agenda : Agenda Duty
  /-- Whether the hub had its first turn. -/
  begun : Bool
  intake : Intake Command
  /-- What the audience is yet to be told. -/
  mail : List Notification
  room : Room
  /-- Listeners to be registered at the start. -/
  founders : List Seat
  serving : Option Serving
  /-- Whether the audience was told that nothing follows. -/
  dismissed : Bool
  /-- The counts of the audience that can be seen. -/
  published : AudienceStats
  client : Option QueryClient
  /-- Whether a shutdown was asked for. -/
  shutDown : Bool
  /-- The answer to the caller that waits. -/
  answer : Option (Except HubError Answer)

/-- Whether somebody waits for the answer to a command. -/
def Command.isAwaited : Command → Bool
  | .callback .. | .answered .. => false
  | _ => true

namespace LiveHub

/-- A system that is about to start, unless something is wrong with its configuration. -/
def create (c : Configuration) (utxo account : Option Engine) (client : Option QueryClient)
    (listeners : List Listener) : Except HubError LiveHub :=
  c.validate.map fun _ =>
    let (room, founders) := listeners.foldl
      (fun (room, seats) l => let (room, s) := room.present l; (room, seats ++ [s]))
      (Room.empty (c.maxListeners.map UInt64.toNat), ([] : List Seat))
    { configuration := c
      hub := .create c.strict client.isSome utxo account
      life := .running
      agenda := .start [.audience, .hub]
      begun := false
      intake := .empty c.queueCapacity.toNat
      mail := []
      room := room
      founders := founders
      serving := none
      dismissed := false
      published := .zero
      client := client
      shutDown := false
      answer := none }

/-! ## Calls -/

/-- Calls for work that is done once however often it is called for. -/
def call (s : LiveHub) (d : Duty) : LiveHub := { s with agenda := s.agenda.call d }

/-- Goes on with a turn in which so much of the share was used. -/
def goOn (s : LiveHub) (d : Duty) (used : Nat) : LiveHub :=
  { s with agenda := s.agenda.goOn d used }

/-- Sets work aside that used up its share. -/
def setAside (s : LiveHub) (d : Duty) : LiveHub := { s with agenda := s.agenda.setAside d }

/-- Takes over a queue to which something may have come, and calls those who see to it. -/
def withIntake (s : LiveHub) (q : Intake Command) : LiveHub :=
  let s := { s with intake := q }
  let s := if q.queue.isEmpty then s else s.call .hub
  if q.feeders = 0 then s else s.call .feeder

/-- Calls the audience, unless it is busy with an event. -/
def callAudience (s : LiveHub) : LiveHub :=
  match s.serving with
  | none => s.call .audience
  | some _ => s

/-- Leaves something for the audience. -/
def post (s : LiveHub) (mail : List Notification) : LiveHub :=
  if mail.isEmpty then s else { s with mail := s.mail ++ mail }.callAudience

/-! ## Turns of the hub -/

/-- Queues what engines and listeners raise; whether it was accepted. -/
def deliver (s : LiveHub) (backend : Backend) (c : EngineCallback) : LiveHub × Bool :=
  let (q, accepted) := s.intake.send (.callback backend c)
  (s.withIntake q, accepted)

/-- Queues what a listener raised. -/
def deliverAll (s : LiveHub) (raised : List (Backend × EngineCallback)) : LiveHub :=
  raised.foldl (fun s (b, c) => (s.deliver b c).1) s

/-- The first thing the hub does: it announces itself. -/
def begin (s : LiveHub) : LiveHub :=
  let (hub, mail) := s.hub.start
  ({ s with begun := true, hub := hub }.post mail).goOn .hub 0

/-- Takes over what came of a command. When the hub stops, nobody behind the command is
answered. -/
def conclude (s : LiveHub) (c : Command) (t : Turn) : LiveHub :=
  let s := { s with
    hub := t.hub
    agenda := t.queries.foldl (fun g q => g.add (.ask q)) s.agenda
    life := t.life
    answer := t.answer.or s.answer }
  let s := s.post t.mail
  match t.life with
  | .running => s
  | life =>
    let lost := if life = .halted ∧ t.answer = none then c :: s.intake.pending else s.intake.pending
    { s with
      intake := s.intake.close
      answer := if lost.any Command.isAwaited then some (.error .closed) else s.answer }.callAudience

/-- The hub takes the next command, if there is one. Room that it makes in the queue is kept for
the first sender who waits. -/
def hubTurn (s : LiveHub) (used : Nat) : LiveHub :=
  if ¬s.begun then s.begin
  else if s.life ≠ .running then s
  else if used = Agenda.share then s.setAside .hub
  else
    match s.intake.receive with
    | none => s
    | some (c, q) =>
      let agenda := match s.intake.waiting with
        | .feeder _ :: _ | .worker _ :: _ => s.agenda.add .sender
        | _ => s.agenda
      { s with intake := q, agenda := agenda.goOn .hub (used + 1) }.conclude c (s.hub.step c)

/-- The feeder takes the next command to the queue, if there is room. -/
def feederTurn (s : LiveHub) (used : Nat) : LiveHub :=
  if used = Agenda.share ∧ s.intake.overflow ≠ [] then s.setAside .feeder
  else
    match s.intake.feed with
    | some q => (if q.feeders = 0 then s else s.goOn .feeder (used + 1)).withIntake q
    | none => s

/-- A sender for whom room is kept makes use of it; a feeder goes on at once. -/
def senderTurn (s : LiveHub) : LiveHub :=
  match s.intake.redeem fun x => !x.isCaller with
  | some q => (if s.intake.feeders < q.feeders then s.goOn .feeder 1 else s).withIntake q
  | none => s

/-! ## Turns of the query service -/

/-- Queues the answer to a query. -/
def finishQuery (s : LiveHub) (q : Inquiry) (failure : Option QueryError) : LiveHub :=
  match s.client with
  | none => s
  | some client =>
    let (client, result) := client.complete failure q.request
    { s with client := some client }.withIntake (s.intake.sendPast (.answered q result)).1

/-- The service takes a query; without a delay it answers at once. -/
def beginQuery (s : LiveHub) (q : Inquiry) : LiveHub :=
  match s.client with
  | none => s
  | some client =>
    let (client, failure) := client.accept q.network q.request
    let s := { s with client := some client }
    if client.delay = 0 then s.finishQuery q failure
    else { s with agenda := s.agenda.putOff client.delay (.answer q failure) }

/-! ## Turns of the audience -/

/-- Makes the counts of the audience seen. -/
def publish (s : LiveHub) : LiveHub := { s with published := s.room.audience.stats }

/-- One listener acts on an event, and the next one's turn comes. -/
def act (s : LiveHub) (e : Event) (seat : Seat) (rest : List Seat) (used : Nat) : LiveHub :=
  let (room, raised) := s.room.offer seat e
  (({ s with room := room, serving := some ⟨e, rest, false⟩ }).deliverAll raised).goOn .audience used

/-- The event under way moves on by one listener. A slow one takes its time first. -/
def serve (s : LiveHub) (used : Nat) : Serving → LiveHub
  | ⟨_, [], _⟩ => ({ s with serving := none }.publish).goOn .audience used
  | ⟨e, seat :: rest, true⟩ => s.act e seat rest (used + 1)
  | ⟨e, seat :: rest, false⟩ =>
    if ¬seat.listener.wants e ∨ seat.listener.delay = 0 then s.act e seat rest used
    else if used = Agenda.share then s.setAside .audience
    else
      { s with
        serving := some ⟨e, seat :: rest, true⟩
        agenda := s.agenda.putOff seat.listener.delay .audience }

/-- Listeners are registered that were there from the start. -/
def found (s : LiveHub) : LiveHub :=
  let room := s.founders.foldl (fun room f => (room.register f).1) s.room
  { s with room := room, founders := [] }.publish

/-- The answer to a change of the audience. -/
def changed (s : LiveHub) (room : Room) (result : Except HubError Unit) : LiveHub :=
  { s with room := room, answer := some (result.map fun _ => .done) }.publish

/-- Nothing follows: the audience is let go. -/
def dismiss (s : LiveHub) : LiveHub := { s with room := s.room.dismiss, dismissed := true }.publish

/-- Tells the audience one thing. -/
def tell (s : LiveHub) : Notification → LiveHub
  | .event e =>
    { s with
      room := s.room.announce e
      serving := some ⟨e, s.room.audience.seats, false⟩ }
  | .register seat =>
    let (room, result) := s.room.register seat
    s.changed room result
  | .remove name =>
    let (room, result) := s.room.remove name
    s.changed room result
  | .barrier => { s with answer := some (.ok .done) }.publish
  | .shutdown => { s.dismiss with answer := some (.ok .done) }

/-- The audience's turn. An audience whose hub is gone is told the rest and then let go. -/
def audienceTurn (s : LiveHub) (used : Nat) : LiveHub :=
  if s.dismissed then s
  else if !s.founders.isEmpty then s.found.goOn .audience used
  else
    match s.serving with
    | some v => s.serve used v
    | none =>
      if used = Agenda.share then s.setAside .audience
      else
        match s.mail with
        | n :: rest => ({ s with mail := rest }.tell n).goOn .audience (used + 1)
        | [] => if s.life = .running then s else s.dismiss

/-! ## Time -/

/-- One step of a piece of work that used so much of its share. -/
def perform (s : LiveHub) (used : Nat) : Duty → LiveHub
  | .hub => s.hubTurn used
  | .audience => s.audienceTurn used
  | .feeder => s.feederTurn used
  | .sender => s.senderTurn
  | .ask q => s.beginQuery q
  | .answer q failure => s.finishQuery q failure

/-- One step, if there is something left to do in this round. -/
def tick (s : LiveHub) : Option LiveHub :=
  s.agenda.take.map fun (d, used, agenda) => { s with agenda := agenda }.perform used d

/-- The system at a later moment. -/
def atClock (s : LiveHub) (t : Nat) : LiveHub :=
  { s with
    agenda := s.agenda.atMoment t
    hub := { s.hub with
      now := ⟨UInt64.ofNat (t / 1000), UInt32.ofNat (t % 1000 * 1000000)⟩ } }

/-- What a caller waits for. -/
inductive Goal where
  /-- Room in the queue for what it sends. -/
  | room
  | answer
  | moment (t : Nat)
  /-- Nothing left to do. -/
  | quiet

/-- A caller for whom room is kept makes use of it. Callers act between rounds. -/
def callerTurn (s : LiveHub) : Option LiveHub :=
  (s.intake.redeem Sender.isCaller).map s.withIntake

/-- Whether the caller has what it waits for. -/
def meets (s : LiveHub) : Goal → Bool
  | .room => !(s.intake.granted ++ s.intake.waiting).any Sender.isCaller
  | .answer => s.answer.isSome
  | _ => false

/-- The system at the next moment at which something is due, if the caller waits that long. -/
def wait? (s : LiveHub) : Goal → Option LiveHub
  | .moment t => s.agenda.nextMoment?.bind fun a => if a < t then some (s.atClock a) else none
  | _ => s.agenda.nextMoment?.map s.atClock

/-- The system in the next round, and whether the caller goes on waiting. -/
def nextRound (s : LiveHub) (goal : Goal) : LiveHub × Bool :=
  let idle := s.agenda.isIdle
  let s := { s with agenda := s.agenda.nextRound }
  let (s, acted) := match s.callerTurn with
    | some s => (s, true)
    | none => (s, false)
  if s.meets goal then (s, false)
  else if acted ∨ ¬idle then (s, true)
  else
    match s.wait? goal with
    | some s => (s, true)
    | none => (s, false)

/-- Turns are taken, at most `fuel` of them, until the caller has what it waits for. -/
def run (goal : Goal) : Nat → LiveHub → LiveHub
  | 0, s => s
  | fuel + 1, s =>
    match s.tick with
    | some s => run goal fuel s
    | none =>
      match s.nextRound goal with
      | (s, true) => run goal fuel s
      | (s, false) => s

/-- More turns than any caller waits for. -/
def patience : Nat := 10000000

/-- Lets the system work until nothing is left to do. -/
def settle (s : LiveHub) : LiveHub := run .quiet patience s

/-- Lets the system work for some time. What is due at the end of it is called for and not done
yet, and no time at all is no occasion for work. -/
def sleep (s : LiveHub) (millis : Nat) : LiveHub :=
  if millis = 0 then s
  else
    let t := s.agenda.clock + millis
    (run (.moment t) patience s).atClock t

/-- Waits until a tape holds so many events, looking at it every five milliseconds. -/
def awaitCount (s : LiveHub) (held : LiveHub → Nat) (count : Nat) : Nat → LiveHub × Bool
  | 0 => (s, count ≤ held s)
  | n + 1 => if count ≤ held s then (s, true) else (s.sleep 5).awaitCount held count n

/-! ## What callers ask for -/

/-- Queues what an engine raises and waits for room if there is none; whether it was accepted. -/
def deliverWaiting (s : LiveHub) (backend : Backend) (c : EngineCallback) : LiveHub × Bool :=
  match s.intake.sendWaiting (.callback backend c) with
  | (_, false) => (s, false)
  | (q, true) =>
    let s := s.withIntake q
    if s.meets .room then (s, true)
    else
      let s := run .room patience s
      (s, !s.intake.closed)

/-- Queues a command and waits for its answer. -/
def request (s : LiveHub) (c : Command) : LiveHub × Except HubError Answer :=
  match s.intake.sendWaiting c with
  | (_, false) => (s, .error .closed)
  | (q, true) =>
    let s := run .answer patience ({ s with answer := none }.withIntake q)
    (s, s.answer.getD (.error .closed))

/-- Has a listener registered. -/
def register (s : LiveHub) (l : Listener) : LiveHub × Except HubError Answer :=
  let (room, seat) := s.room.present l
  { s with room := room }.request (.register seat)

/-- Shuts the system down; asking again changes nothing. -/
def shutdown (s : LiveHub) : LiveHub × Except HubError Answer :=
  if s.shutDown then (s, .ok .done) else { s with shutDown := true }.request .shutdown

/-- Lets go of the system: it shuts down on its own, if the queue has room for that. -/
def drop (s : LiveHub) : LiveHub :=
  if s.shutDown then s
  else { s with shutDown := true }.withIntake (s.intake.trySend .shutdown).1

/-- Whether callbacks are no longer accepted. -/
def isClosed (s : LiveHub) : Bool := s.intake.closed

/-- The way in for callbacks of a backend, in words. -/
def entranceText (s : LiveHub) (backend : Backend) : String :=
  "EngineCallbacks \x7b backend: "
    ++ (match backend with | .utxo => "Utxo" | .account => "Account")
    ++ ", closed: " ++ Configuration.boolText s.isClosed ++ " \x7d"

/-- The system in words. -/
def text (s : LiveHub) : String :=
  "System \x7b config: " ++ s.configuration.text ++ ", shut_down: "
    ++ Configuration.boolText s.shutDown ++ " \x7d"

end LiveHub
end WalletHub
