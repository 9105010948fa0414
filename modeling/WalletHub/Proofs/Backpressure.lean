import WalletHub.Intake

/-!
# The order of what goes through an intake

Items reach the queue of an intake on four ways: at once, from a caller who waits, from the overflow
by way of a feeder, and from a feeder who waits. Whatever calls, steps of feeders and receipts
follow each other while the intake is open, the items come out as they went in. That rests on a
queue that serves its senders in their turn: nobody is let in while room is kept for a sender who
came before (`cutsIn`).

* `Ordered.does`: what every act keeps. What was received and what is pending are together what was
  accepted, in the order of the calls, and the mark of a draining overflow says whether there is a
  feeder.
* `Ordered.progress`, `rank_does`: an intake that holds something can go on without a call, and not
  for ever.
* `Traffic.served_in_order`: the order of any row of acts, and that nothing stays behind.
-/
namespace WalletHub

/-- Whether a sender is a feeder, with an item in its hands. -/
def Sender.isFeeder {α : Type} : Sender α → Bool
  | .feeder _ => true
  | _ => false

namespace Intake

variable {α : Type}

/-- What happens at an intake while it is open. -/
inductive Act (α : Type) where
  | send (item : α)
  | sendWaiting (item : α)
  | trySend (item : α)
  /-- A feeder takes a step. -/
  | feed
  /-- The oldest item is taken out. -/
  | receive
  /-- A sender of a kind uses the room that is kept for it. -/
  | redeem (kind : Sender α → Bool)

/-- Whether an act is somebody's call. The others happen by themselves. -/
def Act.isCall : Act α → Bool
  | .send _ | .sendWaiting _ | .trySend _ => true
  | .feed | .receive | .redeem _ => false

/-- Whether an act puts an item into the queue before the one of a sender for whom room is kept. -/
def cutsIn (q : Intake α) : Act α → Bool
  | .send _ | .sendWaiting _ | .trySend _ => !q.draining && q.hasRoom && !q.granted.isEmpty
  | .feed => !q.overflow.isEmpty && q.hasRoom && !q.granted.isEmpty
  | .receive => false
  | .redeem kind => q.granted.head?.any fun s => !kind s

/-- Feeders that hold an item and wait for room in the queue. -/
def holding (q : Intake α) : Nat := (q.granted ++ q.waiting).countP Sender.isFeeder

/-- Feeders, whether they hold an item or not. -/
def drainers (q : Intake α) : Nat := q.feeders + q.holding

/-! ## What the steps of an intake can be -/

/-- Nobody waits for a queue with room. -/
theorem of_hasRoom {q : Intake α} (room : q.hasRoom = true) : q.waiting = [] := by
  unfold hasRoom at room
  simp only [Bool.and_eq_true, List.isEmpty_iff] at room
  exact room.1

/-- A queue without room is full, unless somebody waits for it. -/
theorem full_of_hasRoom {q : Intake α} (crowded : q.hasRoom = false) (alone : q.waiting = []) :
    q.capacity ≤ q.queue.length + q.granted.length := by
  simpa [hasRoom, alone] using crowded

/-- What a step of a feeder can be: it ends, puts an item into the queue, or waits with one. -/
theorem feed_cases {q q' : Intake α} (accepting : q.closed = false) (done : q.feed = some q') :
    q.feeders ≠ 0 ∧
      ((q.overflow = [] ∧ q' = { q with draining := false, feeders := q.feeders - 1 }) ∨
        ∃ a rest, q.overflow = a :: rest ∧
          ((q.hasRoom = true ∧ q' = { q with overflow := rest, queue := q.queue ++ [a] }) ∨
            (q.hasRoom = false ∧ q' = { q with
              overflow := rest
              waiting := q.waiting ++ [.feeder a]
              feeders := q.feeders - 1 }))) := by
  unfold feed at done
  split at done
  · cases done
  · rename_i there
    rw [if_neg (by simp [accepting])] at done
    refine ⟨there, ?_⟩
    split at done
    · rename_i parked
      exact .inl ⟨parked, (Option.some.inj done).symm⟩
    · rename_i a rest parked
      refine .inr ⟨a, rest, parked, ?_⟩
      cases room : q.hasRoom with
      | true =>
        rw [if_pos (show hasRoom { q with overflow := rest } = true from room)] at done
        exact .inl ⟨rfl, (Option.some.inj done).symm⟩
      | false =>
        rw [if_neg (by rw [show hasRoom { q with overflow := rest } = false from room]; simp)]
          at done
        exact .inr ⟨rfl, (Option.some.inj done).symm⟩

/-- A feeder that is there can take a step. -/
theorem isSome_feed {q : Intake α} (there : q.feeders ≠ 0) : q.feed.isSome := by
  unfold feed
  rw [if_neg there]
  split
  · rfl
  · cases q.overflow with
    | nil => rfl
    | cons a rest => dsimp only; split <;> rfl

/-- What a receipt can be: nobody waits, or the room is kept for the first who does. -/
theorem receive_cases {q q' : Intake α} {a : α} (done : q.receive = some (a, q')) :
    ∃ rest, q.queue = a :: rest ∧
      ((q.waiting = [] ∧ q' = { q with queue := rest }) ∨
        ∃ s waiting, q.waiting = s :: waiting ∧
          q' = { q with queue := rest, granted := q.granted ++ [s], waiting := waiting }) := by
  unfold receive at done
  split at done
  · cases done
  · rename_i b rest queue
    cases done
    refine ⟨rest, queue, ?_⟩
    unfold grant
    split
    · rename_i alone; exact .inl ⟨alone, rfl⟩
    · rename_i s waiting line; exact .inr ⟨s, waiting, line, rfl⟩

/-! ## Traffic -/

/-- An intake, and what went in and out. -/
structure Traffic (α : Type) where
  intake : Intake α
  /-- What was accepted, in the order of the calls. -/
  accepted : List α
  /-- What was taken out, in that order. -/
  received : List α

namespace Traffic

def opened (capacity : Nat) : Traffic α := ⟨.empty capacity, [], []⟩

/-- The traffic after a call for an item, which was accepted or not. -/
def called (x : Traffic α) (a : α) (r : Intake α × Bool) : Traffic α :=
  ⟨r.1, if r.2 then x.accepted ++ [a] else x.accepted, x.received⟩

/-- What comes of an act, if there is something to act on. -/
def after (x : Traffic α) : Act α → Option (Traffic α)
  | .send a => some (x.called a (x.intake.send a))
  | .sendWaiting a => some (x.called a (x.intake.sendWaiting a))
  | .trySend a => some (x.called a (x.intake.trySend a))
  | .feed => x.intake.feed.map fun q => { x with intake := q }
  | .receive => x.intake.receive.map fun (a, q) =>
      { x with intake := q, received := x.received ++ [a] }
  | .redeem kind => (x.intake.redeem kind).map fun q => { x with intake := q }

/-- What comes of an act in its turn. -/
def does (x : Traffic α) (act : Act α) : Option (Traffic α) :=
  if x.intake.cutsIn act then none else x.after act

/-- What comes of a row of acts, each in its turn. -/
def play (x : Traffic α) : List (Act α) → Option (Traffic α)
  | [] => some x
  | act :: acts => (x.does act).bind (·.play acts)

/-- A queue that lets somebody in while room is kept for another does not serve them in their turn:
the room of the first item is kept for the third, and the fourth takes that of the second. -/
example : (([.send 1, .send 2, .sendWaiting 3, .receive, .receive, .send 4, .receive] :
    List (Act Nat)).foldlM after (opened 2)).map (fun x => (x.accepted, x.received)) =
      some ([1, 2, 3, 4], [1, 2, 4]) := rfl

/-! ## What every act keeps -/

/-- Traffic in order. -/
structure Ordered (capacity : Nat) (x : Traffic α) : Prop where
  accepting : x.intake.closed = false
  size : x.intake.capacity = capacity
  /-- Nothing is lost, nothing comes twice, and nothing overtakes. -/
  line : x.accepted = x.received ++ x.intake.pending
  /-- There is one feeder while the overflow is draining, and none else. -/
  drainers : x.intake.drainers = x.intake.draining.toNat
  /-- Nothing is parked unless the overflow is draining. -/
  idle : x.intake.draining = false → x.intake.overflow = []
  /-- Senders wait only if there is no room. -/
  full : x.intake.waiting ≠ [] → capacity ≤ x.intake.queue.length + x.intake.granted.length

variable {capacity : Nat} {x y : Traffic α}

theorem ordered_opened (capacity : Nat) : (opened capacity : Traffic α).Ordered capacity :=
  ⟨rfl, rfl, rfl, rfl, fun _ => rfl, fun hw => absurd rfl hw⟩

namespace Ordered

theorem not_closed (hx : x.Ordered capacity) : ¬x.intake.closed = true := by
  simp [hx.accepting]

/-- An item goes behind the parked ones. -/
theorem park (hx : x.Ordered capacity) (draining : x.intake.draining = true) (a : α) :
    (x.called a ({ x.intake with overflow := x.intake.overflow ++ [a] }, true)).Ordered
      capacity where
  accepting := hx.accepting
  size := hx.size
  line := by simp [called, hx.line, pending]
  drainers := hx.drainers
  idle := fun hd => by simp [called, draining] at hd
  full := hx.full

/-- An item goes into a queue with room. -/
theorem push (hx : x.Ordered capacity) (still : x.intake.draining = false)
    (room : x.intake.hasRoom = true) (turn : x.intake.granted = []) (a : α) :
    (x.called a ({ x.intake with queue := x.intake.queue ++ [a] }, true)).Ordered capacity where
  accepting := hx.accepting
  size := hx.size
  line := by simp [called, hx.line, pending, turn, of_hasRoom room, hx.idle still]
  drainers := hx.drainers
  idle := hx.idle
  full := fun hw => absurd (of_hasRoom room) hw

/-- Without room, somebody waits or the queue is full. -/
theorem le_of_hasRoom (hx : x.Ordered capacity) (crowded : x.intake.hasRoom = false) :
    capacity ≤ x.intake.queue.length + x.intake.granted.length := by
  by_cases alone : x.intake.waiting = []
  · exact hx.size ▸ full_of_hasRoom crowded alone
  · exact hx.full alone

/-- While a feeder is about to take an item, the overflow is draining and no feeder holds one. -/
theorem of_feeders (hx : x.Ordered capacity) (there : x.intake.feeders ≠ 0) :
    x.intake.draining = true ∧ x.intake.feeders = 1 ∧ x.intake.holding = 0 := by
  have count := hx.drainers
  unfold Intake.drainers at count
  cases draining : x.intake.draining with
  | false => simp [draining] at count; omega
  | true => simp [draining] at count; exact ⟨rfl, by omega, by omega⟩

/-- In the turn of a call that can enter at once, room is kept for nobody. -/
theorem granted_of_turn {q : Intake α} (turn : (!q.draining && q.hasRoom && !q.granted.isEmpty) =
    false) (still : q.draining = false) (room : q.hasRoom = true) : q.granted = [] := by
  simpa [still, room] using turn

theorem send (hx : x.Ordered capacity) (a : α) (turn : x.intake.cutsIn (.send a) = false) :
    (x.called a (x.intake.send a)).Ordered capacity := by
  unfold Intake.send
  rw [if_neg hx.not_closed]
  split
  · rename_i draining; exact hx.park draining a
  · rename_i draining
    have still : x.intake.draining = false := by simpa using draining
    have none := hx.drainers
    split
    · rename_i room; exact hx.push still room (granted_of_turn turn still room) a
    · exact {
        accepting := hx.accepting
        size := hx.size
        line := by simp [called, hx.line, pending, hx.idle still]
        drainers := by
          rw [still] at none
          simp only [Intake.drainers, holding, Bool.toNat_false, called, Bool.toNat_true] at none ⊢
          omega
        idle := fun hd => by simp [called] at hd
        full := hx.full }

theorem sendWaiting (hx : x.Ordered capacity) (a : α)
    (turn : x.intake.cutsIn (.sendWaiting a) = false) :
    (x.called a (x.intake.sendWaiting a)).Ordered capacity := by
  unfold Intake.sendWaiting
  rw [if_neg hx.not_closed]
  split
  · rename_i draining; exact hx.park draining a
  · rename_i draining
    have still : x.intake.draining = false := by simpa using draining
    unfold enter
    split
    · rename_i room; exact hx.push still room (granted_of_turn turn still room) a
    · rename_i crowded
      exact {
        accepting := hx.accepting
        size := hx.size
        line := by simp [called, hx.line, pending, hx.idle still, Sender.item]
        drainers := by
          simpa [Intake.drainers, holding, called, Sender.isFeeder] using hx.drainers
        idle := hx.idle
        full := fun _ => hx.le_of_hasRoom (by simpa using crowded) }

theorem trySend (hx : x.Ordered capacity) (a : α) (turn : x.intake.cutsIn (.trySend a) = false) :
    (x.called a (x.intake.trySend a)).Ordered capacity := by
  unfold Intake.trySend
  rw [if_neg hx.not_closed]
  split
  · rename_i draining; exact hx.park draining a
  · rename_i draining
    have still : x.intake.draining = false := by simpa using draining
    split
    · rename_i room; exact hx.push still room (granted_of_turn turn still room) a
    · exact ⟨hx.accepting, hx.size, hx.line, hx.drainers, hx.idle, hx.full⟩

/-- A feeder takes an item from the overflow to the queue or waits with it, or it ends. -/
theorem feed (hx : x.Ordered capacity) (turn : x.intake.cutsIn .feed = false) {q : Intake α}
    (done : x.intake.feed = some q) : { x with intake := q }.Ordered capacity := by
  obtain ⟨there, ⟨parked, rfl⟩ | ⟨a, rest, parked, ⟨room, rfl⟩ | ⟨crowded, rfl⟩⟩⟩ :=
    feed_cases hx.accepting done
  all_goals obtain ⟨draining, one, none⟩ := hx.of_feeders there
  · exact {
      accepting := hx.accepting
      size := hx.size
      line := by simpa [pending, parked] using hx.line
      drainers := by simpa [Intake.drainers, holding, one] using none
      idle := fun _ => parked
      full := hx.full }
  · have kept : x.intake.granted = [] := by simpa [cutsIn, parked, room] using turn
    have alone : x.intake.waiting = [] := of_hasRoom room
    exact {
      accepting := hx.accepting
      size := hx.size
      line := by simpa [pending, parked, kept, alone] using hx.line
      drainers := hx.drainers
      idle := fun still => by simp [draining] at still
      full := fun some => absurd alone some }
  · exact {
      accepting := hx.accepting
      size := hx.size
      line := by simpa [pending, parked, Sender.item] using hx.line
      drainers := by
        simp only [holding, List.countP_append] at none
        simp [Intake.drainers, holding, one, draining, Sender.isFeeder]
        omega
      idle := fun still => by simp [draining] at still
      full := fun _ => hx.le_of_hasRoom crowded }

/-- The room of what is taken out is kept for the first sender who waits. -/
theorem receive (hx : x.Ordered capacity) {a : α} {q : Intake α}
    (done : x.intake.receive = some (a, q)) :
    { x with intake := q, received := x.received ++ [a] }.Ordered capacity := by
  obtain ⟨rest, queue, ⟨alone, rfl⟩ | ⟨s, waiting, line, rfl⟩⟩ := receive_cases done
  · exact {
      accepting := hx.accepting
      size := hx.size
      line := by simpa [pending, queue] using hx.line
      drainers := hx.drainers
      idle := hx.idle
      full := fun some => absurd alone some }
  · have crowded := hx.full (by simp [line])
    exact {
      accepting := hx.accepting
      size := hx.size
      line := by simpa [pending, queue, line] using hx.line
      drainers := by simpa [Intake.drainers, holding, line] using hx.drainers
      idle := hx.idle
      full := fun _ => by
        simp only [queue, List.length_cons, List.length_append, List.length_nil] at crowded ⊢
        omega }

/-- The first sender for whom room is kept puts its item there. -/
theorem redeem (hx : x.Ordered capacity) {kind : Sender α → Bool}
    (turn : x.intake.cutsIn (.redeem kind) = false) {q : Intake α}
    (done : x.intake.redeem kind = some q) : { x with intake := q }.Ordered capacity := by
  unfold Intake.redeem at done
  cases kept : x.intake.granted with
  | nil => simp [kept] at done
  | cons s rest =>
    have first : kind s = true := by simpa [cutsIn, kept] using turn
    simp only [kept, List.find?_cons_of_pos first, List.eraseP_cons_of_pos first,
      Option.map_some, Option.some.injEq] at done
    subst done
    exact {
      accepting := hx.accepting
      size := hx.size
      line := by simpa [pending, kept] using hx.line
      drainers := by
        have count := hx.drainers
        simp only [Intake.drainers, holding, kept, List.cons_append, List.countP_cons] at count ⊢
        cases s <;> simp [Sender.isFeeder] at count ⊢ <;> omega
      idle := hx.idle
      full := fun hw => by
        have := hx.full hw
        simp only [kept, List.length_cons, List.length_append, List.length_nil] at this ⊢
        omega }

/-- **Acts.** Whatever is done in its turn leaves traffic in order. -/
theorem does (hx : x.Ordered capacity) {act : Act α} (done : x.does act = some y) :
    y.Ordered capacity := by
  unfold Traffic.does at done
  split at done
  · cases done
  · rename_i turn
    simp only [Bool.not_eq_true] at turn
    cases act with
    | send a => cases done; exact hx.send a turn
    | sendWaiting a => cases done; exact hx.sendWaiting a turn
    | trySend a => cases done; exact hx.trySend a turn
    | feed =>
      obtain ⟨q, hq, rfl⟩ := Option.map_eq_some_iff.1 done
      exact hx.feed turn hq
    | receive =>
      obtain ⟨⟨a, q⟩, hq, rfl⟩ := Option.map_eq_some_iff.1 done
      exact hx.receive hq
    | redeem kind =>
      obtain ⟨q, hq, rfl⟩ := Option.map_eq_some_iff.1 done
      exact hx.redeem turn hq

/-- Traffic stays in order, whatever is done, each in its turn. -/
theorem play (hx : x.Ordered capacity) {acts : List (Act α)} (played : x.play acts = some y) :
    y.Ordered capacity := by
  induction acts generalizing x with
  | nil => cases played; exact hx
  | cons act acts ih =>
    obtain ⟨z, hz, hrest⟩ := Option.bind_eq_some_iff.1 played
    exact ih (hx.does hz) hrest

end Ordered

/-! ## Nothing stays behind -/

/-- How much is to be done until all that is pending was received: an item that is parked has the
longest way to go. -/
def rank (x : Traffic α) : Nat :=
  x.intake.queue.length + 3 * x.intake.granted.length + 4 * x.intake.waiting.length +
    5 * x.intake.overflow.length + x.intake.feeders

theorem rank_feed (hx : x.Ordered capacity) {q : Intake α} (done : x.intake.feed = some q) :
    { x with intake := q }.rank < x.rank := by
  obtain ⟨there, ⟨-, rfl⟩ | ⟨a, rest, parked, ⟨-, rfl⟩ | ⟨-, rfl⟩⟩⟩ :=
    feed_cases hx.accepting done
  · simp only [rank]
    omega
  · simp [rank, parked]
    omega
  · simp [rank, parked]
    omega

theorem rank_receive {a : α} {q : Intake α} (done : x.intake.receive = some (a, q)) :
    { x with intake := q, received := x.received ++ [a] }.rank < x.rank := by
  obtain ⟨rest, queue, ⟨-, rfl⟩ | ⟨s, waiting, line, rfl⟩⟩ := receive_cases done
  · simp [rank, queue]
  · simp [rank, queue, line]
    omega

theorem rank_redeem {kind : Sender α → Bool} {q : Intake α}
    (done : x.intake.redeem kind = some q) : { x with intake := q }.rank < x.rank := by
  unfold Intake.redeem at done
  obtain ⟨s, found, rfl⟩ := Option.map_eq_some_iff.1 done
  have shorter := List.length_eraseP_of_mem (List.mem_of_find?_eq_some found)
    (List.find?_some found)
  have some := List.length_pos_of_mem (List.mem_of_find?_eq_some found)
  cases s <;> simp [rank] <;> omega

/-- **Ranks.** What happens by itself accepts nothing, and cannot go on for ever. -/
theorem rank_does (hx : x.Ordered capacity) {act : Act α} (byItself : act.isCall = false)
    (done : x.does act = some y) : y.accepted = x.accepted ∧ y.rank < x.rank := by
  unfold does at done
  split at done
  · cases done
  · cases act with
    | send | sendWaiting | trySend => cases byItself
    | feed =>
      obtain ⟨q, hq, rfl⟩ := Option.map_eq_some_iff.1 done
      exact ⟨rfl, rank_feed hx hq⟩
    | receive =>
      obtain ⟨⟨a, q⟩, hq, rfl⟩ := Option.map_eq_some_iff.1 done
      exact ⟨rfl, rank_receive hq⟩
    | redeem kind =>
      obtain ⟨q, hq, rfl⟩ := Option.map_eq_some_iff.1 done
      exact ⟨rfl, rank_redeem hq⟩

/-- **Progress.** While something is pending, something can happen by itself. -/
theorem Ordered.progress (hx : x.Ordered capacity) (room : 1 ≤ capacity)
    (left : x.intake.pending ≠ []) : ∃ act, act.isCall = false ∧ (x.does act).isSome := by
  cases queue : x.intake.queue with
  | cons a rest =>
    exact ⟨.receive, rfl, by simp [Traffic.does, cutsIn, after, Intake.receive, queue]⟩
  | nil =>
  cases kept : x.intake.granted with
  | cons s rest =>
    exact ⟨.redeem fun _ => true, rfl, by
      simp [Traffic.does, cutsIn, kept, after, Intake.redeem]⟩
  | nil =>
  have alone : x.intake.waiting = [] := by
    refine Classical.byContradiction fun some => ?_
    have := hx.full some
    simp only [queue, kept, List.length_nil] at this
    omega
  -- all that is pending is parked, so the overflow is draining, and its feeder holds nothing
  have parked : x.intake.overflow ≠ [] := by
    simpa [pending, queue, kept, alone] using left
  have draining : x.intake.draining = true := by
    refine Classical.byContradiction fun still => ?_
    exact parked (hx.idle (by simpa using still))
  have one : x.intake.feeders = 1 := by
    simpa [Intake.drainers, holding, kept, alone, draining] using hx.drainers
  have can := isSome_feed (q := x.intake) (by omega)
  exact ⟨.feed, rfl, by simpa [Traffic.does, cutsIn, kept, after] using can⟩

/-- What is pending is received without a further call. -/
theorem Ordered.drained {x : Traffic α} (hx : x.Ordered capacity) (room : 1 ≤ capacity) :
    ∃ acts y, (∀ act ∈ acts, act.isCall = false) ∧ x.play acts = some y ∧
      y.accepted = x.accepted ∧ y.received = x.accepted := by
  by_cases left : x.intake.pending = []
  · exact ⟨[], x, by simp, rfl, rfl, by simp [hx.line, left]⟩
  · obtain ⟨act, byItself, can⟩ := hx.progress room left
    obtain ⟨z, done⟩ := Option.isSome_iff_exists.1 can
    obtain ⟨same, less⟩ := rank_does hx byItself done
    obtain ⟨acts, y, hacts, played, accepted, received⟩ := (hx.does done).drained room
    refine ⟨act :: acts, y, ?_, ?_, accepted.trans same, received.trans same⟩
    · simpa [byItself] using hacts
    · simp [Traffic.play, done, played]
termination_by x.rank

/-- **Order.** Whatever is called, fed, redeemed and received at an open intake, each in its turn:
what was received is the beginning of what was accepted, in the order of the calls, and the rest is
pending; there is at most one feeder; unless the overflow is draining, nothing is parked and no
feeder holds anything; and all that is pending can be received without a further call. -/
theorem served_in_order (room : 1 ≤ capacity) {acts : List (Act α)}
    (played : (opened capacity).play acts = some x) :
    x.received <+: x.accepted ∧ x.accepted = x.received ++ x.intake.pending ∧
      x.intake.drainers ≤ 1 ∧
      (x.intake.draining = false → x.intake.overflow = [] ∧ x.intake.drainers = 0) ∧
      ∃ acts y, (∀ act ∈ acts, act.isCall = false) ∧ x.play acts = some y ∧
        y.accepted = x.accepted ∧ y.received = x.accepted := by
  have hx := (ordered_opened capacity).play played
  refine ⟨⟨_, hx.line.symm⟩, hx.line, ?_, fun still => ⟨hx.idle still, ?_⟩, hx.drained room⟩
  · rw [hx.drainers]
    exact Bool.toNat_le _
  · rw [hx.drainers, still]
    rfl

/-- Items of four callers at a queue for one item. The second is parked, its feeder waits with it,
and the third and the fourth are parked behind it. -/
def rush : List (Act Nat) :=
  [.sendWaiting 1, .send 2, .feed, .trySend 3, .receive, .sendWaiting 4, .redeem Sender.isFeeder]

/-- What the rush leads to. -/
def crowded : Traffic Nat := ⟨⟨1, [2], [], [], [3, 4], true, 1, false⟩, [1, 2, 3, 4], [1]⟩

theorem served_in_order_rush :
    (opened 1).play rush = some crowded ∧ crowded.received <+: crowded.accepted ∧
      crowded.intake.drainers ≤ 1 ∧ ∃ acts y, (∀ act ∈ acts, act.isCall = false) ∧
        crowded.play acts = some y ∧ y.received = [1, 2, 3, 4] := by
  have played : (opened 1).play rush = some crowded := rfl
  obtain ⟨first, -, one, -, acts, y, byItself, rest, -, all⟩ :=
    served_in_order (by decide) played
  exact ⟨played, first, one, acts, y, byItself, rest, all⟩

end Traffic
end Intake
end WalletHub
