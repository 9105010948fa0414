import WalletHub.Listener.Room
import WalletHub.Proofs.Letters
import WalletHub.Proofs.Run

/-!
# The hub and its audience

A house is a hub with two queues. The hub announces itself first. Commands wait in the first queue;
the hub takes them from its front at any time, and what a turn tells the audience goes to the back
of the second. The hall reads its letters from the front of that one, an event being offered to one
listener after the other; the hub goes on meanwhile, however slow a listener is. Commands arrive at
any time from anybody, listeners among them, and new listeners are presented at any time. Listeners
that are there from the start are registered before the first letter is read.

The hall notes who was let in, and how many letters had been read by then. What a listener is to
hear follows from the letters behind that alone (`Seat.hears`): all events that it wants, up to its
removal.

* `Reachable.posted`: the first letter is the announcement, events are numbered without a gap,
  letters stand in the order of the commands they come of, and nothing stands behind the letter that
  ends it all.
-/
namespace WalletHub

/-- What the audience is told, and the number of the command it comes of. The hub's own announcement
at the start comes of no command, and has the number 0. -/
structure Letter where
  origin : Nat
  body : Notification

/-- Whether the listener is removed by this letter. -/
def Letter.removes (l : Letter) (x : Seat) : Bool :=
  match l.body with
  | .remove name => x.listener.name == name
  | _ => false

/-- The events that letters tell. -/
def Letter.events (ls : List Letter) : List Event := ls.filterMap (·.body.event?)

/-- The events that a listener is to hear of the letters behind its registration. -/
def Seat.hears (x : Seat) (ls : List Letter) : List Event :=
  (Letter.events (ls.takeWhile (!·.removes x))).filter x.listener.wants

/-- The listener that a command presents. -/
def Command.seat? : Command → Option Seat
  | .register x => some x
  | _ => none

/-- The listener that is to be let in. -/
def Notification.seat? : Notification → Option Seat
  | .register x => some x
  | _ => none

/-- Gives listeners their numbers, one after the other. -/
def Room.presentAll (r : Room) : List Listener → Room × List Seat
  | [] => (r, [])
  | l :: ls =>
    let first := r.present l
    let others := first.1.presentAll ls
    (others.1, first.2 :: others.2)

/-! ## The hall -/

structure Hall where
  room : Room
  /-- Letters that were read. -/
  read : List Letter
  /-- The event that is being offered, and the listeners whose turn is still to come. -/
  serving : Option (Event × List Seat)
  dismissed : Bool
  /-- Listeners that were let in, and how many letters had been read by then. -/
  joined : List (Seat × Nat)
  /-- Flushes that were answered: the number of the command, and how many letters had been read. -/
  flushed : List (Nat × Nat)

namespace Hall

/-- Registers a listener, and notes it if it is let in. -/
def enter (h : Hall) (x : Seat) : Hall :=
  let entry := h.room.register x
  { h with
    room := entry.1
    joined := match entry.2 with
      | .ok _ => h.joined ++ [(x, h.read.length)]
      | .error _ => h.joined }

/-- Lets all listeners go. -/
def dismiss (h : Hall) : Hall := { h with room := h.room.dismiss, dismissed := true }

/-- Takes up a letter. -/
def next (h : Hall) (l : Letter) : Hall := { h with read := h.read ++ [l] }

/-- Reads a letter and does what it says. -/
def tell (h : Hall) (l : Letter) : Hall :=
  match l.body with
  | .event e =>
    { h.next l with room := h.room.announce e, serving := some (e, h.room.audience.seats) }
  | .register x => (h.next l).enter x
  | .remove name => { h.next l with room := (h.room.remove name).1 }
  | .barrier => { h.next l with flushed := h.flushed ++ [(l.origin, h.read.length + 1)] }
  | .shutdown => (h.next l).dismiss

/-- One listener's turn. -/
def offer (h : Hall) (e : Event) (x : Seat) (rest : List Seat) : Hall :=
  { h with room := (h.room.offer x e).1, serving := some (e, rest) }

/-- What a listener was handed so far. -/
def heard (h : Hall) (x : Seat) : List Event := h.room.history.filterMap (·.heardBy? x.serial)

/-- What a listener is about to be handed: the event under way, if it wants it and had not its
turn. -/
def coming (h : Hall) (x : Seat) : List Event :=
  match h.serving with
  | some (e, rest) => if rest.any (·.serial == x.serial) && x.listener.wants e then [e] else []
  | none => []

/-- The letters that are done with: all that were read, but for an event under way. -/
def settled (h : Hall) : List Letter :=
  match h.serving with
  | some _ => h.read.dropLast
  | none => h.read

end Hall

/-! ## The house -/

structure House where
  hub : Hub
  /-- Whether the hub announced itself. -/
  begun : Bool
  life : Life
  /-- Commands that the hub took; they are numbered from 1. -/
  taken : List Command
  queue : List Command
  /-- Listeners that were there from the start and are yet to be registered. -/
  founders : List Seat
  /-- Listeners that were presented and are yet to be sent to the hub. -/
  visitors : List Seat
  hall : Hall
  /-- Letters that are yet to be read. -/
  unread : List Letter

namespace House

/-- A house that is about to open. -/
def opened (strict hasClient : Bool) (utxo account : Option Engine) (limit : Option Nat)
    (listeners : List Listener) : House :=
  let start := (Room.empty limit).presentAll listeners
  { hub := .create strict hasClient utxo account
    begun := false
    life := .running
    taken := []
    queue := []
    founders := start.2
    visitors := []
    hall := ⟨start.1, [], none, false, [], []⟩
    unread := [] }

/-- The hub announced itself. -/
def begin (s : House) : House :=
  { s with
    hub := s.hub.start.1
    begun := true
    unread := s.unread ++ s.hub.start.2.map (⟨0, ·⟩) }

/-- The hub took a command, and left the rest. -/
def take (s : House) (c : Command) (rest : List Command) : House :=
  let t := s.hub.step c
  { s with
    hub := t.hub
    life := t.life
    taken := s.taken ++ [c]
    queue := rest
    unread := s.unread ++ t.mail.map (⟨s.taken.length + 1, ·⟩) }

/-- All that was told so far. -/
def mail (s : House) : List Letter := s.hall.read ++ s.unread

inductive Step : House → House → Prop
  | arrive {s : House} (c : Command) (plain : c.seat? = none) :
      Step s { s with queue := s.queue ++ [c] }
  | present {s : House} (l : Listener) :
      Step s { s with
        hall := { s.hall with room := (s.hall.room.present l).1 }
        visitors := s.visitors ++ [(s.hall.room.present l).2] }
  /-- Somebody has a listener registered. -/
  | enlist {s : House} {before after : List Seat} {x : Seat}
      (visitors : s.visitors = before ++ x :: after) :
      Step s { s with queue := s.queue ++ [.register x], visitors := before ++ after }
  | begin {s : House} (silent : s.begun = false) : Step s s.begin
  | take {s : House} {c : Command} {rest : List Command} (queue : s.queue = c :: rest)
      (begun : s.begun = true) (running : s.life = .running) : Step s (s.take c rest)
  | found {s : House} {x : Seat} {rest : List Seat} (founders : s.founders = x :: rest) :
      Step s { s with hall := s.hall.enter x, founders := rest }
  | tell {s : House} {l : Letter} {rest : List Letter} (founders : s.founders = [])
      (idle : s.hall.serving = none) (staying : s.hall.dismissed = false)
      (unread : s.unread = l :: rest) : Step s { s with hall := s.hall.tell l, unread := rest }
  | offer {s : House} {e : Event} {x : Seat} {rest : List Seat}
      (serving : s.hall.serving = some (e, x :: rest)) :
      Step s { s with hall := s.hall.offer e x rest }
  | served {s : House} {e : Event} (serving : s.hall.serving = some (e, [])) :
      Step s { s with hall := { s.hall with serving := none } }
  /-- The hub is gone and everything was told. -/
  | leave {s : House} (founders : s.founders = []) (idle : s.hall.serving = none)
      (unread : s.unread = []) (stopped : s.life ≠ .running) :
      Step s { s with hall := s.hall.dismiss }
  | setting {s : House} (b : Backend) (x : Setting) : Step s { s with hub := s.hub.adjusted b x }
  | clock {s : House} (now : Timestamp) : Step s { s with hub := { s.hub with now := now } }
  /-- A recorder's tape is emptied. -/
  | clear {s : House} (name : String) :
      Step s { s with hall := { s.hall with room := s.hall.room.clear name } }

inductive Reachable : House → Prop
  | opened (strict hasClient : Bool) (utxo account : Option Engine) (limit : Option Nat)
      (listeners : List Listener) :
      Reachable (opened strict hasClient utxo account limit listeners)
  | step {s s' : House} : s.Reachable → s.Step s' → Reachable s'

/-! ## Letters -/

/-- What holds of the letters in every run. -/
structure Posted (s : House) : Prop where
  sequences : (Letter.events s.mail).map (·.sequence) =
    List.range' 1 (Letter.events s.mail).length
  counted : s.hub.counters.events = (Letter.events s.mail).length
  ordered : (s.mail.map (·.origin)).Pairwise (· ≤ ·)
  bound : ∀ l ∈ s.mail, l.origin ≤ s.taken.length
  barrier : ∀ l ∈ s.mail, l.body = .barrier → 0 < l.origin ∧ s.taken[l.origin - 1]? = some .flush
  /-- Nothing stands behind the letter that ends it all. -/
  last : ∀ l ∈ s.mail.dropLast, l.body ≠ .shutdown
  running : s.life = .running → ∀ l ∈ s.mail, l.body ≠ .shutdown
  silent : s.begun = false → s.mail = [] ∧ s.life = .running
  /-- The first letter tells that the hub was created. -/
  first : s.begun = true → ∃ e, s.mail[0]? = some ⟨0, .event e⟩ ∧ e.notice = .hub .created

theorem filterMap_cons_toList {α β : Type} (f : α → Option β) (a : α) (as : List α) :
    (a :: as).filterMap f = (f a).toList ++ as.filterMap f := by
  rw [List.filterMap_cons]
  cases f a <;> rfl

theorem events_append (ls ls' : List Letter) :
    Letter.events (ls ++ ls') = Letter.events ls ++ Letter.events ls' := List.filterMap_append

/-- The events among the letters of a turn. -/
theorem events_turn (n : Nat) (es : List Event) (c : Command) :
    Letter.events ((es.map Notification.event ++ c.letters).map (⟨n, ·⟩)) = es := by
  have hevents : (es.map fun e => (⟨n, .event e⟩ : Letter)).filterMap (·.body.event?) = es := by
    induction es with
    | nil => rfl
    | cons e es ih => rw [List.map_cons, List.filterMap_cons, ih]; rfl
  have hletters : (c.letters.map fun b => (⟨n, b⟩ : Letter)).filterMap (·.body.event?) = [] := by
    cases c <;> rfl
  rw [Letter.events, List.map_append, List.map_map, List.filterMap_append, hletters,
    List.append_nil]
  exact hevents

/-- A letter of a turn tells an event, or is the last one and the one of the command. -/
theorem body_turn {es : List Event} {c : Command} {b : Notification}
    (hb : b ∈ es.map Notification.event ++ c.letters) :
    (∃ e, b = .event e) ∨ c.letters = [b] := by
  rcases List.mem_append.1 hb with hb | hb
  · obtain ⟨e, -, rfl⟩ := List.mem_map.1 hb
    exact .inl ⟨e, rfl⟩
  · cases c <;> simp only [Command.letters, List.mem_singleton, List.not_mem_nil] at hb <;>
      exact .inr (by rw [hb]; rfl)

/-- The letters of a turn have the number of its command. -/
theorem mem_turn {h : Hub} {n : Nat} {c : Command} {l : Letter}
    (hl : l ∈ (h.step c).mail.map (Letter.mk n)) :
    l.origin = n ∧ ((∃ e, l.body = .event e) ∨ c.letters = [l.body]) := by
  obtain ⟨es, hmail, -, -⟩ := h.speaks_step c
  obtain ⟨b, hb, rfl⟩ := List.mem_map.1 hl
  exact ⟨rfl, body_turn (hmail ▸ hb)⟩

theorem barrier_turn {h : Hub} {n : Nat} {c : Command} {l : Letter}
    (hl : l ∈ (h.step c).mail.map (Letter.mk n)) (hbody : l.body = .barrier) : c = .flush := by
  obtain ⟨-, ⟨e, he⟩ | hletters⟩ := mem_turn hl
  · rw [he] at hbody; cases hbody
  · rw [hbody] at hletters
    cases c <;> first | rfl | cases hletters

/-- The turn of a shutdown is the last one. -/
theorem shutdown_turn {h : Hub} {n : Nat} {c : Command} {l : Letter}
    (hl : l ∈ (h.step c).mail.map (Letter.mk n)) (hbody : l.body = .shutdown) :
    (h.step c).life ≠ .running := by
  obtain ⟨-, ⟨e, he⟩ | hletters⟩ := mem_turn hl
  · rw [he] at hbody; cases hbody
  · rw [hbody] at hletters
    cases c with
    | shutdown => intro onward; cases onward
    | _ => cases hletters

/-- All letters of a turn but the last one tell events. -/
theorem event_of_mem_dropLast {h : Hub} {n : Nat} {c : Command} {l : Letter}
    (hl : l ∈ ((h.step c).mail.map (Letter.mk n)).dropLast) : ∃ e, l.body = .event e := by
  obtain ⟨es, hmail, -, -⟩ := h.speaks_step c
  rw [← List.map_dropLast, hmail] at hl
  obtain ⟨b, hb, rfl⟩ := List.mem_map.1 hl
  have hes : b ∈ es.map Notification.event := by
    cases c with
    | callback | request | answered =>
      exact List.append_nil (es.map Notification.event) ▸ (List.dropLast_sublist _).mem hb
    | register | remove | flush | shutdown =>
      exact (List.dropLast_concat : (es.map Notification.event ++ [_]).dropLast = _) ▸ hb
  obtain ⟨e, -, rfl⟩ := List.mem_map.1 hes
  exact ⟨e, rfl⟩

theorem posted_opened (strict hasClient : Bool) (utxo account : Option Engine)
    (limit : Option Nat) (listeners : List Listener) :
    (opened strict hasClient utxo account limit listeners).Posted where
  sequences := rfl
  counted := rfl
  ordered := .nil
  bound _ hl := absurd hl List.not_mem_nil
  barrier _ hl := absurd hl List.not_mem_nil
  last _ hl := absurd hl List.not_mem_nil
  running _ _ hl := absurd hl List.not_mem_nil
  silent _ := ⟨rfl, rfl⟩
  first begun := by cases begun

/-- The hub's announcement is the first letter. -/
theorem Posted.begin {s : House} (hs : s.Posted) (silent : s.begun = false) :
    s.begin.Posted := by
  obtain ⟨hmail, hlife⟩ := hs.silent silent
  have hcount : s.hub.counters.events = 0 := by rw [hs.counted, hmail]; rfl
  have created : s.hub.start.2 = [.event ⟨1, s.hub.now, Hub.source, .hub .created⟩] := by
    rw [Hub.start, Hub.emit, hcount]
    rfl
  have mail : s.begin.mail = [⟨0, .event ⟨1, s.hub.now, Hub.source, .hub .created⟩⟩] := by
    have hsame : s.begin.mail = s.mail ++ s.hub.start.2.map (⟨0, ·⟩) :=
      (List.append_assoc ..).symm
    rw [hsame, hmail, created]
    rfl
  refine ⟨?_, ?_, ?_, ?_, ?_, ?_, ?_, fun h => ?_, fun _ => ?_⟩ <;> try rw [mail]
  · rfl
  · exact congrArg (· + 1) hcount
  · exact List.pairwise_singleton ..
  · intro l hl
    rw [List.mem_singleton.1 hl]
    exact Nat.zero_le _
  · intro l hl hbody
    rw [List.mem_singleton.1 hl] at hbody
    cases hbody
  · exact fun l hl => absurd hl List.not_mem_nil
  · intro _ l hl hbody
    rw [List.mem_singleton.1 hl] at hbody
    cases hbody
  · cases h
  · exact ⟨_, rfl, rfl⟩

/-- A turn puts its letters behind all others. -/
theorem Posted.take {s : House} (hs : s.Posted) (c : Command) (rest : List Command)
    (begun : s.begun = true) (running : s.life = .running) : (s.take c rest).Posted := by
  obtain ⟨es, hmail, hseq, hcount⟩ := Hub.speaks_step s.hub c
  set n := s.taken.length + 1 with hn
  set new := (s.hub.step c).mail.map (Letter.mk n) with hnew
  have mail : (s.take c rest).mail = s.mail ++ new := (List.append_assoc ..).symm
  have events : Letter.events (s.take c rest).mail = Letter.events s.mail ++ es := by
    rw [mail, events_append, hnew, hmail, events_turn]
  have origin : ∀ l ∈ new, l.origin = n := fun l hl => (mem_turn hl).1
  refine ⟨?_, ?_, ?_, ?_, ?_, ?_, ?_, fun h => ?_, fun _ => ?_⟩
  · rw [events, List.map_append, List.length_append, hs.sequences, hseq, hs.counted,
      Nat.add_comm _ 1, List.range'_append_1]
  · rw [events, List.length_append, ← hs.counted]
    exact hcount
  · rw [mail, List.map_append, List.pairwise_append]
    refine ⟨hs.ordered, List.pairwise_map.2 (List.pairwise_of_forall_mem_list ?_), ?_⟩
    · intro l hl l' hl'
      exact Nat.le_of_eq ((origin l hl).trans (origin l' hl').symm)
    · intro i hi j hj
      obtain ⟨l, hl, rfl⟩ := List.mem_map.1 hi
      obtain ⟨l', hl', rfl⟩ := List.mem_map.1 hj
      have hbound := hs.bound l hl
      have horigin := origin l' hl'
      omega
  · intro l hl
    show l.origin ≤ (s.taken ++ [c]).length
    rw [List.length_append, List.length_singleton]
    rw [mail, List.mem_append] at hl
    rcases hl with hl | hl
    · exact Nat.le_succ_of_le (hs.bound l hl)
    · exact Nat.le_of_eq (origin l hl)
  · intro l hl hbody
    show 0 < l.origin ∧ (s.taken ++ [c])[l.origin - 1]? = some .flush
    rw [mail, List.mem_append] at hl
    rcases hl with hl | hl
    · obtain ⟨hpos, hflush⟩ := hs.barrier l hl hbody
      exact ⟨hpos, List.getElem?_append_left (List.getElem?_eq_some_iff.1 hflush).1 ▸ hflush⟩
    · rw [origin l hl, hn, Nat.add_sub_cancel, List.getElem?_concat_length, barrier_turn hl hbody]
      exact ⟨Nat.succ_pos _, rfl⟩
  · intro l hl hbody
    rw [mail, List.dropLast_append] at hl
    split at hl
    · exact hs.running running l ((List.dropLast_sublist _).mem hl) hbody
    · rcases List.mem_append.1 hl with hl | hl
      · exact hs.running running l hl hbody
      · obtain ⟨e, he⟩ := event_of_mem_dropLast hl
        rw [he] at hbody
        cases hbody
  · intro onward l hl hbody
    rw [mail, List.mem_append] at hl
    rcases hl with hl | hl
    · exact hs.running running l hl hbody
    · exact shutdown_turn hl hbody onward
  · exact absurd (begun.symm.trans h) (by decide)
  · obtain ⟨e, he, created⟩ := hs.first begun
    rw [mail]
    exact ⟨e, List.getElem?_append_left (List.getElem?_eq_some_iff.1 he).1 ▸ he, created⟩

/-- The letter that ends it all is the last one, and the hub is gone. -/
theorem Posted.ends {s : House} (hs : s.Posted) {l : Letter} {rest : List Letter}
    (unread : s.unread = l :: rest) (hl : l.body = .shutdown) : rest = [] ∧ s.life ≠ .running := by
  have mail : s.mail = s.hall.read ++ l :: rest := congrArg (s.hall.read ++ ·) unread
  refine ⟨?_, fun running => hs.running running l (by simp [mail]) hl⟩
  cases rest with
  | nil => rfl
  | cons l' rest =>
    refine absurd hl (hs.last l ?_)
    rw [mail, List.dropLast_append_of_ne_nil (List.cons_ne_nil _ _), List.dropLast_cons_cons]
    simp

/-- Reading changes nothing of what was told. -/
theorem Posted.of_same {s s' : House} (hs : s.Posted) (mail : s'.mail = s.mail)
    (events : s'.hub.counters.events = s.hub.counters.events) (taken : s'.taken = s.taken)
    (life : s'.life = s.life) (begun : s'.begun = s.begun) : s'.Posted := by
  refine ⟨?_, ?_, ?_, ?_, ?_, ?_, ?_, ?_, ?_⟩ <;> rw [mail]
  · exact hs.sequences
  · exact events.trans hs.counted
  · exact hs.ordered
  · exact taken ▸ hs.bound
  · exact taken ▸ hs.barrier
  · exact hs.last
  · exact life ▸ hs.running
  · exact begun ▸ life ▸ hs.silent
  · exact begun ▸ hs.first

theorem read_enter (h : Hall) (x : Seat) : (h.enter x).read = h.read := by
  simp only [Hall.enter]

theorem read_tell (h : Hall) (l : Letter) : (h.tell l).read = h.read ++ [l] := by
  unfold Hall.tell
  split
  · rfl
  · exact read_enter (h.next l) _
  · rfl
  · rfl
  · rfl

/-- **Letters.** What holds of the letters holds in every run. -/
theorem Reachable.posted {s : House} (hs : s.Reachable) : s.Posted := by
  induction hs with
  | opened strict hasClient utxo account limit ls => exact posted_opened ..
  | @step s s' _ hstep ih =>
    cases hstep with
    | begin silent => exact ih.begin silent
    | take _ begun running => exact ih.take _ _ begun running
    | @tell l rest _ _ _ unread =>
      refine ih.of_same ?_ rfl rfl rfl rfl
      show (s.hall.tell l).read ++ rest = s.hall.read ++ s.unread
      rw [read_tell, unread, List.append_assoc, List.singleton_append]
    | setting b x =>
      have same := Session.counters_adjusted s.hub b x
      exact ih.of_same rfl (congrArg Counters.events same) rfl rfl rfl
    | @found x =>
      exact ih.of_same (congrArg (· ++ s.unread) (read_enter s.hall x)) rfl rfl rfl rfl
    | arrive | present | enlist | offer | served | leave | clock | clear =>
      exact ih.of_same rfl rfl rfl rfl rfl

end House
end WalletHub
