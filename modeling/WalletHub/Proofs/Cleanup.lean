import WalletHub.Proofs.Delivery

/-!
# Listeners are let go

A listener that was let in is cleaned up once: when a letter removes it, or else when the hall lets
all go. From then on it is handed nothing. Two things carry this. Only those who are there have a
turn with an event (`Hall.Tidy.turns`), and nobody else is cleaned up (`Hall.Tidy.only`), so a
listener that is there was not cleaned up before.

* `Tidy.tell`, `Tidy.offer`: what one letter and one turn keep.
* `Reachable.tidy`: in every run, whoever was let in and is not there any more has parted.
* `dismissed_turns`: a hall that reads on comes to the letter that ends it all.
-/
namespace WalletHub

/-- The number of the listener that an act cleans up. -/
def Act.cleaned? : Act → Option Nat
  | .cleanedUp x => some x.serial
  | _ => none

namespace Seat

variable {x y : Seat} {as bs : List Act}

/-- None of these acts cleans the listener up. -/
def Unparted (x : Seat) (as : List Act) : Prop := ∀ a ∈ as, a.cleaned? ≠ some x.serial

/-- The listener has no part in these acts. -/
def Absent (x : Seat) (as : List Act) : Prop :=
  ∀ a ∈ as, a.cleaned? ≠ some x.serial ∧ a.heardBy? x.serial = none

/-- The listener is cleaned up once, and has no part in what follows. -/
def Parted (x : Seat) (as : List Act) : Prop :=
  ∃ before after, as = before ++ .cleanedUp x :: after ∧ x.Unparted before ∧ x.Absent after

theorem Unparted.append (ha : x.Unparted as) (hb : x.Unparted bs) : x.Unparted (as ++ bs) :=
  fun a hmem => (List.mem_append.1 hmem).elim (ha a) (hb a)

theorem Parted.append (ha : x.Parted as) (hb : x.Absent bs) : x.Parted (as ++ bs) := by
  obtain ⟨before, after, rfl, first, rest⟩ := ha
  refine ⟨before, after ++ bs, by simp, first, fun a hmem => ?_⟩
  exact (List.mem_append.1 hmem).elim (rest a) (hb a)

theorem absent_setUp (x y : Seat) : x.Absent [.setUp y] := by
  intro a ha
  rw [List.mem_singleton.1 ha]
  exact ⟨nofun, rfl⟩

theorem absent_cleanedUp (other : y.serial ≠ x.serial) : x.Absent [.cleanedUp y] := by
  intro a ha
  rw [List.mem_singleton.1 ha]
  exact ⟨fun same => other (Option.some.inj same), rfl⟩

theorem absent_heard (other : y.serial ≠ x.serial) (e : Event) : x.Absent [.heard y e] := by
  intro a ha
  rw [List.mem_singleton.1 ha]
  exact ⟨nofun, if_neg other⟩

theorem Absent.unparted (ha : x.Absent as) : x.Unparted as := fun a hmem => (ha a hmem).1

theorem absent_nil (x : Seat) : x.Absent [] := fun _ hmem => absurd hmem List.not_mem_nil

/-- A listener that was not cleaned up parts when it is. -/
theorem Unparted.parts (ha : x.Unparted as) : x.Parted (as ++ [.cleanedUp x]) :=
  ⟨as, [], rfl, ha, x.absent_nil⟩

/-- When all are cleaned up who are there, each one parts. -/
theorem Unparted.all_part {xs : List Seat} (ha : x.Unparted as) (hx : x ∈ xs)
    (distinct : (xs.map (·.serial)).Nodup) : x.Parted (as ++ xs.map .cleanedUp) := by
  obtain ⟨before, after, rfl⟩ := List.append_of_mem hx
  rw [List.map_append, List.map_cons, List.nodup_append] at distinct
  obtain ⟨-, distinct, apart⟩ := distinct
  have first : x.Unparted (before.map .cleanedUp) := by
    intro a hmem same
    obtain ⟨y, hy, rfl⟩ := List.mem_map.1 hmem
    exact apart _ (List.mem_map_of_mem hy) x.serial List.mem_cons_self (Option.some.inj same)
  have rest : x.Absent (after.map .cleanedUp) := by
    intro a hmem
    obtain ⟨y, hy, rfl⟩ := List.mem_map.1 hmem
    refine ⟨fun same => ?_, rfl⟩
    rw [← Option.some.inj same] at distinct
    exact (List.nodup_cons.1 distinct).1 (List.mem_map_of_mem hy)
  exact ⟨as ++ before.map .cleanedUp, after.map .cleanedUp, by simp, ha.append first, rest⟩

end Seat

/-! ## Rooms -/

namespace Room

/-- A listener is set up or not, when it is registered, and nobody else acts. -/
theorem register_history (r : Room) (x : Seat) : ∃ acts,
    (r.register x).1.history = r.history ++ acts ∧ (acts = [] ∨ acts = [.setUp x]) := by
  simp only [register, after, Audience.register]
  split
  · exact ⟨[], rfl, .inl rfl⟩
  · split
    · exact ⟨_, rfl, .inr rfl⟩
    · exact ⟨_, rfl, .inr rfl⟩

/-- A listener of the name is cleaned up, if there is one. -/
theorem remove_history (r : Room) (name : String) :
    (r.remove name).1.history = r.history ++
      ((r.audience.seats.find? (·.listener.name == name)).map .cleanedUp).toList := by
  simp only [remove, after, Audience.remove]
  split <;> rename_i found <;> rw [found] <;> rfl

end Room

namespace Hall

variable {h h' : Hall} {x y : Seat} {e : Event} {l : Letter}

/-- What a listener leaves behind that is let go. -/
def Parted (h : Hall) (x : Seat) : Prop := x.Parted h.room.history

/-- Who was cleaned up, and who was not. -/
structure Tidy (h : Hall) : Prop where
  /-- Nobody was cleaned up who is there. -/
  there : ∀ x ∈ h.seats, x.Unparted h.room.history
  gone : ∀ x ∈ h.guests, x ∉ h.seats → h.Parted x
  /-- Nobody was cleaned up who was not let in. -/
  only : ∀ a ∈ h.room.history, ∀ n, a.cleaned? = some n → ∃ x ∈ h.guests, x.serial = n
  /-- Only those who are there have a turn. -/
  turns : ∀ e rest, h.serving = some (e, rest) → ∀ x ∈ rest, x ∈ h.seats

/-- Nobody has a turn where no event is under way. -/
theorem turns_of_idle (idle : h.serving = none) (xs : List Seat) :
    ∀ e rest, h.serving = some (e, rest) → ∀ x ∈ rest, x ∈ xs := by
  intro e rest serving
  rw [idle] at serving
  cases serving

/-- Whoever comes in was not cleaned up, and nobody acts who is gone. -/
theorem Tidy.grow (ht : h.Tidy) (acts : List Act) (new : List Seat)
    (history : h'.room.history = h.room.history ++ acts)
    (guests : h'.guests = h.guests ++ new) (seats : h'.seats = h.seats ++ new)
    (fresh : ∀ x ∈ new, x.Unparted h.room.history) (silent : ∀ a ∈ acts, a.cleaned? = none)
    (absent : ∀ x ∈ h.guests, x ∉ h.seats → x.Absent acts)
    (turns : ∀ e rest, h'.serving = some (e, rest) → ∀ x ∈ rest, x ∈ h.seats) : h'.Tidy := by
  have later (x : Seat) : x.Unparted acts := by
    intro a ha same
    rw [silent a ha] at same
    cases same
  refine ⟨fun x hx => ?_, fun x hx hout => ?_, fun a ha n hn => ?_, fun e rest hv x hx => ?_⟩
  · rw [history]
    rw [seats, List.mem_append] at hx
    exact (hx.elim (ht.there x) (fresh x)).append (later x)
  · rw [guests, List.mem_append] at hx
    rw [seats, List.mem_append, not_or] at hout
    have hx := hx.resolve_right hout.2
    rw [Parted, history]
    exact (ht.gone x hx hout.1).append (absent x hx hout.1)
  · rw [history, List.mem_append] at ha
    rcases ha with ha | ha
    · obtain ⟨y, hy, hserial⟩ := ht.only a ha n hn
      rw [guests]
      exact ⟨y, List.mem_append_left _ hy, hserial⟩
    · rw [silent a ha] at hn
      cases hn
  · rw [seats]
    exact List.mem_append_left _ (turns e rest hv x hx)

theorem Tidy.of_same (ht : h.Tidy) (history : h'.room.history = h.room.history)
    (joined : h'.joined = h.joined) (seats : h'.seats = h.seats)
    (turns : ∀ e rest, h'.serving = some (e, rest) → ∀ x ∈ rest, x ∈ h.seats) : h'.Tidy := by
  have guests := guests_of_joined joined
  refine ht.grow [] [] ?_ ?_ ?_ ?_ ?_ ?_ turns
  · rw [history, List.append_nil]
  · rw [guests, List.append_nil]
  · rw [seats, List.append_nil]
  · exact fun x hx => absurd hx List.not_mem_nil
  · exact fun a ha => absurd ha List.not_mem_nil
  · exact fun x _ _ => x.absent_nil

/-- A listener that is registered was not cleaned up before. -/
theorem Tidy.enter (ht : h.Tidy) (idle : h.serving = none)
    (fresh : ∀ y ∈ h.guests, y.serial ≠ x.serial) : (h.enter x).Tidy := by
  obtain ⟨acts, history, hacts⟩ := h.room.register_history x
  have history : (h.enter x).room.history = h.room.history ++ acts := by rw [room_enter, history]
  have silent : ∀ a ∈ acts, a.cleaned? = none := by
    intro a ha
    rcases hacts with rfl | rfl
    · cases ha
    · rw [List.mem_singleton.1 ha]
      rfl
  have absent (y : Seat) : y.Absent acts := by
    rcases hacts with rfl | rfl
    · exact y.absent_nil
    · exact y.absent_setUp x
  -- nobody was cleaned up under the number of the one who comes
  have unparted : x.Unparted h.room.history := by
    intro a ha same
    obtain ⟨y, hy, hserial⟩ := ht.only a ha _ same
    exact fresh y hy hserial
  have turns := turns_of_idle ((h.serving_enter x).trans idle) h.seats
  rcases h.enter_cases x with ⟨joined, seats, -⟩ | ⟨joined, seats⟩
  · have guests : (h.enter x).guests = h.guests ++ [x] := by
      rw [Hall.guests, joined, List.map_append]
      rfl
    refine ht.grow acts [x] history guests seats (fun y hy => ?_) silent
      (fun y _ _ => absent y) turns
    rw [List.mem_singleton.1 hy]
    exact unparted
  · have guests : (h.enter x).guests = h.guests ++ [] := by
      rw [guests_of_joined joined, List.append_nil]
    have seats : (h.enter x).seats = h.seats ++ [] := by rw [seats, List.append_nil]
    exact ht.grow acts [] history guests seats (fun y hy => absurd hy List.not_mem_nil) silent
      (fun y _ _ => absent y) turns

/-- Two listeners have different numbers if one is there and the other is not. -/
theorem Seated.apart (hs : h.Seated) (hd : h.Distinct) (hy : y ∈ h.seats) (hx : x ∈ h.guests)
    (hne : y ≠ x) : y.serial ≠ x.serial := fun same => hne (hd.eq (hs.seats.mem hy) hx same)

/-- Whoever has the name parts, and the others stay as they are. -/
theorem Tidy.remove (ht : h.Tidy) (hs : h.Seated) (hd : h.Distinct) {name : String}
    (room : h'.room = (h.room.remove name).1) (joined : h'.joined = h.joined)
    (idle : h'.serving = none) : h'.Tidy := by
  have guests := guests_of_joined joined
  have seats : h'.seats = h.seats.eraseP (·.listener.name == name) := by
    rw [Hall.seats, room, h.room.remove_seats name, Hall.seats]
  have history := h.room.remove_history name
  rw [← room] at history
  have turns := turns_of_idle idle h.seats
  cases found : h.room.audience.seats.find? (·.listener.name == name) with
  | none =>
    rw [found] at history
    have same : h.seats.eraseP (·.listener.name == name) = h.seats :=
      List.eraseP_of_forall_not (List.find?_eq_none.1 found)
    exact ht.of_same (history.trans (List.append_nil _)) joined (seats.trans same) turns
  | some y =>
    have hy : y ∈ h.seats := List.mem_of_find?_eq_some found
    have named : y.listener.name = name := by simpa using List.find?_some found
    rw [found, Option.map_some, Option.toList_some] at history
    have mem (x : Seat) : x ∈ h'.seats ↔ x ∈ h.seats ∧ x.listener.name ≠ name := by
      rw [seats, mem_eraseP_name hs.names]
    refine ⟨fun x hx => ?_, fun x hx hout => ?_, fun a ha n hn => ?_, turns_of_idle idle _⟩
    · obtain ⟨hx, other⟩ := (mem x).1 hx
      have hne : y ≠ x := fun he => other (he ▸ named)
      rw [history]
      refine (ht.there x hx).append (Seat.Absent.unparted ?_)
      exact Seat.absent_cleanedUp (hs.apart hd hy (hs.seats.mem hx) hne)
    · rw [guests] at hx
      rw [Parted, history]
      by_cases hin : x ∈ h.seats
      · -- it is the one that is removed, for names tell apart who is there
        have hname : x.listener.name = name := by
          by_contra other
          exact hout ((mem x).2 ⟨hin, other⟩)
        obtain rfl : x = y := List.inj_on_of_nodup_map hs.names hin hy (hname.trans named.symm)
        exact (ht.there x hin).parts
      · have hne : y ≠ x := fun he => hin (he ▸ hy)
        exact (ht.gone x hx hin).append (Seat.absent_cleanedUp (hs.apart hd hy hx hne))
    · rw [history, List.mem_append, List.mem_singleton] at ha
      rw [guests]
      rcases ha with ha | rfl
      · exact ht.only a ha n hn
      · exact ⟨y, hs.seats.mem hy, Option.some.inj hn⟩

/-- All part who are there. -/
theorem Tidy.dismiss (ht : h.Tidy) (hs : h.Seated) (hd : h.Distinct) (idle : h.serving = none) :
    h.dismiss.Tidy := by
  have history : h.dismiss.room.history = h.room.history ++ h.seats.map .cleanedUp := rfl
  have distinct : (h.seats.map (·.serial)).Nodup := (hs.seats.map _).nodup hd
  refine ⟨fun x hx => ?_, fun x hx _ => ?_, fun a ha n hn => ?_, turns_of_idle idle _⟩
  · cases hx
  · have hx : x ∈ h.guests := hx
    rw [Parted, history]
    by_cases hin : x ∈ h.seats
    · exact (ht.there x hin).all_part hin distinct
    · refine (ht.gone x hx hin).append fun a ha => ?_
      obtain ⟨y, hy, rfl⟩ := List.mem_map.1 ha
      have hne : y ≠ x := fun he => hin (he ▸ hy)
      exact Seat.absent_cleanedUp (hs.apart hd hy hx hne) _ (List.mem_singleton_self _)
  · rw [history, List.mem_append] at ha
    rcases ha with ha | ha
    · exact ht.only a ha n hn
    · obtain ⟨y, hy, rfl⟩ := List.mem_map.1 ha
      exact ⟨y, hs.seats.mem hy, Option.some.inj hn⟩

/-- **Letters.** Whatever a letter tells, whoever leaves parts. -/
theorem Tidy.tell (ht : h.Tidy) (hs : h.Seated) (hd : h.Distinct) (idle : h.serving = none)
    (l : Letter) (fresh : ∀ x, l.body.seat? = some x → ∀ y ∈ h.guests, y.serial ≠ x.serial) :
    (h.tell l).Tidy := by
  have nobody := turns_of_idle idle h.seats
  have next (l : Letter) : (h.next l).Tidy := ht.of_same rfl rfl rfl nobody
  obtain ⟨n, body⟩ := l
  cases body with
  | event e =>
    refine ht.of_same rfl rfl rfl fun e' rest hv x hx => ?_
    cases hv
    exact hx
  | register x =>
    rw [tell_register]
    exact (next _).enter idle (fresh x rfl)
  | remove name =>
    obtain ⟨-, joined, serving, -, room⟩ := h.tell_remove n name
    exact ht.remove hs hd room joined (serving.trans idle)
  | barrier => exact ht.of_same rfl rfl rfl nobody
  | shutdown => exact (ht.dismiss hs hd idle).of_same rfl rfl rfl (turns_of_idle idle _)

/-- **Turns.** Nobody has a turn who is gone. -/
theorem Tidy.offer (ht : h.Tidy) (hs : h.Seated) (hd : h.Distinct) {rest : List Seat}
    (serving : h.serving = some (e, y :: rest)) : (h.offer e y rest).Tidy := by
  have hy : y ∈ h.seats := ht.turns e _ serving y List.mem_cons_self
  have seats : (h.offer e y rest).seats = h.seats := h.room.offer_seats y e
  refine ht.grow _ [] (h.room.offer_history y e) ?_ ?_ ?_ (fun a ha => ?_)
    (fun x hx hout => ?_) fun e' rest' hv x hx => ?_
  · exact (List.append_nil _).symm
  · rw [seats, List.append_nil]
  · exact fun x hx => absurd hx List.not_mem_nil
  · split at ha
    · rw [List.mem_singleton.1 ha]
      rfl
    · cases ha
  · split
    · have hne : y ≠ x := fun he => hout (he ▸ hy)
      exact Seat.absent_heard (hs.apart hd hy hx hne) e
    · exact x.absent_nil
  · cases hv
    exact ht.turns e _ serving x (List.mem_cons_of_mem _ hx)

end Hall

namespace House

variable {s : House}

/-! ## Runs -/

/-- Who is let go of in a house: nobody is left when all are. -/
structure Tidy (s : House) : Prop where
  hall : s.hall.Tidy
  empty : s.hall.dismissed = true → s.hall.seats = [] ∧ s.founders = []

theorem tidy_opened (strict hasClient : Bool) (utxo account : Option Engine)
    (limit : Option Nat) (listeners : List Listener) :
    (opened strict hasClient utxo account limit listeners).Tidy := by
  obtain ⟨-, -, audience, history⟩ := presentAll_spec (Room.empty limit) listeners
  set s := opened strict hasClient utxo account limit listeners
  have nobody : s.hall.seats = [] := congrArg Audience.seats audience
  have nothing : s.hall.room.history = [] := history
  refine ⟨⟨?_, ?_, ?_, Hall.turns_of_idle rfl _⟩, fun gone => by cases gone⟩
  · rw [nobody]
    exact fun x hx => absurd hx List.not_mem_nil
  · exact fun x hx => absurd hx List.not_mem_nil
  · rw [nothing]
    exact fun a ha => absurd ha List.not_mem_nil

/-- **Runs.** Whatever steps a house takes, those who leave the hall part. -/
theorem Reachable.tidy (hs : s.Reachable) : s.Tidy := by
  induction hs with
  | opened strict hasClient utxo account limit ls => exact tidy_opened ..
  | @step s s' hs hstep ih =>
    have kept := hs.kept
    have distinct := kept.counted.distinct
    cases hstep with
    | arrive | enlist | take | setting | clock => exact ⟨ih.hall, ih.empty⟩
    | begin => exact ⟨ih.hall, ih.empty⟩
    | present l => exact ⟨ih.hall.of_same rfl rfl rfl ih.hall.turns, ih.empty⟩
    | clear name => exact ⟨ih.hall.of_same rfl rfl rfl ih.hall.turns, ih.empty⟩
    | @found x rest founders =>
      have idle := kept.idle (by simp [founders])
      have fresh := kept.counted.fresh (mem_awaited_founder founders)
      have hall := ih.hall.enter idle fresh
      refine ⟨hall, fun gone => ?_⟩
      rw [Hall.dismissed_enter s.hall x] at gone
      rw [(ih.empty gone).2] at founders
      cases founders
    | @tell l rest founders idle staying unread =>
      have fresh := fun x hx => kept.counted.fresh (mem_awaited_letter unread (x := x) hx)
      refine ⟨ih.hall.tell kept.seated distinct idle l fresh, fun gone => ⟨?_, founders⟩⟩
      obtain ⟨last, -⟩ := dismissed_tell staying gone
      obtain ⟨n, body⟩ := l
      cases last
      rfl
    | @offer e x rest serving =>
      refine ⟨ih.hall.offer kept.seated distinct serving, fun gone => ?_⟩
      have seats : (s.hall.offer e x rest).seats = s.hall.seats := s.hall.room.offer_seats x e
      rw [seats]
      exact ih.empty gone
    | served => exact ⟨ih.hall.of_same rfl rfl rfl (Hall.turns_of_idle rfl _), ih.empty⟩
    | leave founders idle =>
      exact ⟨ih.hall.dismiss kept.seated distinct idle, fun _ => ⟨rfl, founders⟩⟩

/-- **Cleanups.** When all were let go, everybody who was let in was cleaned up once, and had been
handed by then all that it was to hear. -/
theorem Reachable.parted (hs : s.Reachable) (gone : s.hall.dismissed = true) {x : Seat} {i : Nat}
    (hx : (x, i) ∈ s.hall.joined) :
    s.hall.Parted x ∧ s.hall.heard x = x.hears (s.mail.drop i) := by
  have tidy := hs.tidy
  refine ⟨tidy.hall.gone x (Hall.mem_guests hx) ?_, (hs.delivers hx).ended gone⟩
  rw [(tidy.empty gone).1]
  exact List.not_mem_nil

/-! ## A hall that reads on -/

/-- The house after some turns of the hall. -/
def Reads (s s' : House) : Prop := ∃ n, hallTurn^[n] s = s'

theorem Reads.trans {s s' s'' : House} (h : s.Reads s') (h' : s'.Reads s'') : s.Reads s'' := by
  obtain ⟨m, rfl⟩ := h
  obtain ⟨n, rfl⟩ := h'
  exact ⟨n + m, Function.iterate_add_apply hallTurn n m s⟩

theorem reads_one (s : House) : s.Reads s.hallTurn := ⟨1, rfl⟩

/-- Those who are there from the start are registered, one after the other. -/
theorem reads_founders (s : House) :
    ∃ s', s.Reads s' ∧ s'.founders = [] ∧ s'.unread = s.unread := by
  obtain ⟨xs, founders⟩ : ∃ xs, s.founders = xs := ⟨_, rfl⟩
  induction xs generalizing s with
  | nil => exact ⟨s, ⟨0, rfl⟩, founders, rfl⟩
  | cons x xs ih =>
    have turn : s.hallTurn = { s with hall := s.hall.enter x, founders := xs } := by
      rw [hallTurn, founders]
    obtain ⟨s', reads, done, unread⟩ := ih s.hallTurn (by rw [turn])
    refine ⟨s', s.reads_one.trans reads, done, ?_⟩
    rw [unread, turn]

/-- All have their turn with the event under way. -/
theorem reads_serving (s : House) (founders : s.founders = []) : ∃ s', s.Reads s' ∧
    s'.founders = [] ∧ s'.hall.serving = none ∧ s'.unread = s.unread := by
  cases serving : s.hall.serving with
  | none => exact ⟨s, ⟨0, rfl⟩, founders, serving, rfl⟩
  | some v =>
    obtain ⟨e, xs⟩ := v
    induction xs generalizing s with
    | nil =>
      have turn : s.hallTurn = { s with hall := { s.hall with serving := none } } := by
        rw [hallTurn, founders, serving]
      exact ⟨s.hallTurn, s.reads_one, by rw [turn, founders], by rw [turn], by rw [turn]⟩
    | cons x xs ih =>
      have turn : s.hallTurn = { s with hall := s.hall.offer e x xs } := by
        rw [hallTurn, founders, serving]
      obtain ⟨s', reads, done, idle, unread⟩ := ih s.hallTurn (by rw [turn, founders])
        (by rw [turn, Hall.offer])
      refine ⟨s', s.reads_one.trans reads, done, idle, ?_⟩
      rw [unread, turn]

/-- A hall that has the letter that ends it all comes to it, if it reads on. -/
theorem reads_dismissed (s : House) (last : ∃ l ∈ s.unread, l.body = .shutdown) :
    ∃ s', s.Reads s' ∧ s'.hall.dismissed = true := by
  obtain ⟨ls, unread⟩ : ∃ ls, s.unread = ls := ⟨_, rfl⟩
  induction ls generalizing s with
  | nil =>
    obtain ⟨l, hl, -⟩ := last
    rw [unread] at hl
    cases hl
  | cons l ls ih =>
    obtain ⟨s₁, first, founders₁, unread₁⟩ := s.reads_founders
    obtain ⟨s₂, second, founders, idle, unread₂⟩ := s₁.reads_serving founders₁
    have here : s.Reads s₂ := first.trans second
    have unread : s₂.unread = l :: ls := unread₂.trans (unread₁.trans unread)
    cases gone : s₂.hall.dismissed with
    | true => exact ⟨s₂, here, gone⟩
    | false =>
      have turn : s₂.hallTurn = { s₂ with hall := s₂.hall.tell l, unread := ls } := by
        simp only [hallTurn, founders, idle, unread, gone, Bool.false_eq_true, if_false]
      have told : s.Reads s₂.hallTurn := here.trans s₂.reads_one
      by_cases body : l.body = .shutdown
      · refine ⟨s₂.hallTurn, told, ?_⟩
        obtain ⟨n, b⟩ := l
        cases body
        rw [turn]
        rfl
      · obtain ⟨l', hl', hbody⟩ := last
        have later : l' ∈ ls := by
          rw [← unread₁, ← unread₂, unread] at hl'
          refine (List.mem_cons.1 hl').resolve_left fun he => body (he ▸ hbody)
        obtain ⟨s', reads, done⟩ := ih s₂.hallTurn ⟨l', by rw [turn]; exact later, hbody⟩
          (by rw [turn])
        exact ⟨s', told.trans reads, done⟩

/-- **Leaving.** When the hub took a shutdown, a hall that reads on lets all its listeners go. -/
theorem reads_shutdown (s : House) (rest : List Command) :
    ∃ s', (s.take .shutdown rest).Reads s' ∧ s'.hall.dismissed = true := by
  refine reads_dismissed _ ⟨⟨s.taken.length + 1, .shutdown⟩, ?_, rfl⟩
  obtain ⟨es, mail, -⟩ := s.hub.speaks_step .shutdown
  show _ ∈ s.unread ++ (s.hub.step .shutdown).mail.map (Letter.mk _)
  rw [mail]
  simp [Command.letters]

theorem Reachable.reads (hs : s.Reachable) {s' : House} (reads : s.Reads s') : s'.Reachable := by
  obtain ⟨n, rfl⟩ := reads
  exact hs.turns House.hallTurn (fun hr => hr.hallTurn) n

end House
end WalletHub
