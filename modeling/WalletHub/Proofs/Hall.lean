import Mathlib.Data.List.Infix
import Mathlib.Data.List.Nodup
import Mathlib.Data.List.TakeWhile
import WalletHub.Proofs.House

/-!
# What the hall does with its letters

Two things hold of the hall as it reads. `Hall.Seated`: a listener that was let in has its seat
until a letter removes it, whatever becomes of others. `Hall.Served`: what a listener was handed,
and the event under way if that is still to be handed to it, is what it is to hear of the letters
behind its registration. Only the hearing of an event moves the second, and whether a listener
fails at an event is not asked anywhere.

* `Seated.tell`, `Served.tell`: one letter.
* `Served.offer`, `Served.served`: one listener's turn with an event, and the end of an event.
* `Flushes.tell`: a flush is answered when all before it is done with.
-/
namespace WalletHub

/-! ## What a listener is to hear -/

namespace Seat

variable {x : Seat} {l : Letter} {ls ls' : List Letter} {e : Event}

/-- Whether a listener has its seat after these letters. -/
def Stays (x : Seat) (ls : List Letter) : Prop := ∀ l ∈ ls, l.removes x = false

theorem stays_snoc : x.Stays (ls ++ [l]) ↔ x.Stays ls ∧ l.removes x = false := by
  simp [Stays, or_imp, forall_and]

theorem hears_append_of_stays (hs : x.Stays ls) :
    x.hears (ls ++ ls') = x.hears ls ++ x.hears ls' := by
  have hall : ∀ l ∈ ls, (!l.removes x) = true := fun l hl => by simp [hs l hl]
  have hself : ls.takeWhile (!·.removes x) = ls := List.takeWhile_eq_self_iff.2 hall
  simp only [hears, List.takeWhile_append_of_pos hall, hself, Letter.events, List.filterMap_append,
    List.filter_append]

theorem hears_append_of_gone (hs : ¬x.Stays ls) : x.hears (ls ++ ls') = x.hears ls := by
  have hne : (ls.takeWhile (!·.removes x)).length ≠ ls.length := by
    intro hlength
    refine hs fun l hl => ?_
    rw [← (List.takeWhile_prefix _).eq_of_length hlength] at hl
    simpa using List.all_eq_true.1 List.all_takeWhile l hl
  rw [hears, List.takeWhile_append, if_neg hne, hears]

/-- Nothing is heard of a letter that tells no event. -/
theorem hears_snoc_silent (silent : l.body.event? = none) : x.hears (ls ++ [l]) = x.hears ls := by
  by_cases hs : x.Stays ls
  · have hone : x.hears [l] = [] := by
      cases hl : l.removes x <;> simp [hears, Letter.events, silent, hl]
    rw [hears_append_of_stays hs, hone, List.append_nil]
  · exact hears_append_of_gone hs

theorem hears_snoc_event (hl : l.body = .event e) (hs : x.Stays ls) :
    x.hears (ls ++ [l]) = x.hears ls ++ if x.listener.wants e then [e] else [] := by
  have hone : x.hears [l] = [e].filter x.listener.wants := by
    simp [hears, Letter.events, Letter.removes, hl, Notification.event?]
  rw [hears_append_of_stays hs, hone, List.filter_cons, List.filter_nil]

theorem hears_prefix (hls : ls <+: ls') : x.hears ls <+: x.hears ls' := by
  obtain ⟨more, rfl⟩ := hls
  by_cases hs : x.Stays ls
  · rw [hears_append_of_stays hs]
    exact List.prefix_append ..
  · exact (hears_append_of_gone hs).symm ▸ List.prefix_refl _

end Seat

/-! ## Rooms -/

/-- Nobody was handed anything between two states of the room. -/
structure Room.Quiet (r r' : Room) : Prop where
  heard : ∀ serial, r'.history.filterMap (·.heardBy? serial) =
    r.history.filterMap (·.heardBy? serial)
  acts : ∀ x e, .heard x e ∈ r'.history → .heard x e ∈ r.history

namespace Room

theorem quiet_of_acts {r r' : Room} {acts : List Act} (history : r'.history = r.history ++ acts)
    (silent : ∀ a ∈ acts, ∀ x e, a ≠ .heard x e) : r.Quiet r' := by
  refine ⟨fun serial => ?_, fun x e he => ?_⟩
  · have hnone : acts.filterMap (·.heardBy? serial) = [] := by
      refine List.filterMap_eq_nil_iff.2 fun a ha => ?_
      cases a with
      | setUp | cleanedUp => rfl
      | heard x e => exact absurd rfl (silent _ ha x e)
    rw [history, List.filterMap_append, hnone, List.append_nil]
  · rw [history, List.mem_append] at he
    exact he.resolve_right fun ha => silent _ ha x e rfl

theorem quiet_register (r : Room) (x : Seat) : r.Quiet (r.register x).1 := by
  rcases hreg : r.audience.register x with ⟨a, reply, acts⟩
  have history : (r.register x).1.history = r.history ++ acts := by rw [register, hreg]; rfl
  refine quiet_of_acts history fun act hact y e he => ?_
  rw [he] at hact
  have hacts : (r.audience.register x).2.2 = acts := by rw [hreg]
  rw [← hacts] at hact
  unfold Audience.register at hact
  split at hact
  · cases hact
  · split at hact <;> cases List.mem_singleton.1 hact

theorem quiet_remove (r : Room) (name : String) : r.Quiet (r.remove name).1 := by
  rcases hrem : r.audience.remove name with ⟨a, reply, acts⟩
  have history : (r.remove name).1.history = r.history ++ acts := by rw [remove, hrem]; rfl
  refine quiet_of_acts history fun act hact y e he => ?_
  rw [he] at hact
  have hacts : (r.audience.remove name).2.2 = acts := by rw [hrem]
  rw [← hacts] at hact
  unfold Audience.remove at hact
  split at hact
  · cases hact
  · cases List.mem_singleton.1 hact

theorem quiet_dismiss (r : Room) : r.Quiet r.dismiss := by
  have history : r.dismiss.history = r.history ++ r.audience.seats.map .cleanedUp := rfl
  refine quiet_of_acts history fun act hact y e he => ?_
  obtain ⟨x, -, hx⟩ := List.mem_map.1 hact
  rw [he] at hx
  cases hx

/-- Who is there after a registration: the listener as well, under a name of its own, or nobody
else. -/
theorem register_seats (r : Room) (x : Seat) :
    ((r.register x).2 = .ok () ∧ (r.register x).1.audience.seats = r.audience.seats ++ [x] ∧
      ∀ y ∈ r.audience.seats, y.listener.name ≠ x.listener.name) ∨
    (∃ e, (r.register x).2 = .error e) ∧ (r.register x).1.audience.seats = r.audience.seats := by
  simp only [register, after, Audience.register]
  split
  · exact .inr ⟨⟨_, rfl⟩, rfl⟩
  · rename_i hobjection
    split
    · exact .inr ⟨⟨_, rfl⟩, rfl⟩
    · refine .inl ⟨rfl, rfl, fun y hy hname => ?_⟩
      have hhas : r.audience.has x.listener.name = true :=
        List.any_eq_true.2 ⟨y, hy, beq_iff_eq.2 hname⟩
      unfold Audience.objection? at hobjection
      simp only [hhas, if_true] at hobjection
      split at hobjection <;> cases hobjection

theorem remove_seats (r : Room) (name : String) :
    (r.remove name).1.audience.seats = r.audience.seats.eraseP (·.listener.name == name) := by
  simp only [remove, after, Audience.remove]
  split
  · rename_i hnone
    exact (List.eraseP_of_forall_not (List.find?_eq_none.1 hnone)).symm
  · rfl

theorem offer_seats (r : Room) (x : Seat) (e : Event) :
    (r.offer x e).1.audience.seats = r.audience.seats := by
  simp only [offer, after, Audience.offer]
  split <;> rfl

theorem offer_history (r : Room) (x : Seat) (e : Event) :
    (r.offer x e).1.history = r.history ++ if x.listener.wants e then [.heard x e] else [] := by
  simp only [offer, after, Audience.offer]
  split <;> rfl

end Room

/-- Listeners with names of their own: all but the one of a name are left. -/
theorem mem_eraseP_name {xs : List Seat} (names : (xs.map (·.listener.name)).Nodup) (name : String)
    (x : Seat) : x ∈ xs.eraseP (·.listener.name == name) ↔ x ∈ xs ∧ x.listener.name ≠ name := by
  induction xs with
  | nil => simp
  | cons y ys ih =>
    rw [List.map_cons, List.nodup_cons] at names
    rw [List.eraseP_cons]
    by_cases hy : y.listener.name = name
    · have hrest : ∀ z ∈ ys, z.listener.name ≠ name := fun z hz hname =>
        names.1 (List.mem_map.2 ⟨z, hz, hname.trans hy.symm⟩)
      simp only [hy, beq_self_eq_true, cond_true, List.mem_cons]
      refine ⟨fun hx => ⟨.inr hx, hrest x hx⟩, fun ⟨hx, hname⟩ => ?_⟩
      rcases hx with rfl | hx
      · exact absurd hy hname
      · exact hx
    · rw [beq_eq_false_iff_ne.2 hy, cond_false, List.mem_cons, ih names.2, List.mem_cons]
      refine ⟨?_, ?_⟩
      · rintro (rfl | ⟨hx, hname⟩)
        · exact ⟨.inl rfl, hy⟩
        · exact ⟨.inr hx, hname⟩
      · rintro ⟨rfl | hx, hname⟩
        · exact .inl rfl
        · exact .inr ⟨hx, hname⟩

namespace Hall

/-- Listeners that were let in, in this order. -/
def guests (h : Hall) : List Seat := h.joined.map (·.1)

/-- Listeners that are there. -/
def seats (h : Hall) : List Seat := h.room.audience.seats

/-- No two listeners that were let in have the same number. -/
def Distinct (h : Hall) : Prop := (h.guests.map (·.serial)).Nodup

variable {h h' : Hall} {l : Letter} {x : Seat} {e : Event}

theorem Distinct.eq (hd : h.Distinct) {y : Seat} (hx : x ∈ h.guests) (hy : y ∈ h.guests)
    (he : x.serial = y.serial) : x = y := List.inj_on_of_nodup_map hd hx hy he

theorem mem_guests {i : Nat} (hx : (x, i) ∈ h.joined) : x ∈ h.guests := List.mem_map_of_mem hx

theorem guests_of_joined (joined : h'.joined = h.joined) : h'.guests = h.guests := by
  rw [guests, joined, guests]

/-! ## Operations -/

@[simp] theorem read_enter (h : Hall) (x : Seat) : (h.enter x).read = h.read := by
  simp only [Hall.enter]

@[simp] theorem serving_enter (h : Hall) (x : Seat) : (h.enter x).serving = h.serving := by
  simp only [Hall.enter]

@[simp] theorem dismissed_enter (h : Hall) (x : Seat) : (h.enter x).dismissed = h.dismissed := by
  simp only [Hall.enter]

@[simp] theorem room_enter (h : Hall) (x : Seat) : (h.enter x).room = (h.room.register x).1 := by
  simp only [Hall.enter]

theorem tell_register (h : Hall) (n : Nat) (x : Seat) : h.tell ⟨n, .register x⟩ =
    (h.next ⟨n, .register x⟩).enter x := by
  simp only [tell]

/-- A letter that removes a listener changes the room, and nothing else. -/
theorem tell_remove (h : Hall) (n : Nat) (name : String) :
    (h.tell ⟨n, .remove name⟩).read = h.read ++ [⟨n, .remove name⟩] ∧
      (h.tell ⟨n, .remove name⟩).joined = h.joined ∧
      (h.tell ⟨n, .remove name⟩).serving = h.serving ∧
      (h.tell ⟨n, .remove name⟩).dismissed = h.dismissed ∧
      (h.tell ⟨n, .remove name⟩).room = (h.room.remove name).1 := by
  simp only [tell, next, and_self]

/-- The cases of a registration: the listener is let in, under a name of its own, or nothing
changes. -/
theorem enter_cases (h : Hall) (x : Seat) :
    ((h.enter x).joined = h.joined ++ [(x, h.read.length)] ∧ (h.enter x).seats = h.seats ++ [x] ∧
      ∀ y ∈ h.seats, y.listener.name ≠ x.listener.name) ∨
    (h.enter x).joined = h.joined ∧ (h.enter x).seats = h.seats := by
  rcases h.room.register_seats x with ⟨hreply, hseats, hnames⟩ | ⟨⟨e, hreply⟩, hseats⟩
  · refine .inl ⟨by simp only [enter, hreply], ?_, hnames⟩
    rw [seats, room_enter, hseats, seats]
  · refine .inr ⟨by simp only [enter, hreply], ?_⟩
    rw [seats, room_enter, hseats, seats]

/-! ## Seats -/

/-- Who has a seat, and since when. -/
structure Seated (h : Hall) : Prop where
  seats : h.seats.Sublist h.guests
  names : (h.seats.map (·.listener.name)).Nodup
  /-- The letters of a listener begin with the first one of all, or behind its registration. -/
  place : ∀ x i, (x, i) ∈ h.joined →
    i ≤ h.read.length ∧ (i = 0 ∨ ∃ n, h.read[i - 1]? = some ⟨n, .register x⟩)
  stays : h.dismissed = false → ∀ x i, (x, i) ∈ h.joined → (x ∈ h.seats ↔ x.Stays (h.read.drop i))

theorem Seated.of_same (hs : h.Seated) (read : h'.read = h.read) (joined : h'.joined = h.joined)
    (seats : h'.seats = h.seats) (dismissed : h'.dismissed = h.dismissed) : h'.Seated := by
  refine ⟨?_, ?_, ?_, ?_⟩
  · rw [seats, guests_of_joined joined]; exact hs.seats
  · rw [seats]; exact hs.names
  · rw [joined, read]; exact hs.place
  · rw [dismissed, joined, read, seats]; exact hs.stays

/-- Somebody whom nobody saw before sits down behind the others. -/
theorem Seated.joins (hs : h.Seated) (read : h'.read = h.read)
    (joined : h'.joined = h.joined ++ [(x, h.read.length)]) (seats : h'.seats = h.seats ++ [x])
    (dismissed : h'.dismissed = h.dismissed) (fresh : ∀ y ∈ h.guests, y.serial ≠ x.serial)
    (named : ∀ y ∈ h.seats, y.listener.name ≠ x.listener.name)
    (place : h.read.length = 0 ∨ ∃ n, h.read[h.read.length - 1]? = some ⟨n, .register x⟩) :
    h'.Seated := by
  have old : ∀ {y i}, (y, i) ∈ h'.joined → (y, i) ∈ h.joined ∨ (y, i) = (x, h.read.length) := by
    intro y i hy
    rwa [joined, List.mem_append, List.mem_singleton] at hy
  refine ⟨?_, ?_, ?_, ?_⟩
  · rw [seats, guests, joined, List.map_append]
    exact hs.seats.append (.refl [x])
  · rw [seats, List.map_append, List.nodup_append]
    refine ⟨hs.names, List.nodup_singleton _, fun a ha b hb => ?_⟩
    obtain ⟨y, hy, rfl⟩ := List.mem_map.1 ha
    rw [List.mem_singleton.1 hb]
    exact named y hy
  · intro y i hy
    rw [read]
    rcases old hy with hy | hy
    · exact hs.place y i hy
    · cases hy
      exact ⟨Nat.le_refl _, place⟩
  · intro staying y i hy
    rw [read, seats, List.mem_append, List.mem_singleton]
    rcases old hy with hy | hy
    · rw [← hs.stays (dismissed ▸ staying) y i hy]
      refine ⟨fun hmem => hmem.resolve_right ?_, .inl⟩
      rintro rfl
      exact fresh y (mem_guests hy) rfl
    · cases hy
      rw [List.drop_length]
      exact ⟨fun _ _ hl => absurd hl List.not_mem_nil, fun _ => .inr rfl⟩

/-- A letter is read, and those leave whom it removes. -/
theorem Seated.reads (hs : h.Seated) (read : h'.read = h.read ++ [l])
    (joined : h'.joined = h.joined) (dismissed : h'.dismissed = h.dismissed)
    (seats : h'.seats.Sublist h.seats)
    (leaves : ∀ x, x ∈ h'.seats ↔ x ∈ h.seats ∧ l.removes x = false) : h'.Seated := by
  refine ⟨?_, (seats.map _).nodup hs.names, ?_, ?_⟩
  · rw [guests_of_joined joined]
    exact seats.trans hs.seats
  · intro x i hx
    obtain ⟨hi, hplace⟩ := hs.place x i (joined ▸ hx)
    rw [read, List.length_append, List.length_singleton]
    refine ⟨Nat.le_succ_of_le hi, hplace.imp_right fun ⟨n, hn⟩ => ⟨n, ?_⟩⟩
    rw [List.getElem?_append_left (List.getElem?_eq_some_iff.1 hn).1, hn]
  · intro staying x i hx
    rw [joined] at hx
    rw [read, List.drop_append_of_le_length (hs.place x i hx).1, Seat.stays_snoc, leaves,
      hs.stays (dismissed ▸ staying) x i hx]

/-- All leave. -/
theorem Seated.dismiss (hs : h.Seated) : h.dismiss.Seated := by
  refine ⟨List.nil_sublist _, List.nodup_nil, hs.place, fun staying => ?_⟩
  cases staying

theorem Seated.enter (hs : h.Seated) (fresh : ∀ y ∈ h.guests, y.serial ≠ x.serial)
    (place : h.read.length = 0 ∨ ∃ n, h.read[h.read.length - 1]? = some ⟨n, .register x⟩) :
    (h.enter x).Seated := by
  rcases h.enter_cases x with ⟨joined, seats, named⟩ | ⟨joined, seats⟩
  · exact hs.joins (read_enter h x) joined seats (dismissed_enter h x) fresh named place
  · exact hs.of_same (read_enter h x) joined seats (dismissed_enter h x)

/-- **Seats.** Whatever a letter tells, listeners keep their seats until they are removed. -/
theorem Seated.tell (hs : h.Seated) (l : Letter)
    (fresh : ∀ x, l.body.seat? = some x → ∀ y ∈ h.guests, y.serial ≠ x.serial) :
    (h.tell l).Seated := by
  -- a letter that removes nobody
  have still (b : Notification) (hb : l.body = b) (removes : ∀ x, l.removes x = false) :
      (h.next l).Seated :=
    hs.reads rfl rfl rfl (.refl _) fun x => (and_iff_left (removes x)).symm
  obtain ⟨n, body⟩ := l
  cases body with
  | event e => exact (still _ rfl fun _ => rfl).of_same rfl rfl rfl rfl
  | register x =>
    rw [tell_register]
    refine (still _ rfl fun _ => rfl).enter (fresh x rfl) (.inr ⟨n, ?_⟩)
    simp only [next, List.length_append, List.length_singleton, Nat.add_sub_cancel,
      List.getElem?_concat_length]
  | remove name =>
    obtain ⟨read, joined, -, dismissed, room⟩ := h.tell_remove n name
    have seats : (h.tell ⟨n, .remove name⟩).seats = h.seats.eraseP (·.listener.name == name) := by
      rw [Hall.seats, room, h.room.remove_seats name, Hall.seats]
    refine hs.reads read joined dismissed ?_ fun x => ?_
    · rw [seats]
      exact List.eraseP_sublist
    · rw [seats, mem_eraseP_name hs.names]
      exact and_congr_right fun _ => beq_eq_false_iff_ne.symm
  | barrier => exact (still _ rfl fun _ => rfl).of_same rfl rfl rfl rfl
  | shutdown => exact (still _ rfl fun _ => rfl).dismiss

/-! ## Hearing -/

/-- What listeners were handed, and what they are about to be handed, is what they are to hear. -/
structure Served (h : Hall) : Prop where
  heard : ∀ x i, (x, i) ∈ h.joined → h.heard x ++ h.coming x = x.hears (h.read.drop i)
  settled : ∀ x i, (x, i) ∈ h.joined → x.hears (h.settled.drop i) <+: h.heard x
  /-- Nobody else is handed anything. -/
  guests : ∀ x e, .heard x e ∈ h.room.history → x ∈ h.guests
  turns : ∀ e rest, h.serving = some (e, rest) → rest.Sublist h.guests ∧ h.read ≠ []

theorem Served.of_idle (idle : h.serving = none)
    (heard : ∀ x i, (x, i) ∈ h.joined → h.heard x = x.hears (h.read.drop i))
    (guests : ∀ x e, .heard x e ∈ h.room.history → x ∈ h.guests) : h.Served := by
  refine ⟨fun x i hx => ?_, fun x i hx => ?_, guests, fun e rest hv => ?_⟩
  · rw [coming, idle, List.append_nil, heard x i hx]
  · rw [Hall.settled, idle, heard x i hx]
  · rw [idle] at hv; cases hv

theorem Served.heard_of_idle (hs : h.Served) (idle : h.serving = none) {i : Nat}
    (hx : (x, i) ∈ h.joined) : h.heard x = x.hears (h.read.drop i) := by
  rw [← hs.heard x i hx, coming, idle, List.append_nil]

/-- Who was not let in was handed nothing. -/
theorem Served.heard_nil (hs : h.Served) {serial : Nat}
    (fresh : ∀ y ∈ h.guests, y.serial ≠ serial) :
    h.room.history.filterMap (·.heardBy? serial) = [] := by
  refine List.filterMap_eq_nil_iff.2 fun a ha => ?_
  cases a with
  | setUp | cleanedUp => rfl
  | heard y e => exact if_neg (fresh y (hs.guests y e ha))

/-- Nobody is handed anything, and the letters are the same for everybody. -/
theorem Served.quiet (hs : h.Served) (idle : h.serving = none) (idle' : h'.serving = none)
    (quiet : h.room.Quiet h'.room) (joined : h'.joined = h.joined)
    (read : ∀ x i, (x, i) ∈ h.joined → x.hears (h'.read.drop i) = x.hears (h.read.drop i)) :
    h'.Served := by
  refine .of_idle idle' (fun x i hx => ?_) fun x e he => ?_
  · rw [joined] at hx
    rw [read x i hx, ← hs.heard_of_idle idle hx]
    exact quiet.heard x.serial
  · rw [guests_of_joined joined]
    exact hs.guests x e (quiet.acts x e he)

theorem Served.enter (hs : h.Served) (idle : h.serving = none)
    (fresh : ∀ y ∈ h.guests, y.serial ≠ x.serial) : (h.enter x).Served := by
  have quiet : h.room.Quiet (h.enter x).room := by
    rw [room_enter]
    exact h.room.quiet_register x
  have idle' : (h.enter x).serving = none := (serving_enter h x).trans idle
  have read := read_enter h x
  rcases h.enter_cases x with ⟨joined, -, -⟩ | ⟨joined, -⟩
  · refine .of_idle idle' (fun y i hy => ?_) fun y e he => ?_
    · have same : (h.enter x).heard y = h.heard y := quiet.heard y.serial
      rw [joined, List.mem_append, List.mem_singleton] at hy
      rw [read, same]
      rcases hy with hy | hy
      · exact hs.heard_of_idle idle hy
      · cases hy
        rw [List.drop_length, Hall.heard, hs.heard_nil fresh]
        rfl
    · rw [Hall.guests, joined, List.map_append]
      exact List.mem_append_left _ (hs.guests y e (quiet.acts y e he))
  · exact hs.quiet idle idle' quiet joined fun y i _ => by rw [read]

/-- An event is about to be offered to all who are there. -/
theorem Served.announce (hs : h.Served) (hseated : h.Seated) (hd : h.Distinct)
    (idle : h.serving = none) (staying : h.dismissed = false) {n : Nat}
    (hl : l = ⟨n, .event e⟩) : (h.tell l).Served := by
  subst hl
  refine ⟨fun x i hx => ?_, fun x i hx => ?_, hs.guests, fun e' rest hv => ?_⟩
  · have hx : (x, i) ∈ h.joined := hx
    have heard : (h.tell ⟨n, .event e⟩).heard x = x.hears (h.read.drop i) :=
      hs.heard_of_idle idle hx
    have read : (h.tell ⟨n, .event e⟩).read.drop i = h.read.drop i ++ [⟨n, .event e⟩] :=
      List.drop_append_of_le_length (hseated.place x i hx).1
    have coming : (h.tell ⟨n, .event e⟩).coming x =
        if h.seats.any (·.serial == x.serial) && x.listener.wants e then [e] else [] := rfl
    have there : h.seats.any (·.serial == x.serial) = true ↔ x.Stays (h.read.drop i) := by
      rw [← hseated.stays staying x i hx, List.any_eq_true]
      refine ⟨fun ⟨y, hy, he⟩ => ?_, fun hmem => ⟨x, hmem, beq_self_eq_true _⟩⟩
      rwa [hd.eq (mem_guests hx) (hseated.seats.mem hy) (beq_iff_eq.1 he).symm]
    rw [heard, read, coming]
    by_cases hstays : x.Stays (h.read.drop i)
    · rw [Seat.hears_snoc_event rfl hstays, there.2 hstays, Bool.true_and]
    · rw [Seat.hears_append_of_gone hstays, Bool.eq_false_iff.2 fun ht => hstays (there.1 ht),
        Bool.false_and, if_neg Bool.false_ne_true, List.append_nil]
  · have settled : (h.tell ⟨n, .event e⟩).settled = h.read := List.dropLast_concat
    rw [settled, ← hs.heard_of_idle idle hx]
    exact List.prefix_refl _
  · cases hv
    exact ⟨hseated.seats, List.append_ne_nil_of_right_ne_nil _ (List.cons_ne_nil _ _)⟩

/-- **Letters.** Whatever a letter tells, listeners are handed what they are to hear. -/
theorem Served.tell (hs : h.Served) (hseated : h.Seated) (hd : h.Distinct)
    (idle : h.serving = none) (staying : h.dismissed = false) (l : Letter)
    (fresh : ∀ x, l.body.seat? = some x → ∀ y ∈ h.guests, y.serial ≠ x.serial) :
    (h.tell l).Served := by
  -- a letter that tells no event
  have still (silent : l.body.event? = none) : ∀ x i, (x, i) ∈ h.joined →
      x.hears ((h.read ++ [l]).drop i) = x.hears (h.read.drop i) := by
    intro x i hx
    rw [List.drop_append_of_le_length (hseated.place x i hx).1, Seat.hears_snoc_silent silent]
  have quiet : h.room.Quiet h.room := ⟨fun _ => rfl, fun _ _ => id⟩
  obtain ⟨n, body⟩ := l
  cases body with
  | event e => exact hs.announce hseated hd idle staying rfl
  | register x =>
    have reads : (h.next ⟨n, .register x⟩).Served := hs.quiet idle idle quiet rfl (still rfl)
    rw [tell_register]
    exact reads.enter idle (fresh x rfl)
  | remove name =>
    obtain ⟨read, joined, serving, -, room⟩ := h.tell_remove n name
    have quiet : h.room.Quiet (h.tell ⟨n, .remove name⟩).room := by
      rw [room]
      exact h.room.quiet_remove name
    exact hs.quiet idle (serving.trans idle) quiet joined fun x i hx => by
      rw [read]
      exact still rfl x i hx
  | barrier => exact hs.quiet idle idle quiet rfl (still rfl)
  | shutdown => exact hs.quiet idle idle h.room.quiet_dismiss rfl (still rfl)

theorem Served.dismiss (hs : h.Served) (idle : h.serving = none) : h.dismiss.Served :=
  hs.quiet idle idle h.room.quiet_dismiss rfl fun _ _ _ => rfl

/-- **Turns.** A listener whose turn it is is handed the event if it wants it, and then has nothing
more to come of it; for others nothing changes. -/
theorem Served.offer (hs : h.Served) (hd : h.Distinct) {y : Seat} {rest : List Seat}
    (serving : h.serving = some (e, y :: rest)) : (h.offer e y rest).Served := by
  obtain ⟨hturns, hread⟩ := hs.turns e _ serving
  have hy : y ∈ h.guests := hturns.mem List.mem_cons_self
  -- nobody has two turns
  have once : ∀ z ∈ rest, z.serial ≠ y.serial := by
    have hnodup : ((y :: rest).map (·.serial)).Nodup := (hturns.map _).nodup hd
    rw [List.map_cons, List.nodup_cons] at hnodup
    exact fun z hz he => hnodup.1 (List.mem_map.2 ⟨z, hz, he⟩)
  have history := h.room.offer_history y e
  have heard : ∀ x, (h.offer e y rest).heard x = h.heard x ++
      (if y.listener.wants e then [Act.heard y e] else []).filterMap (·.heardBy? x.serial) := by
    intro x
    rw [Hall.heard, Hall.offer, history, List.filterMap_append]
    rfl
  have coming : ∀ x, h.coming x =
      if (y.serial == x.serial || rest.any (·.serial == x.serial)) && x.listener.wants e then [e]
      else [] := by
    intro x
    rw [Hall.coming, serving]
    rfl
  refine ⟨fun x i hx => ?_, fun x i hx => ?_, fun x e' he => ?_, fun e' rest' hv => ?_⟩
  · have hx : (x, i) ∈ h.joined := hx
    have coming' : (h.offer e y rest).coming x =
        if rest.any (·.serial == x.serial) && x.listener.wants e then [e] else [] := rfl
    refine Eq.trans ?_ (hs.heard x i hx)
    rw [heard, coming, coming', List.append_assoc]
    congr 1
    by_cases he : y.serial = x.serial
    · obtain rfl := hd.eq hy (mem_guests hx) he
      have hnone : rest.any (·.serial == y.serial) = false :=
        List.any_eq_false.2 fun z hz => by simpa using once z hz
      cases hw : y.listener.wants e <;> simp [hnone, Act.heardBy?]
    · have hother : (y.serial == x.serial) = false := beq_eq_false_iff_ne.2 he
      cases hw : y.listener.wants e <;> simp [hother, Act.heardBy?, he]
  · rw [heard]
    have settled : (h.offer e y rest).settled = h.settled := by
      rw [Hall.settled, Hall.settled, serving]
      rfl
    rw [settled]
    exact (hs.settled x i hx).trans (List.prefix_append ..)
  · have he : .heard x e' ∈ (h.room.offer y e).1.history := he
    rw [history, List.mem_append] at he
    rcases he with he | he
    · exact hs.guests x e' he
    · split at he
      · cases List.mem_singleton.1 he
        exact hy
      · cases he
  · cases hv
    exact ⟨(List.sublist_cons_self ..).trans hturns, hread⟩

/-- All had their turn. -/
theorem Served.served (hs : h.Served) (serving : h.serving = some (e, [])) :
    ({ h with serving := none } : Hall).Served := by
  refine .of_idle rfl (fun x i hx => ?_) hs.guests
  have hcoming : h.coming x = [] := by
    rw [coming, serving]
    rfl
  have hheard := hs.heard x i hx
  rw [hcoming, List.append_nil] at hheard
  exact hheard

/-! ## Flushes -/

/-- A flush was answered when its own letter was read, and all letters up to it are done with. -/
def Flushes (h : Hall) : Prop :=
  ∀ n p, (n, p) ∈ h.flushed → 0 < p ∧ h.settled[p - 1]? = some ⟨n, .barrier⟩

theorem settled_prefix (h : Hall) : h.settled <+: h.read := by
  unfold Hall.settled
  split
  · exact List.dropLast_prefix _
  · exact List.prefix_refl _

theorem getElem?_of_prefix {α : Type} {xs ys : List α} (hp : xs <+: ys) {i : Nat} {a : α}
    (ha : xs[i]? = some a) : ys[i]? = some a := by
  obtain ⟨zs, rfl⟩ := hp
  rw [List.getElem?_append_left (List.getElem?_eq_some_iff.1 ha).1, ha]

theorem Flushes.mono (hf : h.Flushes) (flushed : h'.flushed = h.flushed)
    (settled : h.settled <+: h'.settled) : h'.Flushes := by
  intro n p hp
  obtain ⟨hpos, hletter⟩ := hf n p (flushed ▸ hp)
  exact ⟨hpos, getElem?_of_prefix settled hletter⟩

theorem settled_of_idle (idle : h.serving = none) : h.settled = h.read := by
  rw [Hall.settled, idle]

theorem flushed_enter (h : Hall) (x : Seat) : (h.enter x).flushed = h.flushed := by
  simp only [Hall.enter]

theorem Flushes.enter (hf : h.Flushes) (x : Seat) : (h.enter x).Flushes := by
  refine hf.mono (flushed_enter h x) ?_
  have same : (h.enter x).settled = h.settled := by
    rw [Hall.settled, Hall.settled, read_enter, serving_enter]
  rw [same]

theorem settled_next (idle : h.serving = none) (l : Letter) :
    (h.next l).settled = h.read ++ [l] := settled_of_idle (h := h.next l) idle

theorem Flushes.tell (hf : h.Flushes) (idle : h.serving = none) (l : Letter) :
    (h.tell l).Flushes := by
  have done : h.settled = h.read := settled_of_idle idle
  -- a letter that tells no event is done with as soon as it is read
  have still : (h.next l).Flushes := by
    refine hf.mono rfl ?_
    rw [settled_next idle, done]
    exact List.prefix_append ..
  obtain ⟨n, body⟩ := l
  cases body with
  | event e =>
    have done' : (h.tell ⟨n, .event e⟩).settled = h.read := List.dropLast_concat
    refine hf.mono rfl ?_
    rw [done, done']
  | register x =>
    rw [tell_register]
    exact still.enter x
  | remove name =>
    obtain ⟨read, -, serving, -, -⟩ := h.tell_remove n name
    refine still.mono (by simp only [Hall.tell, Hall.next]) ?_
    rw [settled_of_idle (serving.trans idle), read, settled_next idle]
  | barrier =>
    have done' : (h.tell ⟨n, .barrier⟩).settled = h.read ++ [⟨n, .barrier⟩] :=
      settled_next idle ⟨n, .barrier⟩
    intro m p hp
    rw [done']
    rcases List.mem_append.1 hp with hp | hp
    · obtain ⟨hpos, hletter⟩ := still m p hp
      rw [settled_next idle] at hletter
      exact ⟨hpos, hletter⟩
    · cases List.mem_singleton.1 hp
      rw [Nat.add_sub_cancel, List.getElem?_concat_length]
      exact ⟨Nat.succ_pos _, rfl⟩
  | shutdown => exact still.mono rfl (List.prefix_refl _)

/-! ## Numbers of listeners -/

theorem guests_enter (h : Hall) (x : Seat) : (h.enter x).guests.Sublist (h.guests ++ [x]) := by
  rcases h.enter_cases x with ⟨joined, -, -⟩ | ⟨joined, -⟩
  · rw [guests, joined, List.map_append, guests]
    exact .refl _
  · rw [guests_of_joined joined]
    exact List.sublist_append_left ..

/-- A letter lets in nobody but whom it presents. -/
theorem guests_tell (h : Hall) (l : Letter) :
    (h.tell l).guests.Sublist (h.guests ++ l.body.seat?.toList) := by
  obtain ⟨n, body⟩ := l
  cases body with
  | register x =>
    rw [tell_register]
    exact (h.next _).guests_enter x
  | remove name =>
    rw [guests_of_joined (h.tell_remove n name).2.1]
    exact List.sublist_append_left ..
  | event | barrier | shutdown => exact List.sublist_append_left ..

theorem presented_enter (h : Hall) (x : Seat) :
    (h.enter x).room.presented = h.room.presented := by
  rw [room_enter]
  simp only [Room.register, Room.after]

theorem presented_tell (h : Hall) (l : Letter) :
    (h.tell l).room.presented = h.room.presented := by
  obtain ⟨n, body⟩ := l
  cases body with
  | register x =>
    rw [tell_register]
    exact (h.next _).presented_enter x
  | remove name =>
    obtain ⟨-, -, -, -, room⟩ := h.tell_remove n name
    rw [room]
    simp only [Room.remove, Room.after]
  | event | barrier | shutdown => rfl

end Hall
end WalletHub
