import WalletHub.Proofs.Hall

/-!
# Deliveries

In every run of a house, a listener that was let in is handed the events that the letters behind
its registration tell, up to its removal, as far as it wants them, each once and in their order.
What listeners fail at, who else is let in or turned away and who leaves does not come into it.
When a flush is answered, whatever came of the commands before it was handed to everybody.

* `Reachable.kept`: what holds of a house in every run.
* `delivered`: the deliveries.
-/
namespace WalletHub

namespace House

variable {s s' : House}

/-- Listeners that are yet to be let in or turned away. -/
def awaited (s : House) : List Seat :=
  s.founders ++ (s.unread.filterMap (·.body.seat?) ++ (s.queue.filterMap (·.seat?) ++ s.visitors))

/-- The numbers of all listeners that were let in, and of those on their way. -/
def serials (s : House) : List Nat := (s.hall.guests ++ s.awaited).map (·.serial)

/-- Every listener has a number of its own, the one that it was presented under. -/
structure Counted (s : House) : Prop where
  nodup : s.serials.Nodup
  below : ∀ n ∈ s.serials, n < s.hall.room.presented

theorem Counted.mono (hs : s.Counted)
    (seats : (s'.hall.guests ++ s'.awaited).Sublist (s.hall.guests ++ s.awaited))
    (presented : s'.hall.room.presented = s.hall.room.presented) : s'.Counted := by
  have serials : s'.serials.Sublist s.serials := seats.map _
  exact ⟨serials.nodup hs.nodup, fun n hn => presented ▸ hs.below n (serials.mem hn)⟩

theorem Counted.distinct (hs : s.Counted) : s.hall.Distinct := by
  have hguests : (s.hall.guests.map (·.serial)).Sublist s.serials :=
    (List.sublist_append_left ..).map _
  exact hguests.nodup hs.nodup

/-- Who is on its way has another number than those who are in. -/
theorem Counted.fresh (hs : s.Counted) {x : Seat} (hx : x ∈ s.awaited) :
    ∀ y ∈ s.hall.guests, y.serial ≠ x.serial := by
  intro y hy
  have hnodup := hs.nodup
  rw [serials, List.map_append, List.nodup_append] at hnodup
  exact hnodup.2.2 _ (List.mem_map_of_mem hy) _ (List.mem_map_of_mem hx)

/-- The listener among the letters of a turn. -/
theorem seats_turn (n : Nat) (es : List Event) (c : Command) :
    ((es.map Notification.event ++ c.letters).map (Letter.mk n)).filterMap (·.body.seat?) =
      c.seat?.toList := by
  have hevents : (es.map fun e => (⟨n, .event e⟩ : Letter)).filterMap (·.body.seat?) = [] := by
    refine List.filterMap_eq_nil_iff.2 fun l hl => ?_
    obtain ⟨e, -, rfl⟩ := List.mem_map.1 hl
    rfl
  have hletters : (c.letters.map (Letter.mk n)).filterMap (·.body.seat?) = c.seat?.toList := by
    cases c <;> rfl
  rw [List.map_append, List.map_map, List.filterMap_append, hletters]
  exact congrArg (· ++ c.seat?.toList) hevents

theorem Counted.take (hs : s.Counted) {c : Command} {rest : List Command}
    (queue : s.queue = c :: rest) : (s.take c rest).Counted := by
  obtain ⟨es, hmail, -⟩ := Hub.speaks_step s.hub c
  have same : (s.take c rest).awaited = s.awaited := by
    show s.founders ++ ((s.unread ++ (s.hub.step c).mail.map (Letter.mk _)).filterMap _ ++ _) = _
    rw [hmail, List.filterMap_append, seats_turn, awaited, queue, filterMap_cons_toList,
      List.append_assoc, List.append_assoc]
    rfl
  refine hs.mono ?_ rfl
  show (s.hall.guests ++ (s.take c rest).awaited).Sublist _
  rw [same]

theorem Counted.found (hs : s.Counted) {x : Seat} {rest : List Seat}
    (founders : s.founders = x :: rest) :
    ({ s with hall := s.hall.enter x, founders := rest } : House).Counted := by
  refine hs.mono ?_ (s.hall.presented_enter x)
  have hguests := (s.hall.guests_enter x).append (.refl
    (rest ++ (s.unread.filterMap (·.body.seat?) ++
      (s.queue.filterMap (·.seat?) ++ s.visitors))))
  simpa [awaited, founders] using hguests

theorem Counted.tell (hs : s.Counted) {l : Letter} {rest : List Letter}
    (founders : s.founders = []) (unread : s.unread = l :: rest) :
    ({ s with hall := s.hall.tell l, unread := rest } : House).Counted := by
  refine hs.mono ?_ (s.hall.presented_tell l)
  have hguests := (s.hall.guests_tell l).append (.refl
    (rest.filterMap (·.body.seat?) ++ (s.queue.filterMap (·.seat?) ++ s.visitors)))
  simpa [awaited, founders, unread, filterMap_cons_toList] using hguests

/-- A listener that is presented gets a number above all others. -/
theorem Counted.present (hs : s.Counted) (l : Listener) :
    ({ s with
      hall := { s.hall with room := (s.hall.room.present l).1 }
      visitors := s.visitors ++ [(s.hall.room.present l).2] } : House).Counted := by
  set s' : House := { s with
    hall := { s.hall with room := (s.hall.room.present l).1 }
    visitors := s.visitors ++ [(s.hall.room.present l).2] }
  have serials : s'.serials = s.serials ++ [s.hall.room.presented] := by
    simp [s', House.serials, awaited, Hall.guests, Room.present]
  refine ⟨?_, ?_⟩
  · rw [serials, List.nodup_append]
    refine ⟨hs.nodup, List.nodup_singleton _, fun n hn m hm => ?_⟩
    rw [List.mem_singleton.1 hm]
    exact Nat.ne_of_lt (hs.below n hn)
  · intro n hn
    show n < s.hall.room.presented + 1
    rw [serials, List.mem_append, List.mem_singleton] at hn
    rcases hn with hn | rfl
    · exact Nat.lt_succ_of_lt (hs.below n hn)
    · exact Nat.lt_succ_self _

theorem Counted.enlist (hs : s.Counted) {before after : List Seat} {x : Seat}
    (visitors : s.visitors = before ++ x :: after) :
    ({ s with
      queue := s.queue ++ [.register x]
      visitors := before ++ after } : House).Counted := by
  set s' : House := { s with queue := s.queue ++ [.register x], visitors := before ++ after }
  have awaited : s'.awaited.Perm s.awaited := by
    rw [House.awaited, House.awaited, visitors, List.filterMap_append, List.append_assoc]
    refine ((List.Perm.append_left _ ?_).append_left _).append_left _
    show (x :: (before ++ after)).Perm (before ++ x :: after)
    exact List.perm_middle.symm
  have serials : s'.serials.Perm s.serials := (awaited.append_left _).map _
  exact ⟨serials.nodup_iff.2 hs.nodup, fun n hn => hs.below n (serials.mem_iff.1 hn)⟩

theorem presentAll_spec (r : Room) (ls : List Listener) :
    (r.presentAll ls).2.map (·.serial) = List.range' r.presented ls.length ∧
      (r.presentAll ls).1.presented = r.presented + ls.length ∧
      (r.presentAll ls).1.audience = r.audience ∧ (r.presentAll ls).1.history = r.history := by
  induction ls generalizing r with
  | nil => exact ⟨rfl, rfl, rfl, rfl⟩
  | cons l ls ih =>
    obtain ⟨serials, presented, audience, history⟩ := ih (r.present l).1
    refine ⟨?_, ?_, audience, history⟩
    · rw [List.length_cons, List.range'_succ, Room.presentAll, List.map_cons, serials]
      rfl
    · rw [List.length_cons, Room.presentAll, presented]
      simp only [Room.present]
      omega

/-! ## Runs -/

/-- What holds of a house in every run. -/
structure Kept (s : House) : Prop where
  counted : s.Counted
  seated : s.hall.Seated
  served : s.hall.Served
  flushes : s.hall.Flushes
  /-- Who is there from the start is registered before anything is read. -/
  starting : s.founders ≠ [] → s.hall.read = []
  /-- Nothing is left when the listeners are let go. -/
  ended : s.hall.dismissed = true → s.unread = [] ∧ s.life ≠ .running ∧ s.hall.serving = none

theorem Kept.idle (hs : s.Kept) (founders : s.founders ≠ []) : s.hall.serving = none := by
  cases hv : s.hall.serving with
  | none => rfl
  | some v => exact absurd (hs.starting founders) (hs.served.turns v.1 v.2 hv).2

theorem kept_opened (strict hasClient : Bool) (utxo account : Option Engine)
    (limit : Option Nat) (listeners : List Listener) :
    (opened strict hasClient utxo account limit listeners).Kept := by
  obtain ⟨serials, presented, audience, history⟩ := presentAll_spec (Room.empty limit) listeners
  set s := opened strict hasClient utxo account limit listeners with hs
  have numbers : s.serials = List.range' 0 listeners.length := by
    rw [← show (Room.empty limit).presented = 0 from rfl, ← serials]
    simp [hs, House.serials, awaited, opened, Hall.guests]
  have seats : s.hall.seats = [] := congrArg Audience.seats audience
  have nothing : s.hall.room.history = [] := history
  have nobody : ∀ x i, (x, i) ∉ s.hall.joined := fun _ _ => List.not_mem_nil
  refine ⟨⟨?_, ?_⟩,
    ⟨?_, ?_, fun x i hx => absurd hx (nobody x i), fun _ x i hx => absurd hx (nobody x i)⟩,
    .of_idle rfl (fun x i hx => absurd hx (nobody x i)) ?_,
    fun n p hp => absurd hp List.not_mem_nil, fun _ => rfl, fun gone => ?_⟩
  · rw [numbers]
    exact List.nodup_range'
  · intro n hn
    rw [numbers, List.mem_range'_1] at hn
    exact presented ▸ hn.2
  · rw [seats]
    exact List.nil_sublist _
  · rw [seats]
    exact List.nodup_nil
  · intro x e he
    rw [nothing] at he
    cases he
  · cases gone

theorem mem_awaited_founder {x : Seat} {rest : List Seat} (founders : s.founders = x :: rest) :
    x ∈ s.awaited := by
  rw [awaited, founders]
  exact List.mem_append_left _ List.mem_cons_self

theorem mem_awaited_letter {x : Seat} {l : Letter} {rest : List Letter}
    (unread : s.unread = l :: rest) (hx : l.body.seat? = some x) : x ∈ s.awaited := by
  refine List.mem_append_right _ (List.mem_append_left _ ?_)
  rw [unread, filterMap_cons_toList, hx]
  exact List.mem_append_left _ List.mem_cons_self

/-- Nothing but the last letter of all lets the listeners go. -/
theorem dismissed_tell {h : Hall} {l : Letter} (staying : h.dismissed = false)
    (gone : (h.tell l).dismissed = true) :
    l.body = .shutdown ∧ (h.tell l).serving = h.serving := by
  have still (h : Hall) : h.dismissed = true → h.dismissed = false → False := by simp
  obtain ⟨n, body⟩ := l
  cases body with
  | shutdown => exact ⟨rfl, rfl⟩
  | register x =>
    rw [Hall.tell_register, Hall.dismissed_enter] at gone
    exact absurd staying (still _ gone)
  | remove name =>
    rw [(h.tell_remove n name).2.2.2.1] at gone
    exact absurd staying (still _ gone)
  | event | barrier => exact absurd staying (still _ gone)

/-- A listener that is there from the start is registered. -/
theorem Kept.found (hs : s.Kept) {x : Seat} {rest : List Seat} (founders : s.founders = x :: rest) :
    ({ s with hall := s.hall.enter x, founders := rest } : House).Kept := by
  have hne : s.founders ≠ [] := by simp [founders]
  have fresh := hs.counted.fresh (mem_awaited_founder founders)
  have seated := hs.seated.enter fresh (.inl (by rw [hs.starting hne]; rfl))
  have served := hs.served.enter (hs.idle hne) fresh
  refine ⟨hs.counted.found founders, seated, served, hs.flushes.enter x,
    fun _ => (Hall.read_enter s.hall x).trans (hs.starting hne), fun gone => ?_⟩
  rw [Hall.dismissed_enter s.hall x] at gone
  rw [Hall.serving_enter s.hall x]
  exact hs.ended gone

/-- A letter is read. -/
theorem Kept.tell (hs : s.Kept) (posted : s.Posted) {l : Letter} {rest : List Letter}
    (founders : s.founders = []) (idle : s.hall.serving = none)
    (staying : s.hall.dismissed = false) (unread : s.unread = l :: rest) :
    ({ s with hall := s.hall.tell l, unread := rest } : House).Kept := by
  have fresh : ∀ x, l.body.seat? = some x → ∀ y ∈ s.hall.guests, y.serial ≠ x.serial :=
    fun x hx => hs.counted.fresh (mem_awaited_letter unread hx)
  refine ⟨hs.counted.tell founders unread, hs.seated.tell l fresh,
    hs.served.tell hs.seated hs.counted.distinct idle staying l fresh, hs.flushes.tell idle l,
    fun hne => absurd founders hne, fun gone => ?_⟩
  obtain ⟨hbody, serving⟩ := dismissed_tell staying gone
  obtain ⟨rfl, stopped⟩ := posted.ends unread hbody
  exact ⟨rfl, stopped, serving.trans idle⟩

/-- One listener has its turn. -/
theorem Kept.offer (hs : s.Kept) {e : Event} {x : Seat} {rest : List Seat}
    (serving : s.hall.serving = some (e, x :: rest)) :
    ({ s with hall := s.hall.offer e x rest } : House).Kept := by
  have seats : (s.hall.offer e x rest).seats = s.hall.seats := s.hall.room.offer_seats x e
  have settled : s.hall.settled <+: (s.hall.offer e x rest).settled := by
    rw [Hall.settled, Hall.settled, serving, Hall.offer]
  refine ⟨hs.counted.mono (.refl _) ?_,
    hs.seated.of_same (by simp only [Hall.offer]) (by simp only [Hall.offer]) seats
      (by simp only [Hall.offer]),
    hs.served.offer hs.counted.distinct serving,
    hs.flushes.mono (by simp only [Hall.offer]) settled, hs.starting, fun gone => ?_⟩
  · simp only [Hall.offer, Room.offer, Room.after]
  · have hv := (hs.ended gone).2.2
    rw [serving] at hv
    cases hv

/-- **Runs.** Whatever steps a house takes, the hall does with its letters what it should. -/
theorem Reachable.kept (hs : s.Reachable) : s.Kept := by
  induction hs with
  | opened strict hasClient utxo account limit ls => exact kept_opened ..
  | @step s s' hs hstep ih =>
    have counted := ih.counted
    have heard := ih.served
    cases hstep with
    | arrive c plain =>
      refine ⟨counted.mono ?_ rfl, ih.seated, ih.served, ih.flushes, ih.starting, ih.ended⟩
      have same : (s.queue ++ [c]).filterMap (·.seat?) = s.queue.filterMap (·.seat?) := by
        rw [List.filterMap_append, List.filterMap_cons, plain, List.filterMap_nil, List.append_nil]
      simp only [awaited, same]
      exact .refl _
    | present l =>
      -- being presented changes nothing of who is there and what was heard
      exact ⟨counted.present l, ih.seated.of_same rfl rfl rfl rfl,
        ⟨heard.heard, heard.settled, heard.guests, heard.turns⟩, ih.flushes, ih.starting, ih.ended⟩
    | enlist visitors =>
      exact ⟨counted.enlist visitors, ih.seated, ih.served, ih.flushes, ih.starting, ih.ended⟩
    | begin silent =>
      refine ⟨counted.mono ?_ rfl, ih.seated, ih.served, ih.flushes, ih.starting, fun gone => ?_⟩
      · have start : (s.hub.start.2.map (Letter.mk 0)).filterMap (·.body.seat?) = [] := rfl
        simp only [awaited, begin, List.filterMap_append, start, List.append_nil]
        exact .refl _
      · exact absurd (hs.posted.silent silent).2 (ih.ended gone).2.1
    | take queue begun running =>
      refine ⟨counted.take queue, ih.seated, ih.served, ih.flushes, ih.starting, fun gone => ?_⟩
      exact absurd running (ih.ended gone).2.1
    | found founders => exact ih.found founders
    | tell founders idle staying unread => exact ih.tell hs.posted founders idle staying unread
    | offer serving => exact ih.offer serving
    | served serving =>
      refine ⟨counted.mono (.refl _) rfl, ih.seated.of_same rfl rfl rfl rfl,
        heard.served serving, ih.flushes.mono rfl s.hall.settled_prefix, ih.starting,
        fun gone => ?_⟩
      exact ⟨(ih.ended gone).1, (ih.ended gone).2.1, rfl⟩
    | leave founders idle unread stopped =>
      exact ⟨counted.mono (.refl _) rfl, ih.seated.dismiss, heard.dismiss idle,
        ih.flushes.mono rfl (List.prefix_refl _), ih.starting, fun _ => ⟨unread, stopped, idle⟩⟩
    | setting | clock =>
      exact ⟨counted.mono (.refl _) rfl, ih.seated, heard, ih.flushes, ih.starting, ih.ended⟩
    | clear name =>
      exact ⟨counted.mono (.refl _) rfl, ih.seated.of_same rfl rfl rfl rfl,
        ⟨heard.heard, heard.settled, heard.guests, heard.turns⟩, ih.flushes, ih.starting, ih.ended⟩

/-! ## What is delivered -/

/-- What a listener is handed that was let in when `i` letters had been read. -/
structure Delivers (s : House) (x : Seat) (i : Nat) : Prop where
  /-- Its letters begin with the first one of all, or behind its own registration. -/
  place : i ≤ s.hall.read.length ∧ (i = 0 ∨ ∃ n, s.mail[i - 1]? = some ⟨n, .register x⟩)
  handed : s.hall.heard x ++ s.hall.coming x = x.hears (s.hall.read.drop i)
  /-- At the end it was handed whatever was told. -/
  ended : s.hall.dismissed = true → s.hall.heard x = x.hears (s.mail.drop i)
  increasing : ((s.hall.heard x).map (·.sequence)).Pairwise (· < ·)
  /-- A listener that wants everything misses nothing since it was let in. -/
  gapless : (∀ e, x.listener.wants e = true) → (s.hall.heard x).map (·.sequence) =
    List.range' ((Letter.events (s.mail.take i)).length + 1) (s.hall.heard x).length

/-- What it means that the flush with number `n` among the commands is answered when `p` letters had
been read. -/
structure Flushed (s : House) (n p : Nat) : Prop where
  command : 0 < n ∧ s.taken[n - 1]? = some .flush
  /-- Whatever was or will be told of commands before it stands among these letters. -/
  before : ∀ j l, s.mail[j]? = some l → l.origin < n → j < p
  /-- They are done with: all have been handed what they are to hear of them. -/
  handed : ∀ x i, (x, i) ∈ s.hall.joined → x.hears ((s.mail.take p).drop i) <+: s.hall.heard x

/-- Events that stand in a row have their numbers in a row. -/
theorem Posted.row (hs : s.Posted) {before es after : List Event}
    (hevents : Letter.events s.mail = before ++ (es ++ after)) :
    es.map (·.sequence) = List.range' (before.length + 1) es.length := by
  have hseq := hs.sequences
  rw [hevents, List.map_append, List.map_append, List.length_append, List.length_append,
    ← List.range'_append_1, ← List.range'_append_1] at hseq
  have hrest := (List.append_inj hseq (by simp)).2
  rw [Nat.add_comm]
  exact (List.append_inj hrest (by simp)).1

/-- What a listener is to hear stands in a row of events, if it wants all of them. -/
theorem hears_of_wants {x : Seat} (wants : ∀ e, x.listener.wants e = true) (ls : List Letter) :
    x.hears ls ++ Letter.events (ls.dropWhile (!·.removes x)) = Letter.events ls := by
  rw [Seat.hears, List.filter_eq_self.2 fun e _ => wants e, ← events_append,
    List.takeWhile_append_dropWhile]

theorem hears_sublist (x : Seat) (ls : List Letter) : (x.hears ls).Sublist (Letter.events ls) :=
  List.filter_sublist.trans ((List.takeWhile_prefix _).sublist.filterMap _)

theorem Reachable.delivers (hs : s.Reachable) {x : Seat} {i : Nat} (hx : (x, i) ∈ s.hall.joined) :
    s.Delivers x i := by
  have kept := hs.kept
  have posted := hs.posted
  have handed := kept.served.heard x i hx
  obtain ⟨hi, hplace⟩ := kept.seated.place x i hx
  have place : i = 0 ∨ ∃ n, s.mail[i - 1]? = some ⟨n, .register x⟩ :=
    hplace.imp_right fun ⟨n, hn⟩ => ⟨n, Hall.getElem?_of_prefix (List.prefix_append ..) hn⟩
  refine ⟨⟨hi, place⟩, handed, fun gone => ?_, ?_, fun wants => ?_⟩
  · obtain ⟨unread, -, idle⟩ := kept.ended gone
    rw [mail, unread, List.append_nil]
    exact kept.served.heard_of_idle idle hx
  · have hsub : (s.hall.heard x).Sublist (Letter.events s.mail) := by
      refine (List.sublist_append_left _ (s.hall.coming x)).trans ?_
      rw [handed]
      refine (hears_sublist x _).trans (List.Sublist.filterMap _ ?_)
      exact (List.drop_sublist ..).trans (List.sublist_append_left ..)
    refine List.Pairwise.sublist (hsub.map _) ?_
    rw [posted.sequences]
    exact List.pairwise_lt_range'
  · have first : s.mail.take i = s.hall.read.take i := List.take_append_of_le_length hi
    have hrow := hears_of_wants wants (s.hall.read.drop i)
    rw [← handed] at hrow
    have hevents : Letter.events s.mail = Letter.events (s.mail.take i) ++ (s.hall.heard x ++
        (s.hall.coming x ++ (Letter.events ((s.hall.read.drop i).dropWhile (!·.removes x)) ++
          Letter.events s.unread))) :=
      calc Letter.events s.mail
        _ = Letter.events (s.hall.read.take i ++ s.hall.read.drop i ++ s.unread) := by
            rw [List.take_append_drop, mail]
        _ = _ := by
            rw [events_append, events_append, ← hrow, first]
            simp only [List.append_assoc]
    exact posted.row hevents

theorem Reachable.flushed (hs : s.Reachable) {n p : Nat} (hp : (n, p) ∈ s.hall.flushed) :
    s.Flushed n p := by
  have kept := hs.kept
  have posted := hs.posted
  obtain ⟨hpos, hsettled⟩ := kept.flushes n p hp
  have hread := Hall.getElem?_of_prefix s.hall.settled_prefix hsettled
  have hmail : s.mail[p - 1]? = some ⟨n, .barrier⟩ :=
    Hall.getElem?_of_prefix (List.prefix_append ..) hread
  refine ⟨posted.barrier _ (List.mem_of_getElem? hmail) rfl, fun j l hl horigin => ?_,
    fun x i hx => ?_⟩
  · -- letters stand in the order of their commands
    by_contra hj
    obtain ⟨hp', hpget⟩ := List.getElem?_eq_some_iff.1 hmail
    obtain ⟨hj', hjget⟩ := List.getElem?_eq_some_iff.1 hl
    have hle := List.pairwise_iff_getElem.1 posted.ordered (p - 1) j (by simpa using hp')
      (by simpa using hj') (by omega)
    simp only [List.getElem_map, hpget, hjget] at hle
    omega
  · have hlength : p ≤ s.hall.settled.length := by
      have := (List.getElem?_eq_some_iff.1 hsettled).1
      omega
    have first : s.mail.take p = s.hall.settled.take p := by
      obtain ⟨rest, hrest⟩ := s.hall.settled_prefix
      rw [mail, ← hrest, List.append_assoc, List.take_append_of_le_length hlength]
    rw [first]
    refine List.IsPrefix.trans (Seat.hears_prefix ?_) (kept.served.settled x i hx)
    exact (List.take_prefix ..).drop i

/-- Whatever is heard under a number is heard in the order of events. -/
theorem Reachable.heard_increasing (hs : s.Reachable) (serial : Nat) :
    ((s.hall.room.history.filterMap (·.heardBy? serial)).map (·.sequence)).Pairwise (· < ·) := by
  by_cases hx : ∃ x ∈ s.hall.guests, x.serial = serial
  · obtain ⟨x, hx, rfl⟩ := hx
    obtain ⟨⟨x, i⟩, joined, rfl⟩ := List.mem_map.1 hx
    exact (hs.delivers joined).increasing
  · rw [hs.kept.served.heard_nil fun y hy he => hx ⟨y, hy, he⟩]
    exact .nil

/-- **Deliveries.** In every run, whoever was let in is handed what it is to hear, nobody else is
handed anything, and an answered flush says that all that was told before it was handed out. -/
theorem delivered (hs : s.Reachable) :
    s.Posted ∧ s.hall.Distinct ∧
    (∀ x i, (x, i) ∈ s.hall.joined → s.Delivers x i) ∧
    (∀ x e, .heard x e ∈ s.hall.room.history → ∃ i, (x, i) ∈ s.hall.joined) ∧
    ∀ n p, (n, p) ∈ s.hall.flushed → s.Flushed n p := by
  refine ⟨hs.posted, hs.kept.counted.distinct, fun x i => hs.delivers, fun x e he => ?_,
    fun n p => hs.flushed⟩
  obtain ⟨⟨y, i⟩, hy, rfl⟩ := List.mem_map.1 (hs.kept.served.guests x e he)
  exact ⟨i, hy⟩

/-! ## A house where listeners come and go -/

/-- A command is sent to the hub. -/
def send (s : House) (c : Command) : House := { s with queue := s.queue ++ [c] }

/-- A listener is presented and sent to the hub. -/
def bring (s : House) (l : Listener) : House :=
  { s with
    hall := { s.hall with room := (s.hall.room.present l).1 }
    queue := s.queue ++ [.register (s.hall.room.present l).2] }

/-- The hub announces itself, or takes what is first in the queue, if it takes anything. -/
def hubTurn (s : House) : House :=
  match s.begun, s.queue with
  | false, _ => s.begin
  | true, [] => s
  | true, c :: rest => if s.life = .running then s.take c rest else s

/-- The hall does what is to be done next, if it is a letter or an event. -/
def hallTurn (s : House) : House :=
  match s.founders, s.hall.serving, s.unread with
  | x :: rest, _, _ => { s with hall := s.hall.enter x, founders := rest }
  | [], some (e, x :: rest), _ => { s with hall := s.hall.offer e x rest }
  | [], some (_, []), _ => { s with hall := { s.hall with serving := none } }
  | [], none, l :: rest =>
    if s.hall.dismissed then s else { s with hall := s.hall.tell l, unread := rest }
  | [], none, [] => s

theorem Reachable.send (hs : s.Reachable) {c : Command} (plain : c.seat? = none) :
    (s.send c).Reachable := hs.step (.arrive c plain)

theorem Reachable.bring (hs : s.Reachable) (l : Listener) : (s.bring l).Reachable := by
  have hsent := (hs.step (.present l)).step (.enlist rfl)
  simp only [List.append_nil] at hsent
  exact hsent

theorem Reachable.hubTurn (hs : s.Reachable) : s.hubTurn.Reachable := by
  unfold House.hubTurn
  split
  · rename_i silent; exact hs.step (.begin silent)
  · exact hs
  · rename_i begun queue
    split
    · rename_i running; exact hs.step (.take queue begun running)
    · exact hs

theorem Reachable.hallTurn (hs : s.Reachable) : s.hallTurn.Reachable := by
  unfold House.hallTurn
  split
  · rename_i founders; exact hs.step (.found founders)
  · rename_i serving; exact hs.step (.offer serving)
  · rename_i serving; exact hs.step (.served serving)
  · rename_i founders serving unread
    split
    · exact hs
    · rename_i staying
      exact hs.step (.tell founders serving (Bool.eq_false_iff.2 staying) unread)
  · exact hs

theorem Reachable.turns (hs : s.Reachable) (f : House → House)
    (hf : ∀ {s : House}, s.Reachable → (f s).Reachable) (n : Nat) : (f^[n] s).Reachable := by
  induction n generalizing s with
  | zero => exact hs
  | succ n ih => exact ih (hf hs)

/-- A listener that wants everything and fails at all of it. -/
def clumsy : Listener := ⟨"clumsy", .custom (fun _ => true) (fun _ => true) none⟩

/-- A listener that wants every other event. -/
def choosy : Listener := ⟨"choosy", .custom (fun e => e.sequence % 2 == 0) (fun _ => false) none⟩

/-- One listener is there from the start and is removed. Another one comes when a manager is there,
and a third one has the name of the first and is turned away. -/
def visited : House :=
  let s := (((((((opened true false none (some (.create .account false)) none [clumsy]).send
    (.request (.createManager ⟨⟨"dave", 0⟩, .ethereum true, .apiOnly, "/tmp/dave"⟩))).bring
    choosy).bring clumsy).send (.remove "clumsy")).send
    (.callback .account (.manager 0x2000 .connected))).send .flush).send .shutdown
  hallTurn^[60] (hubTurn^[9] s)

theorem reachable_visited : visited.Reachable := by
  refine Reachable.turns (.turns ?_ hubTurn (fun h => h.hubTurn) 9) hallTurn
    (fun h => h.hallTurn) 60
  exact (((((((Reachable.opened ..).send (by rfl)).bring _).bring _).send (by rfl)).send
    (by rfl)).send (by rfl)).send (by rfl)

/-- The first listener is handed what came before its removal, though it fails at it; the second one
what it wants of the events behind its registration. -/
theorem delivered_visited :
    (∀ x i, (x, i) ∈ visited.hall.joined → visited.Delivers x i) ∧
      visited.hall.joined.map
        (fun g => (g.1.listener.name, g.2, (visited.hall.heard g.1).map (·.sequence))) =
          [("clumsy", 0, [1, 2, 3, 4, 5]), ("choosy", 6, [6, 8, 10, 12])] ∧
      visited.hall.flushed = [(6, 10)] ∧ visited.hall.dismissed = true :=
  ⟨(delivered reachable_visited).2.2.1, by decide +kernel, by decide +kernel, by decide +kernel⟩

end House
end WalletHub
