import WalletHub.Proofs.Conduct
import WalletHub.Proofs.Delivery

/-!
# Accounts

The hub counts the commands it handles, the callbacks and requests among them, and the callbacks it
drops, under one kind each (`Counters.Reads`); a command is one that it took from the queue or a
callback that an engine raised meanwhile (`Hub.handled`). A command in the middle of which the hub
halts is not carried through and not counted. The audience counts the events it is told of on its
own side, also by type, and once a flush is answered and nothing came after it both sides agree.

* `process_counters`: what one command adds to the counters.
* `Reachable.tallied`: the audience counts the events that were read to it.
* `accounting`: accounts in a run.
-/
namespace WalletHub

/-! ## Counters of the hub -/

def Command.isCallback : Command → Bool
  | .callback .. => true
  | _ => false

def Command.isRequest : Command → Bool
  | .request _ => true
  | _ => false

namespace Counters

/-- The counters that tell of commands and of callbacks that were dropped are the same. -/
structure Steady (a b : Counters) : Prop where
  commands : b.commands = a.commands
  callbacks : b.callbacks = a.callbacks
  requests : b.requests = a.requests
  dropped : b.dropped = a.dropped
  kinds : b.droppedByKind = a.droppedByKind

/-- At most one callback more was dropped, under some kind. -/
def Drops (a b : Counters) : Prop := a.Steady b ∨ ∃ kind, (a.drop kind).Steady b

/-- The counters with one more command. -/
def handle (c : Counters) (x : Command) : Counters :=
  { c with
    commands := c.commands + 1
    callbacks := c.callbacks + if x.isCallback then 1 else 0
    requests := c.requests + if x.isRequest then 1 else 0 }

/-- What a command that is carried through adds: itself, and a drop at most if it is a callback. -/
def Took (x : Command) (a b : Counters) : Prop :=
  (a.handle x).Steady b ∨ x.isCallback ∧ ∃ kind, ((a.handle x).drop kind).Steady b

variable {a b c : Counters}

theorem Steady.refl (a : Counters) : a.Steady a := ⟨rfl, rfl, rfl, rfl, rfl⟩

theorem Steady.trans (hab : a.Steady b) (hbc : b.Steady c) : a.Steady c :=
  ⟨hbc.commands.trans hab.commands, hbc.callbacks.trans hab.callbacks,
    hbc.requests.trans hab.requests, hbc.dropped.trans hab.dropped, hbc.kinds.trans hab.kinds⟩

theorem Steady.drop (hab : a.Steady b) (kind : String) : (a.drop kind).Steady (b.drop kind) :=
  ⟨hab.commands, hab.callbacks, hab.requests, congrArg (· + 1) hab.dropped,
    congrArg (·.bump kind) hab.kinds⟩

theorem drops_discard (a : Counters) (e : HubError) : a.Drops (a.discard e) := by
  cases e with
  | resolution e => exact .inr ⟨e.bucket, .refl _⟩
  | _ => exact .inl ⟨rfl, rfl, rfl, rfl, rfl⟩

theorem Drops.of_steady (hab : a.Steady b) (hbc : b.Drops c) : a.Drops c :=
  hbc.imp hab.trans fun ⟨kind, hd⟩ => ⟨kind, (hab.drop kind).trans hd⟩

theorem Drops.steady (hab : a.Drops b) (hbc : b.Steady c) : a.Drops c :=
  hab.imp (·.trans hbc) fun ⟨kind, hd⟩ => ⟨kind, hd.trans hbc⟩

/-- What the counters say once all of `done` was carried through, and nothing else. -/
structure Reads (k : Counters) (done : List Command) : Prop where
  commands : k.commands = done.length
  callbacks : k.callbacks = done.countP Command.isCallback
  requests : k.requests = done.countP Command.isRequest
  total : k.dropped = k.droppedByKind.total
  bound : k.dropped ≤ k.callbacks

variable {done : List Command} {x : Command}

theorem Reads.steady (ha : a.Reads done) (hab : a.Steady b) : b.Reads done :=
  ⟨hab.commands.trans ha.commands, hab.callbacks.trans ha.callbacks, hab.requests.trans ha.requests,
    by rw [hab.dropped, hab.kinds, ha.total], by rw [hab.dropped, hab.callbacks]; exact ha.bound⟩

theorem Reads.handle (ha : a.Reads done) (x : Command) : (a.handle x).Reads (done ++ [x]) := by
  refine ⟨?_, ?_, ?_, ha.total, Nat.le_add_right_of_le ha.bound⟩
  · rw [List.length_append, ← ha.commands]; rfl
  · rw [List.countP_append, List.countP_singleton, ← ha.callbacks]; rfl
  · rw [List.countP_append, List.countP_singleton, ← ha.requests]; rfl

theorem Reads.took (ha : a.Reads done) (hab : a.Took x b) : b.Reads (done ++ [x]) := by
  rcases hab with steady | ⟨callback, kind, steady⟩
  · exact (ha.handle x).steady steady
  · have handled := ha.handle x
    have dropped : ((a.handle x).drop kind).Reads (done ++ [x]) := by
      refine ⟨handled.commands, handled.callbacks, handled.requests, ?_, ?_⟩
      · exact (congrArg (· + 1) handled.total).trans (Table.total_bump ..).symm
      · have bound := ha.bound
        simp only [drop, Counters.handle, callback, if_true]
        omega
    exact dropped.steady steady

/-- No command is a callback and a request. -/
theorem countP_callbacks_requests (cs : List Command) :
    cs.countP Command.isCallback + cs.countP Command.isRequest ≤ cs.length := by
  induction cs with
  | nil => exact Nat.le_refl 0
  | cons c cs ih =>
    cases c <;> simp [List.countP_cons, Command.isCallback, Command.isRequest] <;> omega

end Counters

/-! ## Commands -/

/-- The callbacks, of those that engines raised, that a turn goes on with. -/
def Turn.followed (t : Turn) : List (Backend × EngineCallback) → List Command
  | [] => []
  | c :: cs =>
    match t.life with
    | .running => .callback c.1 c.2 :: (t.follow c).followed cs
    | _ => []

/-- What a hub handles when it takes a command: the command, and the callbacks that engines raise
meanwhile. -/
def Hub.handled (h : Hub) (c : Command) : List Command :=
  c :: Turn.followed { h.process c with raised := [] } (h.process c).raised

/-- The commands that were carried through: all but the one in the middle of which the hub
halted. -/
def Life.carried (l : Life) (cs : List Command) : List Command :=
  if l = .halted then cs.dropLast else cs

namespace Hub

open Handling

variable {h : Hub}

/-- A turn of `h` that carries its command through and counts it, or halts and counts nothing. -/
def Counts (h : Hub) (x : Command) (t : Turn) : Prop :=
  t.life = .halted ∧ t.hub.counters = h.counters ∨
    t.life ≠ .halted ∧ h.counters.Took x t.hub.counters

/-- Events are counted apart. -/
theorem steady_conclude (r : Handling) (a : Option (Except HubError Answer)) :
    r.hub.counters.Steady (conclude r a).hub.counters := ⟨rfl, rfl, rfl, rfl, rfl⟩

theorem steady_announceResult (h : Hub) (b : Backend) (e : Engine) (m : UInt64) (id : RequestId)
    (q : QueryRequest) (r : QueryResult) :
    h.counters.Steady (h.announceResult b e m id q r).counters := by
  unfold announceResult
  cases r <;> cases b <;> exact ⟨rfl, rfl, rfl, rfl, rfl⟩

/-- A query that leads nowhere is dropped, and does not fail; nothing else is counted before it is
known how the callback ends. -/
theorem counters_onCallback (h : Hub) (b : Backend) (c : EngineCallback) :
    h.counters.Steady (h.onCallback b c).hub.counters ∨
      (h.onCallback b c).result = .ok .done ∧
        h.counters.Drops (h.onCallback b c).hub.counters := by
  cases plain : c.isQuery with
  | false =>
    refine .inl ?_
    rw [onCallback_eq plain, toManager]
    split <;> exact ⟨rfl, rfl, rfl, rfl, rfl⟩
  | true =>
    cases c with
    | queryRequested m id q =>
      refine .inr ⟨(silent_onQuery h b m id q).2.2, ?_⟩
      simp only [onCallback, onQuery]
      split
      · exact .inr ⟨"missing_engine", .refl _⟩
      · split
        · exact .inr ⟨(ResolutionError.unknownManager ⟨b, m⟩).bucket, steady_announceResult
            (h.count (·.drop (ResolutionError.unknownManager ⟨b, m⟩).bucket)) ..⟩
        · split
          · exact .inl ⟨rfl, rfl, rfl, rfl, rfl⟩
          · exact .inl (steady_announceResult h ..)
    | _ => cases plain

theorem counts_callback (h : Hub) (b : Backend) (c : EngineCallback) :
    h.Counts (.callback b c) (h.process (.callback b c)) := by
  suffices drops : (concludeCallback h ((h.count .callback).onCallback b c)).life = .halted ∧
      (concludeCallback h ((h.count .callback).onCallback b c)).hub.counters = h.counters ∨
      (concludeCallback h ((h.count .callback).onCallback b c)).life ≠ .halted ∧
        h.counters.callback.Drops
          (concludeCallback h ((h.count .callback).onCallback b c)).hub.counters by
    exact drops.imp_right fun ended => ⟨ended.1, ended.2.imp_right fun drop => ⟨rfl, drop⟩⟩
  have handled := counters_onCallback (h.count .callback) b c
  generalize (h.count .callback).onCallback b c = r at handled
  unfold concludeCallback
  split
  · have drops : h.counters.callback.Drops r.hub.counters := handled.elim .inl (·.2)
    exact .inr ⟨by simp [conclude], drops.steady (steady_conclude r none)⟩
  · rename_i f hr
    have steady : h.counters.callback.Steady r.hub.counters :=
      handled.resolve_right fun dropped => by
        have done := dropped.1
        rw [hr] at done
        cases done
    split
    · exact .inl ⟨rfl, rfl⟩
    · split
      · rename_i e _
        have drops : h.counters.callback.Drops (r.hub.counters.discard e) :=
          .of_steady steady (Counters.drops_discard _ e)
        exact .inr ⟨by simp [conclude], drops.steady
          (steady_conclude { r with hub := r.hub.count (·.discard e) } none)⟩
      · exact .inr ⟨by simp [conclude], .inl (steady.trans (steady_conclude r none))⟩

theorem counts_request (hs : h.tree.Sound) (q : Request) :
    h.Counts (.request q) (h.process (.request q)) := by
  suffices steady : (concludeRequest h ((h.count .request).onRequest q)).life = .halted ∧
      (concludeRequest h ((h.count .request).onRequest q)).hub.counters = h.counters ∨
      (concludeRequest h ((h.count .request).onRequest q)).life ≠ .halted ∧
        h.counters.request.Steady
          (concludeRequest h ((h.count .request).onRequest q)).hub.counters by
    exact steady.imp_right fun ⟨life, steady⟩ => ⟨life, .inl steady⟩
  have conduct : Hub.Conduct _ _ _ := conduct_onRequest (h := h.count .request) hs q
  generalize (h.count .request).onRequest q = r at conduct
  have steady : h.counters.request.Steady r.hub.counters := by
    generalize r.hub = g at conduct
    generalize r.notices = ns at conduct
    cases conduct <;> exact ⟨rfl, rfl, rfl, rfl, rfl⟩
  have concluded (a : Option (Except HubError Answer)) :
      h.counters.request.Steady (conclude r a).hub.counters := steady.trans (steady_conclude r a)
  unfold concludeRequest
  split
  · exact .inr ⟨by simp [conclude], concluded _⟩
  · split
    · exact .inl ⟨rfl, rfl⟩
    · split
      · exact .inr ⟨by simp [conclude], concluded _⟩
      · refine .inr ⟨by simp [conclude], ?_⟩
        exact steady.trans ⟨rfl, rfl, rfl, rfl, rfl⟩
      · exact .inr ⟨by simp [conclude], concluded _⟩

theorem counters_teardown (h : Hub) : h.teardown.1.counters = h.counters := by
  have row (ms : List (ManagerHandle × Manager)) (g : Hub) :
      (ms.foldl (fun g m => g.release m.1) g).counters = g.counters := by
    induction ms generalizing g with
    | nil => rfl
    | cons m ms ih =>
      rw [List.foldl_cons, ih]
      unfold release
      split
      · exact counters_withEngine ..
      · rfl
  exact row h.tree.managers.drain.2 h

/-- **Commands.** A command that is carried through is counted once, as what it is, and drops one
callback at most, if it is one. -/
theorem process_counters (hs : h.tree.Sound) (x : Command) : h.Counts x (h.process x) := by
  cases x with
  | callback b c => exact counts_callback h b c
  | request q => exact counts_request hs q
  | answered q r =>
    refine .inr ⟨by simp [process], .inl ?_⟩
    simp only [process, onAnswered]
    split
    · exact steady_announceResult (h.count fun c => { c with commands := c.commands + 1 }) ..
    · exact ⟨rfl, rfl, rfl, rfl, rfl⟩
  | register | remove | flush =>
    exact .inr ⟨by simp [process, tell], .inl ⟨rfl, rfl, rfl, rfl, rfl⟩⟩
  | shutdown =>
    refine .inr ⟨by simp [process], .inl ?_⟩
    have same := counters_teardown (h.count fun c => { c with commands := c.commands + 1 })
    have steady : (h.counters.handle .shutdown).Steady
        (h.count fun c => { c with commands := c.commands + 1 }).teardown.1.counters :=
      same ▸ ⟨rfl, rfl, rfl, rfl, rfl⟩
    exact steady.trans ⟨rfl, rfl, rfl, rfl, rfl⟩

/-- A callback drops at most one. -/
theorem dropped_callback (h : Hub) (b : Backend) (c : EngineCallback) :
    (h.process (.callback b c)).hub.counters.dropped ≤ h.counters.dropped + 1 := by
  rcases counts_callback h b c with ⟨-, same⟩ | ⟨-, steady | ⟨-, kind, steady⟩⟩
  · rw [same]
    exact Nat.le_succ _
  · rw [steady.dropped]
    exact Nat.le_succ _
  · exact Nat.le_of_eq steady.dropped

theorem process_reads {done : List Command} (hs : h.tree.Sound) (hr : h.counters.Reads done)
    (x : Command) :
    (h.process x).hub.counters.Reads ((h.process x).life.carried (done ++ [x])) := by
  rcases process_counters hs x with ⟨halted, same⟩ | ⟨onward, took⟩
  · rw [Life.carried, if_pos halted, List.dropLast_concat, same]
    exact hr
  · rw [Life.carried, if_neg onward]
    exact hr.took took

end Hub

/-- A hub that is gone takes no more callbacks. -/
theorem Turn.followed_stopped {t : Turn} (stopped : t.life ≠ .running)
    (cs : List (Backend × EngineCallback)) : t.followed cs = [] ∧ cs.foldl Turn.follow t = t := by
  induction cs with
  | nil => exact ⟨rfl, rfl⟩
  | cons c cs ih =>
    have same : t.follow c = t := by
      unfold Turn.follow
      split
      · rename_i running; exact absurd running stopped
      · rfl
    refine ⟨?_, by rw [List.foldl_cons, same, ih.2]⟩
    rw [Turn.followed]
    split
    · rename_i running; exact absurd running stopped
    · rfl

/-- Callbacks that a turn goes on with are counted as well. -/
theorem Turn.foldl_follow_reads {t : Turn} {done : List Command} (hs : t.hub.tree.Sound)
    (hr : t.hub.counters.Reads (t.life.carried done)) (cs : List (Backend × EngineCallback)) :
    (cs.foldl Turn.follow t).hub.tree.Sound ∧ (cs.foldl Turn.follow t).hub.counters.Reads
      ((cs.foldl Turn.follow t).life.carried (done ++ t.followed cs)) := by
  induction cs generalizing t done with
  | nil => exact ⟨hs, by rw [Turn.followed, List.append_nil]; exact hr⟩
  | cons c cs ih =>
    by_cases running : t.life = .running
    · have now : t.hub.counters.Reads done := by rwa [running] at hr
      have sound := (Hub.outcome_process hs (.callback c.1 c.2)).sound hs
      have reads := Hub.process_reads hs now (.callback c.1 c.2)
      have followed := ih (t := t.follow c) (by rwa [Turn.follow, running])
        (by rwa [Turn.follow, running])
      rw [Turn.followed, running]
      rwa [List.append_assoc] at followed
    · obtain ⟨nothing, same⟩ := Turn.followed_stopped running (c :: cs)
      rw [nothing, same, List.append_nil]
      exact ⟨hs, hr⟩

/-- **Steps.** A step counts all that it handles and carries through. -/
theorem Hub.step_reads {h : Hub} {done : List Command} (hs : h.tree.Sound)
    (hr : h.counters.Reads done) (c : Command) : (h.step c).hub.tree.Sound ∧
      (h.step c).hub.counters.Reads ((h.step c).life.carried (done ++ h.handled c)) := by
  have followed := Turn.foldl_follow_reads (t := { h.process c with raised := [] })
    ((outcome_process hs c).sound hs) (process_reads hs hr c) (h.process c).raised
  rwa [List.append_assoc] at followed

/-! ## Events in the hall -/

/-- The audience counted as many events as were told, and every one under a type. -/
structure AudienceStats.Tallied (st : AudienceStats) (n : Nat) : Prop where
  events : st.events = n
  types : st.byType.total = n

/-- The counts of events are the same. -/
def AudienceStats.Level (a b : AudienceStats) : Prop := b.events = a.events ∧ b.byType = a.byType

theorem AudienceStats.Tallied.level {a b : AudienceStats} {n : Nat} (ha : a.Tallied n)
    (hab : a.Level b) : b.Tallied n := ⟨hab.1.trans ha.events, hab.2 ▸ ha.types⟩

namespace Room

theorem level_register (r : Room) (x : Seat) :
    r.audience.stats.Level (r.register x).1.audience.stats := by
  simp only [register, after, Audience.register]
  split
  · exact ⟨rfl, rfl⟩
  · split <;> exact ⟨rfl, rfl⟩

theorem level_remove (r : Room) (name : String) :
    r.audience.stats.Level (r.remove name).1.audience.stats := by
  simp only [remove, after, Audience.remove]
  split <;> exact ⟨rfl, rfl⟩

/-- Whether a listener fails makes no difference. -/
theorem level_offer (r : Room) (x : Seat) (e : Event) :
    r.audience.stats.Level (r.offer x e).1.audience.stats := by
  simp only [offer, after, Audience.offer]
  split
  · dsimp only
    split <;> exact ⟨rfl, rfl⟩
  · exact ⟨rfl, rfl⟩

theorem tallied_announce {r : Room} {n : Nat} (hr : r.audience.stats.Tallied n) (e : Event) :
    (r.announce e).audience.stats.Tallied (n + 1) :=
  ⟨congrArg (· + 1) hr.events, (Table.total_bump ..).trans (congrArg (· + 1) hr.types)⟩

end Room

namespace Hall

/-- The audience counts the events that were read to it. -/
def Tallied (h : Hall) : Prop := h.room.audience.stats.Tallied (Letter.events h.read).length

variable {h : Hall}

theorem Tallied.enter (ht : h.Tallied) (x : Seat) : (h.enter x).Tallied := by
  unfold Tallied
  rw [House.read_enter, room_enter]
  exact ht.level (h.room.level_register x)

theorem Tallied.offer (ht : h.Tallied) (e : Event) (x : Seat) (rest : List Seat) :
    (h.offer e x rest).Tallied := by
  unfold Tallied
  simp only [Hall.offer]
  exact ht.level (h.room.level_offer x e)

/-- Only a letter that tells an event is counted. -/
theorem Tallied.tell (ht : h.Tallied) (l : Letter) : (h.tell l).Tallied := by
  have next (told : Letter.events [l] = []) : (h.next l).Tallied := by
    unfold Tallied
    rw [next, House.events_append, told, List.append_nil]
    exact ht
  obtain ⟨n, body⟩ := l
  cases body with
  | event e =>
    unfold Tallied
    rw [House.read_tell, House.events_append, List.length_append]
    exact Room.tallied_announce ht e
  | register x => exact (next rfl).enter x
  | remove name => exact (next rfl).level (h.room.level_remove name)
  | barrier => exact next rfl
  | shutdown => exact (next rfl).level ⟨rfl, rfl⟩

end Hall

/-! ## Runs -/

namespace House

variable {s : House} {cs : List Command}

/-- The commands that the hub handled so far, in order. -/
inductive Accounted : House → List Command → Prop
  | opened (strict hasClient : Bool) (utxo account : Option Engine) (limit : Option Nat)
      (listeners : List Listener) :
      Accounted (opened strict hasClient utxo account limit listeners) []
  | take {s : House} {cs rest : List Command} {c : Command} : s.Accounted cs →
      s.queue = c :: rest → s.begun = true → s.life = .running →
      Accounted (s.take c rest) (cs ++ s.hub.handled c)
  /-- A step with which the hub takes nothing. -/
  | idle {s s' : House} {cs : List Command} : s.Accounted cs → s.Step s' → s'.taken = s.taken →
      Accounted s' cs

/-- With a step the hub takes the next command, or none. -/
theorem Step.taken_cases {s' : House} (hstep : s.Step s') :
    (∃ c rest, s.queue = c :: rest ∧ s.begun = true ∧ s.life = .running ∧ s' = s.take c rest) ∨
      s'.taken = s.taken := by
  cases hstep with
  | take queue begun running => exact .inl ⟨_, _, queue, begun, running, rfl⟩
  | _ => exact .inr rfl

theorem Reachable.accounted (hs : s.Reachable) : ∃ cs, s.Accounted cs := by
  induction hs with
  | opened => exact ⟨[], .opened ..⟩
  | step _ hstep ih =>
    obtain ⟨cs, ih⟩ := ih
    rcases hstep.taken_cases with ⟨c, rest, queue, begun, running, rfl⟩ | same
    · exact ⟨_, ih.take queue begun running⟩
    · exact ⟨cs, ih.idle hstep same⟩

/-- **Commands.** The counters of the hub tell of the commands that were carried through. -/
theorem Accounted.reads (ha : s.Accounted cs) :
    s.hub.tree.Sound ∧ s.hub.counters.Reads (s.life.carried cs) := by
  induction ha with
  | opened => exact ⟨Tree.sound_empty, rfl, rfl, rfl, rfl, Nat.le_refl 0⟩
  | take _ _ _ running ih =>
    rw [running] at ih
    exact Hub.step_reads ih.1 ih.2 _
  | @idle s _ _ _ hstep taken ih =>
    cases hstep with
    | take => exact absurd taken (by simp [House.take])
    | begin => exact ⟨ih.1, ih.2.steady ⟨rfl, rfl, rfl, rfl, rfl⟩⟩
    | setting b x =>
      refine ⟨(Session.tree_adjusted s.hub b x).symm ▸ ih.1, ?_⟩
      exact (Session.counters_adjusted s.hub b x).symm ▸ ih.2
    | arrive | present | enlist | found | tell | offer | served | leave | clock | clear => exact ih

/-- **Events.** The audience counts the events that were read to it, whoever listens. -/
theorem Reachable.tallied (hs : s.Reachable) : s.hall.Tallied := by
  induction hs with
  | opened strict hasClient utxo account limit ls =>
    have same : (House.opened strict hasClient utxo account limit ls).hall.room.audience =
        Audience.empty limit := (presentAll_spec (Room.empty limit) ls).2.2.1
    unfold Hall.Tallied
    rw [same]
    exact ⟨rfl, rfl⟩
  | @step s _ _ hstep ih =>
    cases hstep with
    | found => exact ih.enter _
    | tell => exact ih.tell _
    | offer => exact ih.offer _ _ _
    | leave => exact ih.level ⟨rfl, rfl⟩
    | arrive | present | enlist | begin | take | served | setting | clock | clear =>
      exact ih

/-- What comes of a flush is told as one. -/
theorem Reachable.barriers (hs : s.Reachable) : ∀ l ∈ s.mail, 0 < l.origin →
    s.taken[l.origin - 1]? = some .flush → l.body = .barrier := by
  induction hs with
  | opened => exact fun l hl => absurd hl List.not_mem_nil
  | @step s s' hs hstep ih =>
    have still {s' : House} (mail : s'.mail = s.mail) (taken : s'.taken = s.taken) :
        ∀ l ∈ s'.mail, 0 < l.origin → s'.taken[l.origin - 1]? = some .flush →
          l.body = .barrier := by
      rw [mail, taken]
      exact ih
    cases hstep with
    | begin =>
      intro l hl positive flush
      have mail : s.begin.mail = s.mail ++ s.hub.start.2.map (⟨0, ·⟩) :=
        (List.append_assoc ..).symm
      rcases List.mem_append.1 (mail ▸ hl) with hl | hl
      · exact ih l hl positive flush
      · obtain ⟨b, -, rfl⟩ := List.mem_map.1 hl
        exact absurd positive (Nat.lt_irrefl 0)
    | @take c rest =>
      intro l hl positive flush
      have mail : (s.take c rest).mail =
          s.mail ++ (s.hub.step c).mail.map (Letter.mk (s.taken.length + 1)) :=
        (List.append_assoc ..).symm
      change (s.taken ++ [c])[l.origin - 1]? = some .flush at flush
      rcases List.mem_append.1 (mail ▸ hl) with hl | hl
      · have bound := hs.posted.bound l hl
        rw [List.getElem?_append_left (by omega)] at flush
        exact ih l hl positive flush
      · rw [(mem_turn hl).1, Nat.add_sub_cancel, List.getElem?_concat_length] at flush
        cases flush
        obtain ⟨b, hb, rfl⟩ := List.mem_map.1 hl
        exact List.mem_singleton.1 hb
    | @tell l rest _ _ _ unread =>
      refine still ?_ rfl
      change (s.hall.tell l).read ++ rest = s.hall.read ++ s.unread
      rw [read_tell, unread, List.append_assoc, List.singleton_append]
    | @found x => exact still (congrArg (· ++ s.unread) (read_enter s.hall x)) rfl
    | arrive | present | enlist | offer | served | leave | setting | clock | clear =>
      exact still rfl rfl

/-- Once the last command that was taken is answered, and is a flush, no event is under way. -/
theorem Reachable.events_unread (hs : s.Reachable) {p : Nat}
    (answered : (s.taken.length, p) ∈ s.hall.flushed) : Letter.events s.unread = [] := by
  have flushed := hs.flushed answered
  refine List.filterMap_eq_nil_iff.2 fun l hl => ?_
  obtain ⟨i, hi⟩ := List.getElem?_of_mem hl
  have place : s.mail[s.hall.read.length + i]? = some l := by
    rw [mail, List.getElem?_append_right (Nat.le_add_right ..), Nat.add_sub_cancel_left]
    exact hi
  have last : l.origin = s.taken.length := by
    refine Nat.le_antisymm (hs.posted.bound l (List.mem_of_getElem? place)) (Nat.not_lt.1 ?_)
    intro earlier
    have before := flushed.before _ l place earlier
    have settled := (List.getElem?_eq_some_iff.1 (hs.kept.flushes _ p answered).2).1
    have read := s.hall.settled_prefix.length_le
    omega
  have barrier := hs.barriers l (List.mem_of_getElem? place) (last ▸ flushed.command.1)
    (last ▸ flushed.command.2)
  rw [barrier]
  rfl

/-- What the accounts of a run are. -/
structure Accounts (s : House) : Prop where
  /-- Events are numbered from 1, up to their count. -/
  sequences : (Letter.events s.mail).map (·.sequence) = List.range' 1 s.hub.counters.events
  dropped : s.hub.counters.dropped = s.hub.counters.droppedByKind.total
  /-- Every command that was carried through is counted once. -/
  commands : ∀ cs, s.Accounted cs → s.hub.counters.commands = (s.life.carried cs).length
  kinds : s.hub.counters.callbacks + s.hub.counters.requests ≤ s.hub.counters.commands
  bound : s.hub.counters.dropped ≤ s.hub.counters.callbacks
  /-- Both sides agree once the last command is a flush and answered. -/
  level : ∀ p, (s.taken.length, p) ∈ s.hall.flushed →
    s.hall.room.audience.stats.byType.total = s.hall.room.audience.stats.events ∧
      s.hall.room.audience.stats.events = s.hub.counters.events

theorem Reachable.accounts (hs : s.Reachable) : s.Accounts := by
  obtain ⟨cs, ha⟩ := hs.accounted
  have reads := ha.reads.2
  have tallied := hs.tallied
  refine ⟨?_, reads.total, fun cs ha => ha.reads.2.commands, ?_, reads.bound,
    fun p answered => ?_⟩
  · rw [hs.posted.counted, hs.posted.sequences]
  · rw [reads.commands, reads.callbacks, reads.requests]
    exact Counters.countP_callbacks_requests _
  · refine ⟨tallied.types.trans tallied.events.symm, ?_⟩
    rw [tallied.events, hs.posted.counted, mail, events_append, hs.events_unread answered,
      List.append_nil]

/-- **Accounts.** In every run, events are numbered without a gap, every drop is counted under one
kind, every command that is carried through is counted once, a callback drops one callback at most,
and hub and audience agree on the events once a flush is answered and nothing came after it. -/
theorem accounting (hs : s.Reachable) :
    s.Accounts ∧ (∃ cs, s.Accounted cs) ∧
      ∀ (h : Hub) (b : Backend) (c : EngineCallback),
        (h.process (.callback b c)).hub.counters.dropped ≤ h.counters.dropped + 1 :=
  ⟨hs.accounts, hs.accounted, Hub.dropped_callback⟩

/-- One listener fails at everything, and another one comes later. The engine answers commands with
callbacks, and one more is for a manager that nobody knows; then everything is flushed. -/
def audited : House :=
  let s := ((((opened true false none (some (.create .account true)) none [clumsy]).send
    (.request (.createManager ⟨⟨"dave", 0⟩, .ethereum true, .apiOnly, "/tmp/dave"⟩))).bring
    choosy).send (.callback .account (.manager 0x9999 .connected))).send
    (.request (.connect ⟨.account, 0x2000⟩))
  hallTurn^[60] (hubTurn^[6] (s.send .flush))

theorem reachable_audited : audited.Reachable := by
  refine Reachable.turns (.turns ?_ hubTurn (fun h => h.hubTurn) 6) hallTurn
    (fun h => h.hallTurn) 60
  exact (((((Reachable.opened ..).send (by rfl)).bring _).send (by rfl)).send (by rfl)).send
    (by rfl)

/-- More commands are counted than were queued, and both sides count six events. -/
theorem accounting_audited : audited.Accounts ∧ audited.taken.length = 5 ∧
    audited.hall.flushed = [(5, 8)] ∧ audited.hub.counters.commands = 8 ∧
    audited.hub.counters.callbacks = 4 ∧ audited.hub.counters.requests = 2 ∧
    audited.hub.counters.dropped = 1 ∧ audited.hub.counters.events = 6 ∧
    audited.hall.room.audience.stats.events = 6 ∧ audited.hall.room.audience.stats.errors = 6 :=
  ⟨(accounting reachable_audited).1, by decide +kernel⟩

/-- A strict hub is asked for an engine that it does not have. -/
def broken : House :=
  hubTurn^[2] ((opened true false none none none []).send (.request (.connect ⟨.account, 0x2000⟩)))

theorem accounted_broken : broken.Accounted [.request (.connect ⟨.account, 0x2000⟩)] :=
  .take (.idle (.idle (.opened true false none none none []) (.arrive _ rfl) rfl) (.begin rfl) rfl)
    rfl rfl rfl

/-- The command in the middle of which a hub halts is not counted. -/
theorem uncounted_broken : ¬∀ (s : House) (cs : List Command), s.Reachable → s.Accounted cs →
    s.hub.counters.commands = cs.length := by
  intro counted
  have reachable : broken.Reachable :=
    .turns (Reachable.send (.opened ..) rfl) hubTurn (fun h => h.hubTurn) 2
  exact absurd (counted broken _ reachable accounted_broken) (by decide +kernel)

end House
end WalletHub
