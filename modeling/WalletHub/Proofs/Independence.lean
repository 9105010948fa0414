import WalletHub.Proofs.Locality

/-!
# Managers are independent

A callback that is no query looks at the record of its manager and at what the engine says of it,
and changes nothing but that record and the counters. So two callbacks for different managers can
change places: the records are the same, the counters agree, and each manager is told of the same.

There is one exception. A height from which the confirmations of a transfer cannot be counted in 64
bits halts the hub, and then whatever comes after it is not taken, for whichever manager it is
(`halted_iff_overflows`, `not_interchangeable`).

* `process_of_respond`: what a callback does, as a reaction of the record of its manager.
* `interchangeable`: callbacks for different managers can change places.
-/
namespace WalletHub

/-! ## Heights from which confirmations cannot be counted -/

theorem Reaction.Leaves.fault_ne {α : Type} {r : Reaction α} {a : α} (h : r.Leaves a) :
    r.fault ≠ some .overflow := by
  intro hf
  obtain ⟨e, he, -⟩ := h.error hf
  cases he

namespace Manager

/-- A height that is new to the manager, and from which the confirmations of one of its transfers
cannot be counted. -/
def Overflows (m : Manager) (height : UInt64) : Prop :=
  m.state ≠ .deleted ∧ m.height ≠ height ∧ ∃ x ∈ m.transfers, x.confirmationsAt height = .overflow

theorem mapM_confirmationNotices_eq_none_iff (height : UInt64) (limit : UInt32)
    (ts : List Transfer) : ts.mapM (confirmationNotices? height limit) = none ↔
      ∃ x ∈ ts, x.confirmationsAt height = .overflow := by
  induction ts with
  | nil => simp
  | cons t ts ih =>
    have first : confirmationNotices? height limit t = none ↔
        t.confirmationsAt height = .overflow := by
      unfold confirmationNotices?
      cases t.confirmationsAt height with
      | pending => simp
      | overflow => simp
      | count n => simp; split <;> simp
    rw [List.mapM_cons]
    cases hn : confirmationNotices? height limit t with
    | none => simp [first.1 hn]
    | some ns =>
      have held : t.confirmationsAt height ≠ .overflow := fun h => by simp [first.2 h] at hn
      simp only [List.mem_cons, exists_eq_or_imp, held, false_or, ← ih]
      cases ts.mapM (confirmationNotices? height limit) <;> simp

theorem fault_receiveHeight_eq_overflow_iff (m : Manager) (height : UInt64) :
    (m.receiveHeight height).fault = some .overflow ↔
      m.height ≠ height ∧ ∃ x ∈ m.transfers, x.confirmationsAt height = .overflow := by
  have counted := mapM_confirmationNotices_eq_none_iff height m.network.confirmationsUntilFinal
    m.transfers
  unfold receiveHeight setHeight
  by_cases same : m.height = height
  · simp [same, Reaction.still]
  · simp only [same, if_false, ne_eq, not_false_eq_true, true_and, ← counted]
    split
    · rename_i none; exact iff_of_true rfl none
    · rename_i notices some
      exact iff_of_false (by simp [Reaction.announce]) fun none => by cases some.symm.trans none

/-- A callback ends in an overflow only if it brings such a height. -/
theorem fault_react_eq_overflow_iff (m : Manager) (c : ManagerCallback) :
    (m.react c).fault = some .overflow ↔
      ∃ height, c = .blockHeightUpdated height ∧ m.Overflows height := by
  by_cases deleted : m.state = .deleted
  · have held : (m.react c).fault ≠ some .overflow := by
      cases c with
      | deleted => simp [react, deleted, Reaction.still]
      | _ => simp [react, ifLive, deleted, Reaction.discard]
    simp [held, Overflows, deleted]
  have moved (new : ManagerState) (more : List Notice) :
      (m.moveTo new more).fault ≠ some .overflow := (m.leaves_moveTo new more).fault_ne
  cases c with
  | deleted => simp [react, deleted, retire, Reaction.announce]
  | created => simp [react, ifLive, deleted, reactLive, Reaction.still]
  | connected | disconnected | syncStarted =>
    simpa [react, ifLive, deleted, reactLive] using moved _ _
  | syncProgress percent timestamp =>
    simp only [react, ifLive, deleted, if_false, reactLive]
    split <;> simp [Reaction.announce, Reaction.still]
  | syncStopped reason =>
    simp only [react, ifLive, deleted, if_false, reactLive]
    split
    · simpa using moved _ _
    · simp [Reaction.announce]
  | blockHeightUpdated height =>
    simp [react, ifLive, deleted, reactLive, fault_receiveHeight_eq_overflow_iff, Overflows]

end Manager

/-- Whether a callback brings such a height to its manager. -/
def Tree.Overflows (t : Tree) (b : Backend) : EngineCallback → Prop
  | .manager i (.blockHeightUpdated height) =>
    ∃ m, t.manager? ⟨b, i⟩ = some m ∧ m.Overflows height
  | _ => False

/-! ## Callbacks as reactions -/

/-- The tree with another record of a manager, if there is one. -/
def Tree.write (t : Tree) : Option Manager → Tree
  | none => t
  | some m => t.put m

namespace Counters

/-- The counters once a fault was met. -/
def fail (c : Counters) : Option Fault → Counters
  | some (.error e) => c.discard e
  | _ => c

/-- The counters after a callback and what it did. -/
def tally {α : Type} (c : Counters) (r : Reaction α) : Counters :=
  let c := c.callback
  let c := { c with unread := c.unread + r.unread }.fail r.fault
  { c with events := c.events + r.notices.length }

end Counters

namespace Hub

open Handling

variable {g h : Hub} {b b' : Backend} {c c' : EngineCallback}

/-- What a callback does to the record of its manager, if there is one. -/
def respond (h : Hub) (b : Backend) (c : EngineCallback) : Reaction (Option Manager) :=
  match h.tree.manager? (c.addressee b) with
  | none => .discard none (.resolution (.unknownManager (c.addressee b)))
  | some m => (c.reaction (h.reads b) b m).map some

/-- A callback meets no violation. -/
theorem fault_respond (h : Hub) (b : Backend) (c : EngineCallback) :
    (h.respond b c).fault = none ∨ (∃ e, (h.respond b c).fault = some (.error e)) ∨
      (h.respond b c).fault = some .overflow := by
  have of_leaves {r : Reaction Manager} {m : Manager} (leaves : r.Leaves m) :
      r.fault = none ∨ (∃ e, r.fault = some (.error e)) ∨ r.fault = some .overflow := by
    rcases leaves with done | ⟨e, rfl⟩
    · exact .inl done
    · exact .inr (.inl ⟨e, rfl⟩)
  unfold respond
  split
  · exact .inr (.inl ⟨_, rfl⟩)
  · rename_i m _
    cases c with
    | manager i event =>
      rcases m.leaves_react event with leaves | ⟨height, hr⟩
      · exact of_leaves leaves
      · exact .inr (.inr (by simp [EngineCallback.reaction, hr, Reaction.map]))
    | wallet i w event => exact of_leaves (m.leaves_reactWallet _ _ event)
    | transfer i w t event => exact of_leaves (m.leaves_reactTransfer _ _ _ event)
    | queryRequested => exact .inl rfl

theorem fault_respond_eq_overflow_iff (h : Hub) (b : Backend) (c : EngineCallback) :
    (h.respond b c).fault = some .overflow ↔ h.tree.Overflows b c := by
  unfold respond
  cases known : h.tree.manager? (c.addressee b) with
  | none =>
    refine iff_of_false (by simp [Reaction.discard]) ?_
    cases c with
    | manager i event =>
      cases event with
      | blockHeightUpdated height =>
        rintro ⟨m, there, -⟩
        cases there.symm.trans known
      | _ => exact id
    | _ => exact id
  | some m =>
    change (c.reaction (h.reads b) b m).fault = some .overflow ↔ _
    cases c with
    | manager i event =>
      rw [EngineCallback.reaction, m.fault_react_eq_overflow_iff]
      cases event with
      | blockHeightUpdated height =>
        have known : h.tree.manager? ⟨b, i⟩ = some m := known
        simp [Tree.Overflows, known]
      | _ => exact iff_of_false (by simp) id
    | wallet i w event => exact iff_of_false (m.leaves_reactWallet _ _ event).fault_ne id
    | transfer i w t event => exact iff_of_false (m.leaves_reactTransfer _ _ _ event).fault_ne id
    | queryRequested => exact iff_of_false (by simp [EngineCallback.reaction, Reaction.still]) id

/-- The turn of a reaction that does not halt the hub. -/
theorem process_commit {h : Hub} {r : Reaction Manager}
    (going : r.fault = none ∨ ∃ e, r.fault = some (.error e)) :
    let t := concludeCallback h (commit (h.count .callback) r .done)
    t.hub = { h with tree := h.tree.put r.value, counters := h.counters.tally r } ∧
      t.life = .running ∧ t.notices = r.notices := by
  rcases going with done | ⟨e, failed⟩
  · simp only [concludeCallback, commit, done]
    refine ⟨?_, rfl, notices_conclude ..⟩
    simp only [Counters.tally, Counters.fail, done]
    rfl
  · simp only [concludeCallback, commit, failed]
    refine ⟨?_, rfl, notices_conclude ..⟩
    simp only [Counters.tally, Counters.fail, failed]
    rfl

/-- **Callbacks.** Unless it halts the hub, a callback writes the record that its manager has after
it, counts what it did, and tells it. -/
theorem process_of_respond (plain : c.isQuery = false) (held : ¬h.tree.Overflows b c) :
    (h.process (.callback b c)).hub = { h with
        tree := h.tree.write (h.respond b c).value
        counters := h.counters.tally (h.respond b c) } ∧
      (h.process (.callback b c)).life = .running ∧
      (h.process (.callback b c)).notices = (h.respond b c).notices := by
  have going := h.fault_respond b c
  have held := mt (h.fault_respond_eq_overflow_iff b c).1 held
  have same : (h.count .callback).reads b = h.reads b := rfl
  rw [process_callback, onCallback_eq plain, same]
  cases known : h.tree.manager? (c.addressee b) with
  | none =>
    have known' : (h.count .callback).tree.manager? (c.addressee b) = none := known
    simp only [toManager, known', respond, known]
    exact ⟨rfl, rfl, rfl⟩
  | some m =>
    have known' : (h.count .callback).tree.manager? (c.addressee b) = some m := known
    simp only [toManager, known', respond, known] at held going ⊢
    exact process_commit (going.imp_right fun rest => rest.resolve_right held)

/-- **Halts.** A callback halts the hub if and only if it brings a height from which the
confirmations of a transfer of its manager cannot be counted. -/
theorem halted_iff_overflows (plain : c.isQuery = false) :
    (h.process (.callback b c)).life = .halted ↔ h.tree.Overflows b c := by
  by_cases exceeds : h.tree.Overflows b c
  · refine iff_of_true ?_ exceeds
    have exceeds := (h.fault_respond_eq_overflow_iff b c).2 exceeds
    have same : (h.count .callback).reads b = h.reads b := rfl
    rw [process_callback, onCallback_eq plain, same]
    cases known : h.tree.manager? (c.addressee b) with
    | none => simp [respond, known, Reaction.discard] at exceeds
    | some m =>
      have known' : (h.count .callback).tree.manager? (c.addressee b) = some m := known
      simp only [respond, known] at exceeds
      have exceeds : (c.reaction (h.reads b) b m).fault = some .overflow := exceeds
      simp only [toManager, known', commit, exceeds]
      rfl
  · refine iff_of_false ?_ exceeds
    rw [(process_of_respond plain exceeds).2.1]
    simp

/-- A callback for another manager does not change what becomes of a callback. -/
theorem respond_congr (records : g.tree.manager? (c.addressee b) = h.tree.manager? (c.addressee b))
    (engines : ∀ b, g.engine? b = h.engine? b) : g.respond b c = h.respond b c := by
  have reads : g.reads b = h.reads b := by simp only [Hub.reads, engines]
  simp only [respond, records, reads]

/-- The record that is written is the one of the manager. -/
theorem handle_respond (hs : h.tree.Sound) {m : Manager}
    (written : (h.respond b c).value = some m) : m.handle = c.addressee b := by
  unfold respond at written
  split at written
  · cases written
  · rename_i m' known
    cases written
    exact (Manager.local_reaction _ (hs.sound known) (hs.place known)).handle.trans
      (hs.place known)

end Hub

/-! ## Records and counters in either order -/

theorem Tree.write_comm (t : Tree) {v w : Option Manager}
    (apart : ∀ m n, v = some m → w = some n → m.handle ≠ n.handle) :
    (t.write v).write w = (t.write w).write v := by
  cases v with
  | none => rfl
  | some m =>
    cases w with
    | none => rfl
    | some n => simp only [write, put, Registry.modify_comm _ (apart m n rfl rfl)]

namespace Table

variable {κ : Type} [DecidableEq κ]

theorem get?_bump (t : Table κ Nat) (k j : κ) :
    (t.bump k).get? j = if k = j then some (t.count k + 1) else t.get? j := get?_put ..

/-- Two counts in a table can change places. -/
theorem get?_bump_comm (t : Table κ Nat) (k k' j : κ) :
    ((t.bump k).bump k').get? j = ((t.bump k').bump k).get? j := by
  by_cases same : k = k'
  · rw [same]
  have count : (t.bump k).count k' = t.count k' := by
    rw [Table.count, get?_bump, if_neg same, Table.count]
  have count' : (t.bump k').count k = t.count k := by
    rw [Table.count, get?_bump, if_neg (Ne.symm same), Table.count]
  simp only [get?_bump, count, count']
  by_cases hk : k = j
  · rw [if_pos hk, if_pos hk, if_neg fun hk' => same (hk.trans hk'.symm)]
  · rw [if_neg hk, if_neg hk]

end Table

namespace Counters

/-- The same counts, also under each kind of what was dropped. -/
structure Agree (c d : Counters) : Prop where
  counts : c = { d with droppedByKind := c.droppedByKind }
  kinds : ∀ kind, c.droppedByKind.get? kind = d.droppedByKind.get? kind

theorem Agree.refl (c : Counters) : c.Agree c := ⟨rfl, fun _ => rfl⟩

/-- What a fault adds to the counters. -/
theorem fail_cases (f : Option Fault) :
    (∃ kind, ∀ c : Counters, c.fail f = c.drop kind) ∨
      (∀ c : Counters, c.fail f = { c with unread := c.unread + 1 }) ∨
      (∀ c : Counters, c.fail f = { c with rejectedTransitions := c.rejectedTransitions + 1 }) ∨
      ∀ c : Counters, c.fail f = c := by
  cases f with
  | none => exact .inr (.inr (.inr fun _ => rfl))
  | some f =>
    cases f with
    | error e =>
      cases e with
      | resolution e => exact .inl ⟨e.bucket, fun _ => rfl⟩
      | decode e => exact .inr (.inl fun _ => rfl)
      | transition e => exact .inr (.inr (.inl fun _ => rfl))
      | _ => exact .inr (.inr (.inr fun _ => rfl))
    | violation | overflow => exact .inr (.inr (.inr fun _ => rfl))

/-- What two callbacks add to the counters can be added in either order. -/
theorem tally_comm {α β : Type} (c : Counters) (r : Reaction α) (r' : Reaction β) :
    ((c.tally r).tally r').Agree ((c.tally r').tally r) := by
  -- a fault adds to one count at most; the table is at stake only where both callbacks are dropped
  rcases fail_cases r.fault with ⟨kind, hf⟩ | hf | hf | hf <;>
    rcases fail_cases r'.fault with ⟨kind', hf'⟩ | hf' | hf' | hf' <;>
    simp only [tally, callback, hf, hf', drop] <;>
    refine ⟨by simp only [mk.injEq, true_and, and_true]; omega, fun j => ?_⟩ <;>
    first | rfl | exact Table.get?_bump_comm ..

end Counters

/-! ## Turns in either order -/

/-- What notices tell of one manager. -/
def tidings (k : ManagerHandle) (ns : List Notice) : List Notice := ns.filter (·.named? = some k)

theorem tidings_append (k : ManagerHandle) (ns ms : List Notice) :
    tidings k (ns ++ ms) = tidings k ns ++ tidings k ms := List.filter_append ..

/-- Notices that name another manager tell nothing of this one. -/
theorem tidings_of_ne {j k : ManagerHandle} {ns : List Notice}
    (named : ∀ n ∈ ns, n.named? = some j) (other : j ≠ k) : tidings k ns = [] :=
  List.filter_eq_nil_iff.2 fun n hn => by simp [named n hn, other]

theorem tidings_comm {j j' : ManagerHandle} {ns ms : List Notice}
    (hns : ∀ n ∈ ns, n.named? = some j) (hms : ∀ n ∈ ms, n.named? = some j') (apart : j ≠ j')
    (k : ManagerHandle) : tidings k (ns ++ ms) = tidings k (ms ++ ns) := by
  rw [tidings_append, tidings_append]
  by_cases hj : j = k
  · have hj' : j' ≠ k := fun he => apart (hj.trans he.symm)
    rw [tidings_of_ne hms hj', List.nil_append, List.append_nil]
  · rw [tidings_of_ne hns hj, List.nil_append, List.append_nil]

namespace Hub

variable {h : Hub} {b₁ b₂ : Backend} {c₁ c₂ : EngineCallback}

/-- The second of two callbacks for different managers does what it would do as the first. -/
theorem respond_process (hs : h.tree.Sound) (apart : c₁.addressee b₁ ≠ c₂.addressee b₂)
    (plain : c₁.isQuery = false) (held : ¬h.tree.Overflows b₁ c₁) :
    (h.process (.callback b₁ c₁)).hub.respond b₂ c₂ = h.respond b₂ c₂ := by
  have written := process_of_respond plain held
  refine respond_congr ((about_callback hs b₁ c₁).tree.others _ (Ne.symm apart)) fun b => ?_
  rw [written.1]
  cases b <;> rfl

/-- What two callbacks for different managers do one after the other. -/
theorem process_second (hs : h.tree.Sound) (apart : c₁.addressee b₁ ≠ c₂.addressee b₂)
    (plain₁ : c₁.isQuery = false) (plain₂ : c₂.isQuery = false)
    (held₁ : ¬h.tree.Overflows b₁ c₁) (held₂ : ¬h.tree.Overflows b₂ c₂) :
    ((h.process (.callback b₁ c₁)).hub.process (.callback b₂ c₂)).hub = { h with
        tree := (h.tree.write (h.respond b₁ c₁).value).write (h.respond b₂ c₂).value
        counters := (h.counters.tally (h.respond b₁ c₁)).tally (h.respond b₂ c₂) } ∧
      ((h.process (.callback b₁ c₁)).hub.process (.callback b₂ c₂)).life = .running ∧
      ((h.process (.callback b₁ c₁)).hub.process (.callback b₂ c₂)).notices =
        (h.respond b₂ c₂).notices := by
  have first := process_of_respond plain₁ held₁
  have same : (h.process (.callback b₁ c₁)).hub.respond b₂ c₂ = h.respond b₂ c₂ :=
    respond_process hs apart plain₁ held₁
  have second := process_of_respond (h := (h.process (.callback b₁ c₁)).hub) plain₂
    (by rwa [← fault_respond_eq_overflow_iff, same, fault_respond_eq_overflow_iff])
  rw [same] at second
  obtain ⟨hub, life, notices⟩ := second
  exact ⟨hub.trans (by rw [first.1]), life, notices⟩

end Hub

namespace Session

/-- The same records, counters that agree, and the same told of every manager. -/
structure Alike (x y : Session) : Prop where
  life : x.life = y.life
  tree : x.hub.tree = y.hub.tree
  counters : x.hub.counters.Agree y.hub.counters
  told : ∀ k, tidings k x.notices = tidings k y.notices

theorem Alike.refl (x : Session) : x.Alike x := ⟨rfl, rfl, .refl _, fun _ => rfl⟩

variable {s : Session} {b₁ b₂ : Backend} {c₁ c₂ : EngineCallback}

/-- Two callbacks for different managers that do not halt the hub, one after the other. -/
theorem takes_two (hs : s.Reachable) (running : s.life = .running) (plain₁ : c₁.isQuery = false)
    (plain₂ : c₂.isQuery = false) (apart : c₁.addressee b₁ ≠ c₂.addressee b₂)
    (held₁ : ¬s.hub.tree.Overflows b₁ c₁) (held₂ : ¬s.hub.tree.Overflows b₂ c₂) :
    let x := s.takes [.callback b₁ c₁, .callback b₂ c₂]
    x.life = .running ∧
      x.hub.tree =
        (s.hub.tree.write (s.hub.respond b₁ c₁).value).write (s.hub.respond b₂ c₂).value ∧
      x.hub.counters =
        (s.hub.counters.tally (s.hub.respond b₁ c₁)).tally (s.hub.respond b₂ c₂) ∧
      x.notices =
        s.notices ++ ((s.hub.respond b₁ c₁).notices ++ (s.hub.respond b₂ c₂).notices) := by
  have first := Hub.process_of_respond plain₁ held₁
  obtain ⟨hub, life, notices⟩ :=
    Hub.process_second hs.sound apart plain₁ plain₂ held₁ held₂
  have both : s.takes [.callback b₁ c₁, .callback b₂ c₂] =
      (s.take (.callback b₁ c₁)).take (.callback b₂ c₂) := by
    have still : (s.take (.callback b₁ c₁)).life = .running := first.2.1
    simp only [takes, running, still, if_true]
  rw [both]
  refine ⟨life, congrArg Hub.tree hub, congrArg Hub.counters hub, ?_⟩
  rw [take, notices_after, take, notices_after, List.append_assoc, first.2.2]
  exact congrArg _ (congrArg _ notices)

/-- **Independence.** In every run, of two callbacks that are no queries and are for different
managers: the first changes no other record, neither the order of the records nor the index, and
tells only of its own manager; and unless one of them brings a height from which confirmations
cannot be counted, they can change places. -/
theorem interchangeable (hs : s.Reachable) (plain₁ : c₁.isQuery = false)
    (plain₂ : c₂.isQuery = false) (apart : c₁.addressee b₁ ≠ c₂.addressee b₂) :
    (s.hub.tree.Within (c₁.addressee b₁) (s.hub.process (.callback b₁ c₁)).hub.tree ∧
      ∀ n ∈ (s.hub.process (.callback b₁ c₁)).notices, n.named? = some (c₁.addressee b₁)) ∧
    (¬s.hub.tree.Overflows b₁ c₁ → ¬s.hub.tree.Overflows b₂ c₂ →
      (s.takes [.callback b₁ c₁, .callback b₂ c₂]).Alike
        (s.takes [.callback b₂ c₂, .callback b₁ c₁])) := by
  have about₁ := Hub.about_callback hs.sound b₁ c₁
  have about₂ := Hub.about_callback hs.sound b₂ c₂
  refine ⟨⟨about₁.tree, about₁.named⟩, fun held₁ held₂ => ?_⟩
  by_cases running : s.life = .running
  · obtain ⟨life, tree, counters, notices⟩ := takes_two hs running plain₁ plain₂ apart held₁ held₂
    obtain ⟨life', tree', counters', notices'⟩ :=
      takes_two hs running plain₂ plain₁ (Ne.symm apart) held₂ held₁
    have named₁ := (Hub.process_of_respond plain₁ held₁).2.2 ▸ about₁.named
    have named₂ := (Hub.process_of_respond plain₂ held₂).2.2 ▸ about₂.named
    refine ⟨life.trans life'.symm, ?_, ?_, fun k => ?_⟩
    · rw [tree, tree']
      refine Tree.write_comm _ fun m n hm hn => ?_
      rw [Hub.handle_respond hs.sound hm, Hub.handle_respond hs.sound hn]
      exact apart
    · rw [counters, counters']
      exact Counters.tally_comm ..
    · rw [notices, notices', tidings_append k s.notices, tidings_append k s.notices,
        tidings_comm named₁ named₂ apart]
  · simp only [takes, running, if_false]
    exact .refl s

/-- Two managers on one engine; the first has a transfer in the first block of all. -/
def neighbours : Session :=
  (opened true false none (some false)).takes
    [.request (.createManager ⟨⟨"dave", 0⟩, .ethereum true, .apiOnly, "/tmp/dave"⟩),
      .request (.createManager ⟨⟨"erin", 0⟩, .ethereum true, .apiOnly, "/tmp/erin"⟩),
      .callback .account (.transfer 0x2000 0x2001 0x6000
        (.created ⟨none, none, "1000", .sent, none, none⟩)),
      .callback .account (.transfer 0x2000 0x2001 0x6000 (.included 0 0 0 "21000"))]

theorem reachable_neighbours : neighbours.Reachable := (Reachable.opened ..).takes _

/-- A height for one of them, and the end of the wallet of the other. -/
theorem interchangeable_neighbours :
    (neighbours.takes [.callback .account (.manager 0x2000 (.blockHeightUpdated 5)),
      .callback .account (.wallet 0x2002 0x2003 .deleted)]).Alike
      (neighbours.takes [.callback .account (.wallet 0x2002 0x2003 .deleted),
        .callback .account (.manager 0x2000 (.blockHeightUpdated 5))]) := by
  have held : (neighbours.hub.process
      (.callback .account (.manager 0x2000 (.blockHeightUpdated 5)))).life ≠ .halted := by
    decide +kernel
  exact (interchangeable reachable_neighbours rfl rfl (by decide)).2
    (mt (Hub.halted_iff_overflows rfl).2 held) id

/-- The last height of all halts the hub, and the other manager does not hear that it is connected
unless it heard of it before. -/
theorem not_interchangeable :
    ¬∀ s : Session, s.Reachable → ∀ b₁ b₂ c₁ c₂, EngineCallback.isQuery c₁ = false →
      EngineCallback.isQuery c₂ = false → c₁.addressee b₁ ≠ c₂.addressee b₂ →
        (s.takes [.callback b₁ c₁, .callback b₂ c₂]).Alike
          (s.takes [.callback b₂ c₂, .callback b₁ c₁]) := by
  intro h
  have alike := h neighbours reachable_neighbours .account .account
    (.manager 0x2000 (.blockHeightUpdated 0xFFFFFFFFFFFFFFFF)) (.manager 0x2002 .connected) rfl rfl
    (by decide)
  exact absurd alike.tree (by decide +kernel)

end Session
end WalletHub
