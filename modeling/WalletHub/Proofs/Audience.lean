import Mathlib.Data.List.Nodup
import Mathlib.Data.List.TakeWhile
import WalletHub.Listener.Audience

/-!
# The books of an audience

Listeners come and go, events are offered to those that are there, and all of it may fail: a
listener cannot be set up, has the name of another one, or fails at an event. The counts that an
audience keeps of this agree with each other and with what was done, in any order of registrations,
removals, deliveries and dismissals. Between any two of these, listeners may change what they want
and what they fail at.

* `Admits`: which listeners there is a seat for.
* `register_cases`, `remove_cases`: what a registration and a removal do.
* `Audited`: what holds of the seats and of the counts, with one lemma for each operation.
* `run_audited`: it holds whatever is done, and what is refused leaves no trace.
-/
namespace WalletHub

/-- Nothing is left of a text if it has blanks only. -/
theorem Text.isEmpty_trim_iff {s : String} :
    (trim s).isEmpty = true ↔ ∀ c ∈ s.toList, isBlank c = true := by
  have ends : (trim s).isEmpty = true ↔ strip s.toList = [] := by
    rw [trim, String.isEmpty_iff, String.ofList_eq_empty_iff]
  rw [ends, strip, List.reverse_eq_nil_iff, List.dropWhile_eq_nil_iff]
  constructor
  · intro blank
    have dropped : s.toList.dropWhile isBlank = [] := by
      by_contra left
      have first := List.head_dropWhile_not isBlank left
      rw [blank _ (List.mem_reverse.2 (List.head_mem left))] at first
      cases first
    exact List.dropWhile_eq_nil_iff.1 dropped
  · intro blank c held
    exact blank c ((List.dropWhile_suffix isBlank).subset (List.mem_reverse.1 held))

namespace Audience

variable {a : Audience} {s : Seat} {e : Event} {limit : Option Nat} {handed : List (Event × Seat)}

/-! ## Registrations and removals -/

/-- There is a seat for the listener: it has a name that is not blank and that no other one has, not
all seats are taken, and it can be set up. -/
structure Admits (a : Audience) (s : Seat) : Prop where
  named : ∃ c ∈ s.listener.name.toList, Text.isBlank c = false
  fresh : s.listener.name ∉ a.names
  room : ∀ max, a.limit = some max → a.seats.length < max
  ready : s.listener.setupFailure? = none

theorem has_iff {name : String} : a.has name = true ↔ name ∈ a.names := by
  simp [has, names]

theorem objection?_eq_none_iff {l : Listener} :
    a.objection? l = none ↔ (∃ c ∈ l.name.toList, Text.isBlank c = false) ∧ l.name ∉ a.names ∧
      ∀ max, a.limit = some max → a.seats.length < max := by
  have blank : (Text.trim l.name).isEmpty = true ↔
      ¬∃ c ∈ l.name.toList, Text.isBlank c = false := by
    rw [Text.isEmpty_trim_iff]
    simp
  unfold objection?
  split
  · rename_i unnamed
    exact ⟨nofun, fun ⟨named, _⟩ => absurd named (blank.1 unnamed)⟩
  · rename_i named
    have named := not_not.1 (mt blank.2 named)
    split
    · rename_i taken
      exact ⟨nofun, fun ⟨_, fresh, _⟩ => absurd (has_iff.1 taken) fresh⟩
    · rename_i fresh
      have fresh := mt has_iff.2 fresh
      split
      · rename_i max limited
        split
        · rename_i full
          refine ⟨nofun, fun ⟨_, _, room⟩ => ?_⟩
          exact absurd full (Nat.not_le.2 (room max limited))
        · rename_i room
          refine ⟨fun _ => ⟨named, fresh, fun other same => ?_⟩, fun _ => rfl⟩
          cases limited.symm.trans same
          exact Nat.not_le.1 room
      · rename_i unlimited
        refine ⟨fun _ => ⟨named, fresh, fun max same => ?_⟩, fun _ => rfl⟩
        cases unlimited.symm.trans same

/-- A registration is refused and changes nothing, or the listener sits behind all others. -/
theorem register_cases (a : Audience) (s : Seat) :
    (¬a.Admits s ∧ (∃ x, (a.register s).2.1 = .error x) ∧ (a.register s).1 = a) ∨
    (a.Admits s ∧ (a.register s).2.1 = .ok () ∧ (a.register s).1 = { a with
      seats := a.seats ++ [s]
      stats := { a.stats with registered := a.stats.registered + 1 } }) := by
  unfold register
  split
  · rename_i x objection
    refine .inl ⟨fun admitted => ?_, ⟨_, rfl⟩, rfl⟩
    have fine := objection?_eq_none_iff.2 ⟨admitted.named, admitted.fresh, admitted.room⟩
    cases objection.symm.trans fine
  · rename_i fine
    obtain ⟨named, fresh, room⟩ := objection?_eq_none_iff.1 fine
    split
    · rename_i reason failed
      refine .inl ⟨fun admitted => ?_, ⟨_, rfl⟩, rfl⟩
      cases failed.symm.trans admitted.ready
    · rename_i ready
      exact .inr ⟨⟨named, fresh, room, ready⟩, rfl, rfl⟩

/-- A removal is refused and changes nothing, or the listener of that name is gone. -/
theorem remove_cases (a : Audience) (name : String) :
    (name ∉ a.names ∧ (∃ x, (a.remove name).2.1 = .error x) ∧ (a.remove name).1 = a) ∨
    ((∃ y ∈ a.seats, y.listener.name == name) ∧ (a.remove name).2.1 = .ok () ∧
      (a.remove name).1 = { a with
        seats := a.seats.eraseP (·.listener.name == name)
        stats := { a.stats with removed := a.stats.removed + 1 } }) := by
  unfold remove
  split
  · rename_i unknown
    refine .inl ⟨fun held => ?_, ⟨_, rfl⟩, rfl⟩
    obtain ⟨y, seated, same⟩ := List.mem_map.1 held
    exact List.find?_eq_none.1 unknown y seated (beq_iff_eq.2 same)
  · rename_i y found
    have called := List.find?_some (p := fun y : Seat => y.listener.name == name) found
    exact .inr ⟨⟨y, List.mem_of_find?_eq_some found, called⟩, rfl, rfl⟩

theorem register_ok_iff : (a.register s).2.1 = .ok () ↔ a.Admits s := by
  obtain ⟨unfit, ⟨x, refused⟩, -⟩ | ⟨admitted, accepted, -⟩ := register_cases a s
  · rw [refused]
    exact ⟨nofun, fun admitted => absurd admitted unfit⟩
  · exact ⟨fun _ => admitted, fun _ => accepted⟩

theorem register_refused {x : HubError} (refused : (a.register s).2.1 = .error x) :
    (a.register s).1 = a := by
  obtain ⟨-, -, same⟩ | ⟨-, accepted, -⟩ := register_cases a s
  · exact same
  · cases accepted.symm.trans refused

theorem remove_ok_iff {name : String} : (a.remove name).2.1 = .ok () ↔ name ∈ a.names := by
  obtain ⟨unknown, ⟨x, refused⟩, -⟩ | ⟨⟨y, seated, same⟩, accepted, -⟩ := remove_cases a name
  · rw [refused]
    exact ⟨nofun, fun held => absurd held unknown⟩
  · exact ⟨fun _ => List.mem_map.2 ⟨y, seated, beq_iff_eq.1 same⟩, fun _ => accepted⟩

theorem remove_refused {name : String} {x : HubError}
    (refused : (a.remove name).2.1 = .error x) : (a.remove name).1 = a := by
  obtain ⟨-, -, same⟩ | ⟨-, accepted, -⟩ := remove_cases a name
  · exact same
  · cases accepted.symm.trans refused

/-! ## Books -/

/-- What holds of the seats and of the counts, if these events were handed to these listeners. -/
structure Audited (limit : Option Nat) (a : Audience) (handed : List (Event × Seat)) : Prop where
  limited : a.limit = limit
  distinct : a.names.Nodup
  named : ∀ name ∈ a.names, ∃ c ∈ name.toList, Text.isBlank c = false
  bound : ∀ max, limit = some max → a.seats.length ≤ max
  registered : a.stats.registered = a.stats.removed + a.seats.length
  events : a.stats.events = a.stats.byType.total
  errors : a.stats.errors = a.stats.errorsByListener.total
  failing : a.stats.errors ≤ a.stats.calls
  calls : a.stats.calls = handed.length

theorem audited_empty (limit : Option Nat) : (empty limit).Audited limit [] where
  limited := rfl
  distinct := List.nodup_nil
  named _ held := absurd held List.not_mem_nil
  bound _ _ := Nat.zero_le _
  registered := rfl
  events := rfl
  errors := rfl
  failing := Nat.le_refl 0
  calls := rfl

/-- The seats at which an event is wanted. -/
def takers (a : Audience) (e : Event) : List Seat := a.seats.filter (·.listener.wants e)

/-- The audience after its listeners changed what they want and what they fail at. -/
def change (a : Audience) (moods : Seat → Behaviour) : Audience :=
  { a with seats := a.seats.map fun s => { s with listener := ⟨s.listener.name, moods s⟩ } }

theorem names_change (a : Audience) (moods : Seat → Behaviour) :
    (a.change moods).names = a.names := by
  simp only [names, change, List.map_map]
  rfl

namespace Audited

theorem register (ha : a.Audited limit handed) (s : Seat) :
    (a.register s).1.Audited limit handed := by
  obtain ⟨-, -, same⟩ | ⟨admitted, -, added⟩ := register_cases a s
  · rwa [same]
  · have names : ((a.register s).1).names = a.names ++ [s.listener.name] := by
      rw [added]
      exact List.map_append
    have distinct : (a.names ++ [s.listener.name]).Nodup := by
      have next := ha.distinct.concat admitted.fresh
      rwa [List.concat_eq_append] at next
    have length : (a.seats ++ [s]).length = a.seats.length + 1 := List.length_append
    have named : ∀ name ∈ a.names ++ [s.listener.name],
        ∃ c ∈ name.toList, Text.isBlank c = false := by
      intro name held
      obtain old | new := List.mem_append.1 held
      · exact ha.named name old
      · exact List.mem_singleton.1 new ▸ admitted.named
    rw [← names] at distinct named
    rw [added] at distinct named ⊢
    exact { ha with
      distinct
      named
      bound := fun max limited => by
        have free := admitted.room max (ha.limited.trans limited)
        dsimp only
        omega
      registered := by
        have before := ha.registered
        dsimp only
        omega }

theorem remove (ha : a.Audited limit handed) (name : String) :
    (a.remove name).1.Audited limit handed := by
  obtain ⟨-, -, same⟩ | ⟨⟨y, held, called⟩, -, left⟩ := remove_cases a name
  · rwa [same]
  · have fewer : (a.seats.eraseP (·.listener.name == name)).Sublist a.seats := List.eraseP_sublist
    have length : (a.seats.eraseP (·.listener.name == name)).length = a.seats.length - 1 :=
      List.length_eraseP_of_mem held called
    have present : 0 < a.seats.length := List.length_pos_of_mem held
    have names : ((a.remove name).1).names.Sublist a.names := by
      rw [left]
      exact fewer.map _
    have distinct := ha.distinct.sublist names
    have named := fun n hn => ha.named n (names.subset hn)
    rw [left] at distinct named ⊢
    exact { ha with
      distinct
      named
      bound := fun max limited => fewer.length_le.trans (ha.bound max limited)
      registered := by
        have before := ha.registered
        dsimp only
        omega }

theorem announce (ha : a.Audited limit handed) (e : Event) :
    (a.announce e).Audited limit handed :=
  { ha with
    events := by
      dsimp only [Audience.announce]
      rw [Table.total_bump, ha.events] }

/-- A listener's turn is counted if it wants the event, and as an error if it fails at it. -/
theorem offer (ha : a.Audited limit handed) (s : Seat) (e : Event) :
    (a.offer s e).1.Audited limit
      (handed ++ if s.listener.wants e then [(e, s)] else []) := by
  have failing := ha.failing
  have calls := ha.calls
  unfold Audience.offer
  split
  · have length : (handed ++ [(e, s)]).length = handed.length + 1 := List.length_append
    split
    · exact { ha with
        errors := by
          dsimp only [countError]
          rw [Table.total_bump, ha.errors]
        failing := Nat.succ_le_succ failing
        calls := (congrArg (· + 1) calls).trans length.symm }
    · exact { ha with
        failing := failing.trans (Nat.le_succ _)
        calls := (congrArg (· + 1) calls).trans length.symm }
  · rwa [List.append_nil]

theorem offerAll (ha : a.Audited limit handed) (e : Event) (ss : List Seat) :
    (a.offerAll e ss).1.Audited limit
      (handed ++ (ss.filter (·.listener.wants e)).map (e, ·)) := by
  induction ss generalizing a handed with
  | nil => rwa [List.filter_nil, List.map_nil, List.append_nil]
  | cons s rest ih =>
    have after := ih (ha.offer s e)
    have next : (a.offerAll e (s :: rest)).1 = ((a.offer s e).1.offerAll e rest).1 := rfl
    rw [List.append_assoc, ← next] at after
    cases wanted : s.listener.wants e with
    | false => simpa [wanted] using after
    | true => simpa [wanted] using after

theorem deliver (ha : a.Audited limit handed) (e : Event) :
    (a.deliver e).1.Audited limit (handed ++ (a.takers e).map (e, ·)) :=
  (ha.announce e).offerAll e a.seats

theorem dismiss (ha : a.Audited limit handed) : a.dismiss.1.Audited limit handed :=
  { ha with
    distinct := List.nodup_nil
    named := fun _ held => absurd held List.not_mem_nil
    bound := fun _ _ => Nat.zero_le _
    registered := ha.registered }

theorem change (ha : a.Audited limit handed) (moods : Seat → Behaviour) :
    (a.change moods).Audited limit handed :=
  have length : (a.change moods).seats.length = a.seats.length := List.length_map _
  { ha with
    distinct := names_change a moods ▸ ha.distinct
    named := names_change a moods ▸ ha.named
    bound := fun max limited => length ▸ ha.bound max limited
    registered := length ▸ ha.registered }

end Audited

/-! ## Runs -/

/-- The listeners that want an event hear it, in their order, and no one else does. -/
theorem acts_offerAll (a : Audience) (e : Event) (ss : List Seat) :
    (a.offerAll e ss).2 = (ss.filter (·.listener.wants e)).map (.heard · e) := by
  induction ss generalizing a with
  | nil => rfl
  | cons s rest ih =>
    simp only [offerAll, ih]
    cases wanted : s.listener.wants e with
    | false => simp [offer, wanted]
    | true => simp [offer, wanted]

/-- What is done with an audience. -/
inductive Op where
  | register (s : Seat)
  | remove (name : String)
  | deliver (e : Event)
  | dismiss
  /-- Listeners change what they want and what they fail at. -/
  | change (moods : Seat → Behaviour)

def apply (a : Audience) : Op → Audience
  | .register s => (a.register s).1
  | .remove name => (a.remove name).1
  | .deliver e => (a.deliver e).1
  | .dismiss => a.dismiss.1
  | .change moods => a.change moods

/-- The pairs of an event that is delivered and a listener then registered that wants it. -/
def wanted (a : Audience) : Op → List (Event × Seat)
  | .deliver e => (a.takers e).map (e, ·)
  | _ => []

/-- The audience after operations. -/
def run (a : Audience) : List Op → Audience
  | [] => a
  | op :: ops => (a.apply op).run ops

/-- The pairs of all operations, each of them with the listeners registered at that time. -/
def wantedIn (a : Audience) : List Op → List (Event × Seat)
  | [] => []
  | op :: ops => a.wanted op ++ (a.apply op).wantedIn ops

theorem Audited.apply (ha : a.Audited limit handed) (op : Op) :
    (a.apply op).Audited limit (handed ++ a.wanted op) := by
  cases op with
  | register s => exact (List.append_nil handed).symm ▸ ha.register s
  | remove name => exact (List.append_nil handed).symm ▸ ha.remove name
  | deliver e => exact ha.deliver e
  | dismiss => exact (List.append_nil handed).symm ▸ ha.dismiss
  | change moods => exact (List.append_nil handed).symm ▸ ha.change moods

theorem Audited.run (ha : a.Audited limit handed) (ops : List Op) :
    (a.run ops).Audited limit (handed ++ a.wantedIn ops) := by
  induction ops generalizing a handed with
  | nil => rwa [wantedIn, List.append_nil]
  | cons op ops ih =>
    have after := ih (ha.apply op)
    rwa [List.append_assoc] at after

/-- **Audience.** Whatever is done to an audience, its listeners have names of their own, none of
them blank, and there are not more of them than there may be. All that were registered are there or
were removed; the events are counted once in all and once by type, the errors once in all and once
by listener; and as many calls are counted as there were listeners that wanted a delivered event, of
which not more than that failed. A listener is registered if there is a seat for it, and removed if
it has one, and what is refused leaves no trace. -/
theorem run_audited (limit : Option Nat) (ops : List Op)
    (reached : (empty limit).run ops = a) :
    a.Audited limit ((empty limit).wantedIn ops) ∧
    (∀ s, (a.register s).2.1 = .ok () ↔ a.Admits s) ∧
    (∀ s x, (a.register s).2.1 = .error x → (a.register s).1 = a) ∧
    (∀ name, (a.remove name).2.1 = .ok () ↔ name ∈ a.names) ∧
    (∀ name x, (a.remove name).2.1 = .error x → (a.remove name).1 = a) ∧
    ∀ e, (a.deliver e).2 = (a.takers e).map (.heard · e) := by
  refine ⟨?_, fun s => register_ok_iff, fun s x => register_refused, fun name => remove_ok_iff,
    fun name x => remove_refused, fun e => acts_offerAll _ e a.seats⟩
  rw [← reached]
  exact (audited_empty limit).run ops

/-- Two seats. One listener fails at what it hears, and the other one hears of managers only, until
both change; those that are refused come late, have no name, have a name that is taken or cannot be
set up. -/
def bustle : List Op :=
  let ledger : Seat := ⟨0, "ledger", .recording ["SystemCreated", "ManagerDeleted"]⟩
  let tape : Seat := ⟨1, "tape", .scripted ⟨0, ["manager"], ["ManagerDeleted"], none, some "", []⟩⟩
  let mute : Seat := ⟨2, "mute", .scripted ⟨0, [], [], some "no voice", none, []⟩⟩
  let created : Event := ⟨1, ⟨0, 0⟩, "hub", .hub .created⟩
  let deleted : Event := ⟨2, ⟨0, 0⟩, "hub", .manager ⟨.utxo, 7⟩ .deleted⟩
  [.register ledger, .register { ledger with serial := 3 }, .register mute, .register tape,
    .register ⟨4, "late", .silent⟩, .register ⟨5, " \t", .routing⟩, .deliver created,
    .deliver deleted, .change fun _ => .silent, .deliver deleted, .remove "mute", .remove "ledger",
    .deliver created, .dismiss, .register ledger]

theorem run_audited_bustle :
    ∃ a, (empty (some 2)).run bustle = a ∧ a.names = ["ledger"] ∧
      a.stats.calls = 6 ∧ a.stats.errors = 3 ∧ a.stats.events = 4 ∧ a.stats.registered = 3 ∧
      a.Audited (some 2) ((empty (some 2)).wantedIn bustle) ∧
      a.Admits ⟨8, "tape", .silent⟩ ∧ (a.register ⟨9, "ledger", .silent⟩).1 = a ∧
      (a.remove "tape").1 = a := by
  obtain ⟨audited, registered, refused, -, unremoved, -⟩ := run_audited (some 2) bustle rfl
  exact ⟨_, rfl, by decide +kernel, by decide +kernel, by decide +kernel, by decide +kernel,
    by decide +kernel, audited, (registered _).1 rfl, refused _ (.duplicateListener "ledger") rfl,
    unremoved _ (.listenerNotFound "tape") rfl⟩

end Audience
end WalletHub
