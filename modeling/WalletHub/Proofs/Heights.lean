import WalletHub.Proofs.Independence
import WalletHub.Proofs.Replay

/-!
# Heights and confirmations

A transfer in block `B` has `H - B + 1` confirmations at height `H`, and none while `H` is below
`B`. Engines report any heights and blocks in any order, so the count is taken in 64 bits at
whatever values they send. It fits at all of them but one: from the first block of all to the last
height there are as many blocks as 64 bits have numbers (`Confirmation.countAt_eq_overflow_iff`).

* `confirmations_counted`: wherever confirmations are derived, the count is exact, short of that
  one; a height for which it comes up halts the hub (`confirmations_uncounted`).
* `height_told`: a new height changes nothing but the height of its manager. It is told, and then
  the confirmations of each transfer that is not settled for good, in the order of creation.
-/
namespace WalletHub

/-! ## Counting -/

namespace Confirmation

variable {c : Confirmation} {height : UInt64}

theorem countAt_eq_pending_iff : c.countAt height = .pending ↔ height < c.blockNumber := by
  unfold countAt
  by_cases reached : c.blockNumber ≤ height
  · refine iff_of_false ?_ (UInt64.not_lt.2 reached)
    simp only [reached, if_true]
    split <;> simp
  · simpa [reached] using UInt64.not_le.1 reached

theorem countAt_eq_count_iff {n : UInt64} : c.countAt height = .count n ↔
    c.blockNumber ≤ height ∧ n.toNat = height.toNat - c.blockNumber.toNat + 1 := by
  unfold countAt
  by_cases reached : c.blockNumber ≤ height
  · simp only [reached, if_true, true_and]
    have bound := n.toNat_lt_size
    split
    · rename_i fits
      rw [BlockCount.count.injEq, ← UInt64.toNat_inj, UInt64.toNat_ofNat_of_lt' fits]
      exact eq_comm
    · exact iff_of_false (by simp) (by omega)
  · simp [reached]

/-- From the first block of all to the last height there is one block too many. -/
theorem countAt_eq_overflow_iff :
    c.countAt height = .overflow ↔ c.blockNumber = 0 ∧ height = 0xFFFFFFFFFFFFFFFF := by
  have last : height = 0xFFFFFFFFFFFFFFFF ↔ height.toNat = 18446744073709551615 :=
    UInt64.toNat_inj.symm
  have first : c.blockNumber = 0 ↔ c.blockNumber.toNat = 0 := UInt64.toNat_inj.symm
  have bound : height.toNat < 18446744073709551616 := height.toNat_lt_size
  rw [last, first]
  unfold countAt
  by_cases reached : c.blockNumber ≤ height
  · rw [UInt64.le_iff_toNat_le] at reached
    simp only [UInt64.le_iff_toNat_le, reached, if_true]
    split
    · rename_i fits
      have fits : height.toNat - c.blockNumber.toNat + 1 < 18446744073709551616 := fits
      exact iff_of_false (by simp) (by omega)
    · rename_i exceeds
      have exceeds : ¬height.toNat - c.blockNumber.toNat + 1 < 18446744073709551616 := exceeds
      exact iff_of_true rfl (by omega)
  · simp only [reached, if_false]
    rw [UInt64.le_iff_toNat_le] at reached
    exact iff_of_false (by simp) (by omega)

end Confirmation

namespace Transfer

variable {t : Transfer} {c : Confirmation} {height : UInt64} {limit : UInt32}

theorem confirmation?_eq_some_iff : t.confirmation? = some c ↔ t.state = .included c := by
  unfold confirmation?
  cases t.state <;> simp

theorem confirmationsAt_of_included (included : t.state = .included c) :
    t.confirmationsAt height = c.countAt height := by
  simp only [confirmationsAt, confirmation?_eq_some_iff.2 included]

/-- Only a transfer in the first block of all has more confirmations than can be counted, and only
at the last height. -/
theorem confirmationsAt_eq_overflow_iff : t.confirmationsAt height = .overflow ↔
    height = 0xFFFFFFFFFFFFFFFF ∧ ∃ c, t.state = .included c ∧ c.blockNumber = 0 := by
  cases hs : t.state with
  | included c =>
    rw [confirmationsAt_of_included hs, Confirmation.countAt_eq_overflow_iff]
    simp [and_comm]
  | created | signed | submitted | failed | deleted =>
    simp [confirmationsAt, confirmation?, hs]

/-- What is told of a transfer at a new height: the number of its confirmations, if it is in a block
up to there and not settled for good. -/
def tellsAt (height : UInt64) (limit : UInt32) (t : Transfer) : Option Notice :=
  match t.state with
  | .included c =>
    if c.blockNumber ≤ height ∧ height.toNat - c.blockNumber.toNat + 1 ≤ limit.toNat then
      some (.transfer t.path (.confirmationsUpdated (height - c.blockNumber + 1)))
    else none
  | _ => none

end Transfer

/-! ## What a manager tells -/

namespace Manager

variable {m : Manager} {height : UInt64} {limit : UInt32}

/-- What all transfers tell at a new height, wallet by wallet and oldest first. -/
def tellsAt (height : UInt64) (m : Manager) : List Notice :=
  m.wallets.records.flatMap fun w =>
    w.transfers.records.filterMap (·.tellsAt height m.network.confirmationsUntilFinal)

/-- From a height at which they can be counted, a transfer tells its confirmations or nothing. -/
theorem confirmationNotices?_eq {t : Transfer} (fits : t.confirmationsAt height ≠ .overflow) :
    confirmationNotices? height limit t = some (t.tellsAt height limit).toList := by
  unfold confirmationNotices? Transfer.tellsAt
  cases hs : t.state with
  | included c =>
    rw [Transfer.confirmationsAt_of_included hs] at fits ⊢
    cases hc : c.countAt height with
    | pending =>
      have above := UInt64.not_le.2 (Confirmation.countAt_eq_pending_iff.1 hc)
      simp [above]
    | overflow => exact absurd hc fits
    | count n =>
      obtain ⟨reached, exact⟩ := Confirmation.countAt_eq_count_iff.1 hc
      have same : height - c.blockNumber + 1 = n := by
        have bound := n.toNat_lt_size
        rw [← UInt64.toNat_inj, exact, UInt64.toNat_add, UInt64.toNat_sub_of_le _ _ reached,
          UInt64.toNat_one]
        exact Nat.mod_eq_of_lt (exact ▸ bound)
      simp only [exact, reached, same, true_and]
      split <;> rfl
  | created | signed | submitted | failed | deleted =>
    simp [Transfer.confirmationsAt, Transfer.confirmation?, hs]

/-- Where all confirmations can be counted, every transfer is heard in its turn. -/
theorem mapM_confirmationNotices {ts : List Transfer}
    (fits : ∀ t ∈ ts, t.confirmationsAt height ≠ .overflow) :
    ts.mapM (confirmationNotices? height limit) =
      some (ts.map fun t => (t.tellsAt height limit).toList) := by
  induction ts with
  | nil => rfl
  | cons t ts ih =>
    rw [List.mapM_cons, confirmationNotices?_eq (fits t List.mem_cons_self),
      ih fun u hu => fits u (List.mem_cons_of_mem _ hu)]
    rfl

/-- **Heights.** A new height is taken over and told, and after it what each transfer tells, wallet
by wallet. -/
theorem receiveHeight_eq (new : m.height ≠ height)
    (fits : ∀ t ∈ m.transfers, t.confirmationsAt height ≠ .overflow) :
    m.receiveHeight height = .announce { m with height := height }
      (.manager m.handle (.blockUpdated height) :: m.tellsAt height) := by
  have heard : (m.transfers.map fun t =>
      (t.tellsAt height m.network.confirmationsUntilFinal).toList).flatten = m.tellsAt height := by
    rw [← List.flatMap_def, ← List.filterMap_eq_flatMap_toList, transfers, List.filterMap_flatMap,
      tellsAt]
  simp only [receiveHeight, setHeight, new, if_false, mapM_confirmationNotices fits, heard]

/-- What is told of a transfer is the number of its confirmations. -/
theorem countAt_of_tellsAt {t : Transfer} {p : TransferPath} {n : UInt64}
    (told : t.tellsAt height limit = some (.transfer p (.confirmationsUpdated n))) :
    t.path = p ∧ ∃ c, t.state = .included c ∧ c.blockNumber ≤ height ∧
      n.toNat = height.toNat - c.blockNumber.toNat + 1 := by
  unfold Transfer.tellsAt at told
  split at told
  · rename_i c included
    split at told
    · rename_i heard
      obtain ⟨reached, settled⟩ := heard
      cases told
      refine ⟨rfl, c, included, reached, ?_⟩
      have bound : limit.toNat < UInt64.size := limit.toNat_lt_size.trans (by decide)
      rw [UInt64.toNat_add, UInt64.toNat_sub_of_le _ _ reached, UInt64.toNat_one]
      exact Nat.mod_eq_of_lt (settled.trans_lt bound)
    · cases told
  · cases told

/-- Each number of confirmations that is told at a new height is that of a transfer. -/
theorem counted_of_receiveHeight {p : TransferPath} {n : UInt64}
    (told : .transfer p (.confirmationsUpdated n) ∈ (m.receiveHeight height).notices) :
    ∃ t ∈ m.transfers, t.path = p ∧ ∃ c, t.state = .included c ∧ c.blockNumber ≤ height ∧
      n.toNat = height.toNat - c.blockNumber.toNat + 1 := by
  by_cases same : m.height = height
  · simp [receiveHeight, setHeight, same, Reaction.still] at told
  by_cases fits : ∀ t ∈ m.transfers, t.confirmationsAt height ≠ .overflow
  · rw [receiveHeight_eq same fits] at told
    simp only [Reaction.announce, List.mem_cons, reduceCtorEq, false_or, tellsAt, List.mem_flatMap,
      List.mem_filterMap] at told
    obtain ⟨w, hw, t, ht, told⟩ := told
    exact ⟨t, List.mem_flatMap.2 ⟨w, hw, ht⟩, countAt_of_tellsAt told⟩
  · simp only [not_forall, not_not, exists_prop] at fits
    have none := (mapM_confirmationNotices_eq_none_iff height m.network.confirmationsUntilFinal
      m.transfers).2 fits
    simp [receiveHeight, setHeight, same, none] at told

end Manager

/-! ## Turns -/

/-- An engine reports the height of a manager. -/
def Command.height (k : ManagerHandle) (height : UInt64) : Command :=
  .callback k.backend (.manager k.raw (.blockHeightUpdated height))

namespace Hub

variable {h : Hub} {k : ManagerHandle} {m : Manager} {height : UInt64}

/-- A height halts the hub if it is the last one, and new to a manager that has a transfer in the
first block of all. -/
theorem halted_height_iff (known : h.tree.manager? k = some m) :
    (h.process (.height k height)).life = .halted ↔
      m.state ≠ .deleted ∧ m.height ≠ height ∧ height = 0xFFFFFFFFFFFFFFFF ∧
        ∃ x ∈ m.transfers, ∃ c, x.state = .included c ∧ c.blockNumber = 0 := by
  rw [Command.height, halted_iff_overflows rfl]
  have only : h.tree.Overflows k.backend (.manager k.raw (.blockHeightUpdated height)) ↔
      m.Overflows height := by
    simp only [Tree.Overflows, known, Option.some.injEq, exists_eq_left']
  rw [only, Manager.Overflows]
  simp only [Transfer.confirmationsAt_eq_overflow_iff]
  constructor
  · rintro ⟨live, new, x, hx, last, first⟩
    exact ⟨live, new, last, x, hx, first⟩
  · rintro ⟨live, new, last, x, hx, first⟩
    exact ⟨live, new, x, hx, last, first⟩

/-- A height that does not halt the hub is taken over by the record of its manager. -/
theorem process_height (known : h.tree.manager? k = some m) (live : m.state ≠ .deleted)
    (held : (h.process (.height k height)).life ≠ .halted) :
    (h.process (.height k height)).hub.tree = h.tree.put (m.receiveHeight height).value ∧
      (h.process (.height k height)).life = .running ∧
      (h.process (.height k height)).notices = (m.receiveHeight height).notices := by
  have responds : h.respond k.backend (.manager k.raw (.blockHeightUpdated height)) =
      (m.receiveHeight height).map some := by
    have known : h.tree.manager? ((EngineCallback.manager k.raw
        (.blockHeightUpdated height)).addressee k.backend) = some m := known
    simp only [respond, known, EngineCallback.reaction, Manager.react, Manager.ifLive, live,
      if_false, Manager.reactLive]
  have done := process_of_respond (h := h) (b := k.backend)
    (c := .manager k.raw (.blockHeightUpdated height)) rfl (mt (halted_iff_overflows rfl).2 held)
  rw [responds] at done
  exact ⟨congrArg Hub.tree done.1, done.2.1, done.2.2⟩

end Hub

namespace Session

variable {s : Session} {k : ManagerHandle} {m : Manager}

/-- Whatever number of confirmations a height brings with it is that of a transfer in a block. -/
theorem counted_of_height (hs : s.Reachable) (known : s.hub.tree.manager? k = some m)
    {height n : UInt64} {p : TransferPath} (told : .transfer p (.confirmationsUpdated n) ∈
      (s.hub.process (.height k height)).notices) :
    ∃ x c, s.hub.tree.transfer? p = some x ∧ x.state = .included c ∧ c.blockNumber ≤ height ∧
      n.toNat = height.toNat - c.blockNumber.toNat + 1 := by
  by_cases deleted : m.state = .deleted
  · have silent := (Hub.quiet_process_of_deleted hs.sound known deleted
      (c := .height k height) rfl).told
    simp [silent] at told
  by_cases held : (s.hub.process (.height k height)).life = .halted
  · cases Hub.outcome_process hs.sound (.height k height) with
    | onward life => simp [life] at held
    | ending life => simp [life] at held
    | halting _ silent => simp [silent] at told
  rw [(Hub.process_height known deleted held).2.2] at told
  obtain ⟨x, hx, rfl, c, included, reached, exact⟩ := Manager.counted_of_receiveHeight told
  obtain ⟨h, w, t, hw, ht, place⟩ := Manager.find_of_mem_transfers (hs.sound.sound known) hx
  refine ⟨x, c, ?_, included, reached, exact⟩
  simp only [place, Tree.transfer?, Tree.wallet?, TransferPath.parent, hs.sound.place known, known,
    Option.bind_some, hw, ht]

/-- **Confirmations.** In every run, for every manager: the confirmations of a transfer of it that
is in a block are counted at the height of the manager. At any height they are the number of blocks
from its block up to there, none below its block; and they cannot be counted only from the first
block of all at the last height. A new height of the manager halts the hub only where they cannot be
counted, and all the numbers that it tells are those. -/
theorem confirmations_counted (hs : s.Reachable) (known : s.hub.tree.manager? k = some m) :
    (∀ p x c, p.manager = k → s.hub.tree.transfer? p = some x → x.state = .included c →
      s.hub.tree.confirmations p = c.countAt m.height ∧
      ∀ height, (c.countAt height = .pending ↔ height < c.blockNumber) ∧
        (∀ n, c.countAt height = .count n ↔
          c.blockNumber ≤ height ∧ n.toNat = height.toNat - c.blockNumber.toNat + 1) ∧
        (c.countAt height = .overflow ↔ c.blockNumber = 0 ∧ height = 0xFFFFFFFFFFFFFFFF)) ∧
    ∀ height,
      ((s.take (.height k height)).life = .running ∨ (s.take (.height k height)).life = .halted) ∧
      ((s.take (.height k height)).life = .halted ↔
        m.state ≠ .deleted ∧ m.height ≠ height ∧ height = 0xFFFFFFFFFFFFFFFF ∧
          ∃ x ∈ m.transfers, ∃ c, x.state = .included c ∧ c.blockNumber = 0) ∧
      ∀ p n, .transfer p (.confirmationsUpdated n) ∈ (s.hub.process (.height k height)).notices →
        ∃ x c, s.hub.tree.transfer? p = some x ∧ x.state = .included c ∧ c.blockNumber ≤ height ∧
          n.toNat = height.toNat - c.blockNumber.toNat + 1 := by
  refine ⟨fun p x c place there included => ⟨?_, fun height => ⟨?_, fun n => ?_, ?_⟩⟩,
    fun height => ⟨?_, ?_, fun p n told => ?_⟩⟩
  · subst place
    simp only [Tree.confirmations, known, there]
    exact Transfer.confirmationsAt_of_included included
  · exact Confirmation.countAt_eq_pending_iff
  · exact Confirmation.countAt_eq_count_iff
  · exact Confirmation.countAt_eq_overflow_iff
  · by_cases held : (s.hub.process (.height k height)).life = .halted
    · exact .inr held
    · exact .inl (Hub.process_of_respond rfl (mt (Hub.halted_iff_overflows rfl).2 held)).2.1
  · exact Hub.halted_height_iff known
  · exact counted_of_height hs known told

/-- The transfer of `neighbours` that is in the first block of all. -/
theorem included_neighbours : ∃ m x c, neighbours.hub.tree.manager? ⟨.account, 0x2000⟩ = some m ∧
    neighbours.hub.tree.transfer?
      ⟨⟨.account, 0x2000⟩, ⟨.account, 0x2001⟩, ⟨.account, 0x6000⟩⟩ = some x ∧
    x.state = .included c ∧ c.blockNumber = 0 := by
  obtain ⟨m, known⟩ : ∃ m, neighbours.hub.tree.manager? ⟨.account, 0x2000⟩ = some m :=
    Option.isSome_iff_exists.1 (by decide +kernel)
  have first : (neighbours.hub.tree.transfer?
      ⟨⟨.account, 0x2000⟩, ⟨.account, 0x2001⟩, ⟨.account, 0x6000⟩⟩).any
      (fun x => x.confirmation?.any fun c => c.blockNumber = 0) = true := by decide +kernel
  simp only [Option.any_eq_true, decide_eq_true_eq] at first
  obtain ⟨x, there, c, included, first⟩ := first
  exact ⟨m, x, c, known, there, Transfer.confirmation?_eq_some_iff.1 included, first⟩

/-- It can be counted up to the height before the last, and the hub goes on there. -/
theorem confirmations_counted_neighbours :
    ∃ (m : Manager) (c : Confirmation), neighbours.hub.tree.manager? ⟨.account, 0x2000⟩ = some m ∧
      neighbours.hub.tree.confirmations
        ⟨⟨.account, 0x2000⟩, ⟨.account, 0x2001⟩, ⟨.account, 0x6000⟩⟩ = c.countAt m.height ∧
      c.countAt 0xFFFFFFFFFFFFFFFE = .count 0xFFFFFFFFFFFFFFFF ∧
      (neighbours.take (.height ⟨.account, 0x2000⟩ 0xFFFFFFFFFFFFFFFE)).life = .running := by
  obtain ⟨m, x, c, known, there, included, first⟩ := included_neighbours
  obtain ⟨counted, reported⟩ := confirmations_counted reachable_neighbours known
  obtain ⟨derived, at_height⟩ := counted _ x c rfl there included
  obtain ⟨going, halts, -⟩ := reported 0xFFFFFFFFFFFFFFFE
  refine ⟨m, c, known, derived, ((at_height _).2.1 _).2 ?_, going.resolve_right fun halted => ?_⟩
  · rw [first]
    decide
  · exact absurd (halts.1 halted).2.2.1 (by decide)

/-- From the first block of all to the last height confirmations cannot be counted, and that height
halts the hub. -/
theorem confirmations_uncounted :
    ¬∀ s : Session, s.Reachable → s.life = .running → ∀ k m, s.hub.tree.manager? k = some m →
      ∀ p x c, p.manager = k → s.hub.tree.transfer? p = some x → x.state = .included c →
        ∀ height, c.countAt height ≠ .overflow ∧ (s.take (.height k height)).life = .running := by
  intro counted
  obtain ⟨m, x, c, known, there, included, -⟩ := included_neighbours
  have going := (counted neighbours reachable_neighbours (by decide +kernel) _ m known _ x c rfl
    there included 0xFFFFFFFFFFFFFFFF).2
  exact absurd going (by decide +kernel)

/-- **Heights.** In every run, when a manager that is not deleted is told a height from which the
confirmations of all its transfers can be counted: if it is the height that it has, nothing is
changed or told. Otherwise its height is all that changes in the records. The height is told, and
then the confirmations of each of its transfers that is in a block up to there and not settled for
good, wallet by wallet and transfer by transfer in the order in which they were told to be created.
-/
theorem height_told (hs : s.Reachable) (running : s.life = .running)
    (known : s.hub.tree.manager? k = some m) (live : m.state ≠ .deleted) {height : UInt64}
    (inRange : ∀ x ∈ m.transfers, ∀ c, x.state = .included c → c.blockNumber ≤ height →
      height.toNat - c.blockNumber.toNat + 1 < UInt64.size) :
    (s.take (.height k height)).life = .running ∧
    (m.height = height → (s.take (.height k height)).hub.tree = s.hub.tree ∧
      (s.take (.height k height)).notices = s.notices) ∧
    (m.height ≠ height →
      (s.take (.height k height)).hub.tree = s.hub.tree.put { m with height := height } ∧
      (s.take (.height k height)).notices = s.notices ++ .manager k (.blockUpdated height) ::
        m.wallets.records.flatMap fun w => w.transfers.records.filterMap
          (·.tellsAt height m.network.confirmationsUntilFinal)) ∧
    ∃ r, (Replica.replay s.notices).find? k = some r ∧ m.Mirrors r := by
  have fits : ∀ x ∈ m.transfers, x.confirmationsAt height ≠ .overflow := by
    intro x hx exceeds
    obtain ⟨rfl, c, included, first⟩ := Transfer.confirmationsAt_eq_overflow_iff.1 exceeds
    have below := inRange x hx c included (by rw [first]; decide)
    rw [first] at below
    exact absurd below (by decide)
  have held : (s.hub.process (.height k height)).life ≠ .halted := by
    rw [Ne, Hub.halted_height_iff known]
    rintro ⟨-, -, last, x, hx, first⟩
    exact fits x hx (Transfer.confirmationsAt_eq_overflow_iff.2 ⟨last, first⟩)
  obtain ⟨tree, life, notices⟩ := Hub.process_height known live held
  have place : m.handle = k := hs.sound.place known
  refine ⟨life, fun same => ?_, fun new => ?_, ?_⟩
  · have still : m.receiveHeight height = .still m := by
      simp only [Manager.receiveHeight, Manager.setHeight, same, if_true]
    rw [still] at tree notices
    refine ⟨tree.trans (Tree.put_self (place ▸ known)), ?_⟩
    rw [take, notices_after, notices]
    exact List.append_nil _
  · rw [Manager.receiveHeight_eq new fits] at tree notices
    refine ⟨tree, ?_⟩
    rw [take, notices_after, notices, place]
    rfl
  · rcases (hs.retold running).mirrors.find? k with ⟨unknown, -⟩ | ⟨_, r, there, heard, mirrors⟩
    · cases unknown.symm.trans known
    · cases there.symm.trans known
      exact ⟨r, heard, mirrors⟩

/-- Two wallets with transfers in all kinds of blocks, at a height that is to fall. -/
def busy : Session :=
  (opened true false none (some false)).takes
    [.request (.createManager ⟨⟨"dave", 0⟩, .ethereum true, .apiOnly, "/tmp/dave"⟩),
      .callback .account (.transfer 0x2000 0x2001 0x6003
        (.created ⟨none, none, "1000", .sent, none, none⟩)),
      .callback .account (.wallet 0x2000 0x9000 (.created "eth")),
      .callback .account (.transfer 0x2000 0x9000 0x6001
        (.created ⟨none, none, "1000", .sent, none, none⟩)),
      .callback .account (.transfer 0x2000 0x2001 0x6000
        (.created ⟨none, none, "1000", .sent, none, none⟩)),
      .callback .account (.transfer 0x2000 0x2001 0x6002
        (.created ⟨none, none, "1000", .sent, none, none⟩)),
      .callback .account (.transfer 0x2000 0x2001 0x6000 (.included 5 0 0 "21000")),
      .callback .account (.transfer 0x2000 0x9000 0x6001 (.included 9 0 0 "21000")),
      .callback .account (.transfer 0x2000 0x2001 0x6003 (.included 10 0 0 "21000")),
      .callback .account (.transfer 0x2000 0x2001 0x6002 (.included 11 0 0 "21000")),
      .callback .account (.manager 0x2000 (.blockHeightUpdated 20))]

theorem reachable_busy : busy.Reachable := (Reachable.opened ..).takes _

/-- The height falls to 10. One, six and two confirmations are told, in the order of creation, and
nothing of the block above. -/
theorem height_told_busy :
    ∃ m, busy.hub.tree.manager? ⟨.account, 0x2000⟩ = some m ∧
      (busy.take (.height ⟨.account, 0x2000⟩ 10)).hub.tree =
        busy.hub.tree.put { m with height := 10 } ∧
      (busy.take (.height ⟨.account, 0x2000⟩ 10)).notices = busy.notices ++
        [.manager ⟨.account, 0x2000⟩ (.blockUpdated 10),
          .transfer ⟨⟨.account, 0x2000⟩, ⟨.account, 0x2001⟩, ⟨.account, 0x6003⟩⟩
            (.confirmationsUpdated 1),
          .transfer ⟨⟨.account, 0x2000⟩, ⟨.account, 0x2001⟩, ⟨.account, 0x6000⟩⟩
            (.confirmationsUpdated 6),
          .transfer ⟨⟨.account, 0x2000⟩, ⟨.account, 0x9000⟩, ⟨.account, 0x6001⟩⟩
            (.confirmationsUpdated 2)] := by
  obtain ⟨m, known⟩ : ∃ m, busy.hub.tree.manager? ⟨.account, 0x2000⟩ = some m :=
    Option.isSome_iff_exists.1 (by decide +kernel)
  have looks : ((busy.hub.tree.manager? ⟨.account, 0x2000⟩).all fun m =>
      m.state ≠ .deleted ∧ m.height ≠ 10 ∧ m.transfers.all fun x => x.confirmation?.all fun c =>
        10 - c.blockNumber.toNat + 1 < UInt64.size) = true := by
    decide +kernel
  have spoken : (busy.hub.tree.manager? ⟨.account, 0x2000⟩).map (·.tellsAt 10) = some
        [.transfer ⟨⟨.account, 0x2000⟩, ⟨.account, 0x2001⟩, ⟨.account, 0x6003⟩⟩
            (.confirmationsUpdated 1),
          .transfer ⟨⟨.account, 0x2000⟩, ⟨.account, 0x2001⟩, ⟨.account, 0x6000⟩⟩
            (.confirmationsUpdated 6),
          .transfer ⟨⟨.account, 0x2000⟩, ⟨.account, 0x9000⟩, ⟨.account, 0x6001⟩⟩
            (.confirmationsUpdated 2)] := by
    decide +kernel
  simp only [known, Option.all_some, decide_eq_true_eq, List.all_eq_true] at looks
  obtain ⟨live, new, inRange⟩ := looks
  have fits : ∀ x ∈ m.transfers, ∀ c, x.state = .included c → c.blockNumber ≤ 10 →
      (10 : UInt64).toNat - c.blockNumber.toNat + 1 < UInt64.size := fun x hx c included _ => by
    simpa [Transfer.confirmation?_eq_some_iff.2 included] using inRange x hx
  have told := (height_told reachable_busy (by decide +kernel) known live fits).2.2.1 new
  rw [known, Option.map_some, Option.some.injEq] at spoken
  exact ⟨m, known, told.1, spoken ▸ told.2⟩

end Session
end WalletHub
