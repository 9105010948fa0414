import Mathlib.Data.List.Perm.Subperm
import WalletHub.Agenda
import WalletHub.Intake

/-!
# What waits

Two things hold work back: an intake, in which items wait to be received, and an agenda, on which
tasks wait for their turn or for their moment. Whatever is done to them, nothing comes in but what
is put there, and nothing gets lost but what is sent to an intake that is closed (`Grows`). Only the
front of the queue is received (`Intake.pending_receive`), and only the task in front is taken
(`Agenda.tasks_take`).
-/
namespace WalletHub

theorem subperm_filterMap {α β : Type} (f : α → Option β) {xs ys : List α} (h : xs.Subperm ys) :
    (xs.filterMap f).Subperm (ys.filterMap f) := by
  obtain ⟨zs, perm, sublist⟩ := h
  exact ⟨zs.filterMap f, perm.filterMap f, sublist.filterMap f⟩

/-- `ys` is `xs` with new items, in any order. Nothing else comes in; if `kept`, nothing is lost. -/
structure Grows {α : Type} (kept : Prop) (xs new ys : List α) : Prop where
  within : ys.Subperm (new ++ xs)
  whole : kept → ys.Perm (new ++ xs)

namespace Grows

variable {α : Type} {kept : Prop} {xs ys zs new more : List α}

theorem of_perm (h : ys.Perm (new ++ xs)) : Grows kept xs new ys := ⟨h.subperm, fun _ => h⟩

theorem refl (xs : List α) : Grows kept xs [] xs := of_perm (.refl _)

/-- What is new is refused. -/
theorem refused (lost : ¬kept) : Grows kept xs new xs :=
  ⟨(List.sublist_append_right ..).subperm, fun hk => absurd hk lost⟩

theorem mono {kept' : Prop} (h : Grows kept xs new ys) (hk : kept' → kept) :
    Grows kept' xs new ys := ⟨h.within, fun hk' => h.whole (hk hk')⟩

theorem trans (hx : Grows kept xs new ys) (hy : Grows kept ys more zs) :
    Grows kept xs (more ++ new) zs := by
  refine ⟨?_, fun hk => ?_⟩
  · rw [List.append_assoc]
    exact hy.within.trans ((List.subperm_append_left more).2 hx.within)
  · rw [List.append_assoc]
    exact (hy.whole hk).trans ((hx.whole hk).append_left more)

theorem filterMap {β : Type} (f : α → Option β) (h : Grows kept xs new ys) :
    Grows kept (xs.filterMap f) (new.filterMap f) (ys.filterMap f) := by
  refine ⟨?_, fun hk => ?_⟩
  · rw [← List.filterMap_append]
    exact subperm_filterMap f h.within
  · rw [← List.filterMap_append]
    exact (h.whole hk).filterMap f

theorem map {β : Type} (f : α → β) (h : Grows kept xs new ys) :
    Grows kept (xs.map f) (new.map f) (ys.map f) := by
  have hmap := h.filterMap (some ∘ f)
  simp only [List.filterMap_eq_map] at hmap
  exact hmap

theorem append_left (ws : List α) (h : Grows kept xs new ys) :
    Grows kept (ws ++ xs) new (ws ++ ys) := by
  have moved : (ws ++ (new ++ xs)).Perm (new ++ (ws ++ xs)) := List.perm_append_comm_assoc ..
  exact ⟨((List.subperm_append_left ws).2 h.within).trans moved.subperm,
    fun hk => ((h.whole hk).append_left ws).trans moved⟩

theorem append_right (ws : List α) (h : Grows kept xs new ys) :
    Grows kept (xs ++ ws) new (ys ++ ws) := by
  refine ⟨?_, fun hk => ?_⟩
  · rw [← List.append_assoc]
    exact (List.subperm_append_right ws).2 h.within
  · rw [← List.append_assoc]
    exact (h.whole hk).append_right ws

end Grows

/-! ## Intakes -/

namespace Intake

variable {α : Type} {q q' : Intake α} {a : α}

/-- `q'` is `q` with new items, all of them if `q` is open. -/
structure Takes (q : Intake α) (new : List α) (q' : Intake α) : Prop where
  closed : q'.closed = q.closed
  pending : Grows (q.closed = false) q.pending new q'.pending

theorem takes_refused (closed : q.closed = true) (new : List α) : q.Takes new q :=
  ⟨rfl, .refused fun hopen => by rw [closed] at hopen; cases hopen⟩

theorem takes_enter (q : Intake α) (s : Sender α) : q.Takes [s.item] (q.enter s) := by
  unfold enter
  split
  · refine ⟨rfl, .of_perm ?_⟩
    simp only [pending, List.append_assoc, List.singleton_append]
    exact List.perm_middle
  · refine ⟨rfl, .of_perm ?_⟩
    have waits : ({ q with waiting := q.waiting ++ [s] } : Intake α).pending =
        q.queue ++ q.granted.map Sender.item ++ q.waiting.map Sender.item ++
          s.item :: q.overflow := by
      simp [pending]
    rw [waits]
    exact List.perm_middle

theorem takes_overflow (q : Intake α) (a : α) (draining : Bool) (feeders : Nat) :
    q.Takes [a] { q with
      overflow := q.overflow ++ [a]
      draining := draining
      feeders := feeders } := by
  refine ⟨rfl, .of_perm ?_⟩
  simp only [pending, ← List.append_assoc]
  exact List.perm_append_singleton ..

theorem takes_queue (q : Intake α) (a : α) : q.Takes [a] { q with queue := q.queue ++ [a] } := by
  refine ⟨rfl, .of_perm ?_⟩
  simp only [pending, List.append_assoc, List.singleton_append]
  exact List.perm_middle

theorem takes_send (q : Intake α) (a : α) : q.Takes [a] (q.send a).1 := by
  unfold send
  split
  · rename_i closed; exact takes_refused closed _
  · split
    · exact q.takes_overflow a _ _
    · split
      · exact q.takes_queue a
      · exact q.takes_overflow a _ _

theorem takes_sendWaiting (q : Intake α) (a : α) : q.Takes [a] (q.sendWaiting a).1 := by
  unfold sendWaiting
  split
  · rename_i closed; exact takes_refused closed _
  · split
    · exact q.takes_overflow a _ _
    · exact q.takes_enter (.caller a)

/-- What can wait for nobody may be lost. -/
theorem takes_trySend (q : Intake α) (a : α) :
    q.Takes (if (q.trySend a).2 then [a] else []) (q.trySend a).1 := by
  unfold trySend
  split
  · exact ⟨rfl, .refl _⟩
  · split
    · exact q.takes_overflow a _ _
    · split
      · exact q.takes_queue a
      · exact ⟨rfl, .refl _⟩

theorem takes_sendPast (q : Intake α) (a : α) : q.Takes [a] (q.sendPast a).1 := by
  unfold sendPast
  split
  · rename_i closed; exact takes_refused closed _
  · exact q.takes_enter (.worker a)

/-- A feeder moves items on, and drops them when the queue is closed. -/
theorem takes_feed (hq : q.feed = some q') : q.Takes [] q' := by
  unfold feed at hq
  split at hq
  · cases hq
  · split at hq
    · rename_i closed
      cases hq
      refine ⟨rfl, ?_, fun hopen => by rw [closed] at hopen; cases hopen⟩
      simp only [pending, List.append_nil, List.nil_append]
      exact (List.sublist_append_left ..).subperm
    · rename_i hopen
      split at hq
      · cases hq
        exact ⟨rfl, .refl _⟩
      · rename_i a rest overflow
        dsimp only at hq
        split at hq
        · cases hq
          have first := takes_queue { q with overflow := rest } a
          refine ⟨rfl, .of_perm ((first.pending.whole (Bool.eq_false_iff.2 hopen)).trans ?_)⟩
          simp only [pending, overflow, List.singleton_append, List.nil_append]
          exact List.perm_middle.symm
        · cases hq
          refine ⟨rfl, .of_perm (.of_eq ?_)⟩
          simp [pending, overflow, Sender.item]

theorem pending_receive (hq : q.receive = some (a, q')) :
    q.pending = a :: q'.pending ∧ q'.closed = q.closed := by
  unfold receive at hq
  split at hq
  · cases hq
  · rename_i queue
    cases hq
    unfold grant
    split <;> rename_i waiting <;> simp_all [pending]

/-- Room that was kept is made use of. -/
theorem takes_redeem {kind : Sender α → Bool} (hq : q.redeem kind = some q') : q.Takes [] q' := by
  unfold redeem at hq
  obtain ⟨s, hs, rfl⟩ := Option.map_eq_some_iff.1 hq
  obtain ⟨hkind, before, after, granted, hbefore⟩ := List.find?_eq_some_iff_append.1 hs
  have erased : q.granted.eraseP kind = before ++ after := by
    rw [granted, List.eraseP_append_right _ (by simpa using hbefore),
      List.eraseP_cons_of_pos hkind]
  refine ⟨rfl, .of_perm ?_⟩
  simp only [pending, erased]
  simp only [granted, List.map_append, List.map_cons, List.append_assoc, List.cons_append,
    List.nil_append]
  exact List.perm_middle.symm.append_left _

end Intake

/-! ## Agendas -/

namespace Agenda

variable {α : Type} {g g' : Agenda α} {a : α}

/-- Tasks that wait for their turn or their moment. -/
def tasks (g : Agenda α) : List α := g.now ++ g.aside ++ g.later.map (·.task)

theorem tasks_add (g : Agenda α) (a : α) : (g.add a).tasks.Perm (a :: g.tasks) := by
  simp only [tasks, add, List.append_assoc, List.singleton_append]
  exact List.perm_middle

theorem tasks_addAll {β : Type} (f : β → α) (bs : List β) (g : Agenda α) :
    (bs.foldl (fun g b => g.add (f b)) g).tasks.Perm (bs.map f ++ g.tasks) := by
  induction bs generalizing g with
  | nil => exact .refl _
  | cons b bs ih =>
    rw [List.foldl_cons]
    exact ((ih _).trans ((g.tasks_add (f b)).append_left _)).trans List.perm_middle

theorem underway_addAll {β : Type} (f : β → α) (bs : List β) (g : Agenda α) :
    (bs.foldl (fun g b => g.add (f b)) g).underway = g.underway := by
  induction bs generalizing g with
  | nil => rfl
  | cons b bs ih =>
    rw [List.foldl_cons, ih]
    rfl

theorem tasks_setAside (g : Agenda α) (a : α) : (g.setAside a).tasks.Perm (a :: g.tasks) := by
  simp only [tasks, setAside, List.append_assoc, List.cons_append]
  exact List.perm_middle

theorem tasks_putOff (g : Agenda α) (wait : Nat) (a : α) :
    (g.putOff wait a).tasks.Perm (a :: g.tasks) := by
  simp only [tasks, putOff, List.map_append, List.map_cons, List.map_nil, ← List.append_assoc]
  exact List.perm_append_singleton ..

/-- What is taken was in the middle of its turn, or waited for it. -/
theorem tasks_take {used : Nat} (hg : g.take = some (a, used, g')) :
    g'.underway = none ∧
      (g.underway = some (a, used) ∧ g.tasks = g'.tasks ∨ g.tasks = a :: g'.tasks) := by
  unfold take at hg
  split at hg
  · rename_i underway
    cases hg
    exact ⟨rfl, .inl ⟨underway, rfl⟩⟩
  · rename_i idle now
    split at hg
    · cases hg
      refine ⟨idle, .inr ?_⟩
      simp [tasks, now]
    · cases hg
  · cases hg

theorem tasks_nextRound (g : Agenda α) : g.nextRound.tasks = g.tasks := by simp [tasks, nextRound]

theorem tasks_atMoment (g : Agenda α) (t : Nat) : (g.atMoment t).tasks.Perm g.tasks := by
  simp only [tasks, atMoment, List.partition_eq_filter_filter]
  have parts := (List.filter_append_perm (fun x : Alarm α => decide (x.due ≤ t)) g.later).map
    Alarm.task
  rw [List.map_append] at parts
  rw [List.append_assoc, List.append_assoc, List.append_assoc]
  refine List.Perm.append_left _ ?_
  exact (List.perm_append_comm_assoc ..).trans (parts.append_left _)

end Agenda
end WalletHub
