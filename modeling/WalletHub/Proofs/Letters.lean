import WalletHub.Proofs.Engines

/-!
# What a turn tells the audience

Handlings do not number events (`Hub.Moved`); a turn numbers all of its notices at its end. So a
turn tells events first, numbered from the last one on without a gap, and after them what its
command is to tell the audience besides, if anything (`Command.letters`). Nothing of that depends
on whether the command succeeds.

* `speaks_process`: one command.
* `speaks_step`: a command with the callbacks that engines raise meanwhile.
-/
namespace WalletHub

def Notification.event? : Notification → Option Event
  | .event e => some e
  | _ => none

/-- What a command tells the audience besides events. -/
def Command.letters : Command → List Notification
  | .register x => [.register x]
  | .remove name => [.remove name]
  | .flush => [.barrier]
  | .shutdown => [.shutdown]
  | .callback .. | .request _ | .answered .. => []

/-- A turn of `h` that tells events, numbered from the last one of `h` on, and then `letters`. -/
def Turn.Speaks (h : Hub) (letters : List Notification) (t : Turn) : Prop :=
  ∃ es : List Event, t.mail = es.map .event ++ letters ∧
    es.map (·.sequence) = List.range' (h.counters.events + 1) es.length ∧
    t.hub.counters.events = h.counters.events + es.length

namespace Hub

variable {h : Hub}

theorem sequences_numbered (now : Timestamp) (last : Nat) (ns : List Notice) :
    (numbered now last ns).map (·.sequence) = List.range' (last + 1) ns.length := by
  induction ns generalizing last with
  | nil => rfl
  | cons n ns ih => rw [numbered, List.map_cons, ih, List.length_cons, List.range'_succ]

theorem length_numbered (now : Timestamp) (last : Nat) (ns : List Notice) :
    (numbered now last ns).length = ns.length := by
  have hlength := congrArg List.length (sequences_numbered now last ns)
  simpa using hlength

/-- Numbering goes on from where `h` stopped. -/
theorem speaks_emit {g : Hub} (hg : g.counters.events = h.counters.events) {ns : List Notice}
    {t : Turn} {letters : List Notification} (hhub : t.hub = (g.emit ns).1)
    (hmail : t.mail = (g.emit ns).2.map .event ++ letters) : t.Speaks h letters := by
  refine ⟨(g.emit ns).2, hmail, ?_, ?_⟩
  · rw [emit, sequences_numbered, length_numbered, hg]
  · rw [hhub, emit, length_numbered, ← hg]
    rfl

/-! ## Commands -/

theorem speaks_conclude {r : Handling} (hr : r.hub.counters.events = h.counters.events)
    (a : Option (Except HubError Answer)) : (conclude r a).Speaks h [] :=
  speaks_emit hr rfl (List.append_nil _).symm

/-- A hub that halts says nothing, and has counted nothing. -/
theorem speaks_halt (h : Hub) (r : Handling) : (halt h r).Speaks h [] := ⟨[], rfl, rfl, rfl⟩

theorem events_discard (c : Counters) (e : HubError) : (c.discard e).events = c.events := by
  cases e <;> rfl

theorem speaks_concludeCallback {r : Handling} (hr : r.hub.counters.events = h.counters.events) :
    (concludeCallback h r).Speaks h [] := by
  unfold concludeCallback
  split
  · exact speaks_conclude hr _
  · split
    · exact speaks_halt h r
    · split
      · exact speaks_conclude ((events_discard _ _).trans hr) _
      · exact speaks_conclude hr _

theorem speaks_concludeRequest {r : Handling} (hr : r.hub.counters.events = h.counters.events) :
    (concludeRequest h r).Speaks h [] := by
  unfold concludeRequest
  split
  · exact speaks_conclude hr _
  · split
    · exact speaks_halt h r
    · split
      · exact speaks_conclude hr _
      · refine speaks_conclude ?_ _
        exact hr
      · exact speaks_conclude hr _

/-- **Turns.** Whatever comes of a command, its turn tells events in their order, and then what the
command is to tell besides. -/
theorem speaks_process (h : Hub) (c : Command) : (h.process c).Speaks h c.letters := by
  cases c with
  | callback b cb => exact speaks_concludeCallback (moves_onCallback _ b cb).moved.events
  | request r => exact speaks_concludeRequest (moves_onRequest False _ r).moved.events
  | answered q result =>
    refine ⟨[], rfl, rfl, ?_⟩
    simp only [process, onAnswered]
    split
    · rename_i e he
      exact (moved_announceResult trivial he q.manager q.id q.request result).events
    · rfl
  | register x => exact ⟨[], rfl, rfl, rfl⟩
  | remove name => exact ⟨[], rfl, rfl, rfl⟩
  | flush => exact ⟨[], rfl, rfl, rfl⟩
  | shutdown =>
    let counted := h.count fun c => { c with commands := c.commands + 1 }
    have hg : counted.teardown.1.counters.events = h.counters.events :=
      (moved_teardown False counted).events
    exact speaks_emit hg rfl rfl

/-- What is told in a row is numbered in a row. -/
theorem speaks_follow {t : Turn} (ht : t.Speaks h []) (c : Backend × EngineCallback) :
    (t.follow c).Speaks h [] := by
  unfold Turn.follow
  split
  · obtain ⟨es, hmail, hseq, hcount⟩ := ht
    obtain ⟨es', hmail', hseq', hcount'⟩ := speaks_process t.hub (.callback c.1 c.2)
    refine ⟨es ++ es', ?_, ?_, ?_⟩
    · show t.mail ++ (t.hub.process (.callback c.1 c.2)).mail = _
      rw [hmail, hmail', List.map_append, Command.letters]
      simp only [List.append_nil]
    · rw [List.map_append, hseq, hseq', hcount, Nat.add_right_comm, List.range'_append_1,
        List.length_append]
    · show (t.hub.process (.callback c.1 c.2)).hub.counters.events = _
      rw [hcount', hcount, List.length_append, Nat.add_assoc]
  · exact ht

theorem speaks_step (h : Hub) (c : Command) : (h.step c).Speaks h c.letters := by
  have row : ∀ (cs : List (Backend × EngineCallback)) (t : Turn), t.Speaks h [] →
      (cs.foldl Turn.follow t).Speaks h [] := by
    intro cs
    induction cs with
    | nil => exact fun _ ht => ht
    | cons c cs ih => exact fun t ht => ih _ (speaks_follow ht c)
  have first := speaks_process h c
  cases c with
  | callback | request => exact row _ _ first
  -- these make no engine raise anything
  | answered | register | remove | flush | shutdown => exact first

end Hub
end WalletHub
