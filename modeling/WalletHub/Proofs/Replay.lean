import WalletHub.Proofs.Replay.Echo
import WalletHub.Proofs.Run

/-!
# The events tell everything

Whoever hears all events of a hub, from its beginning and in order, knows its records: which
managers, wallets and transfers there are, in the order of their creation, and the state, the
height, the balance and the fee basis of each. It does not matter by which of the many ways a record
came to change, be it a callback, a request, a refresh or the end of the record that holds it.

* `replay_mirrors`: the records of a running hub are those that its notices tell.
-/
namespace WalletHub

/-- What a listener knows of records `t` who heard `ns`. -/
structure Tree.Retold (t : Tree) (ns : List Notice) : Prop where
  mirrors : t.Mirrors (Replica.replay ns)
  echoes : ns.filter (·.isEcho) = ns.filterMap (·.echo?)

theorem Tree.Retold.hear {made : ManagerHandle → Prop} {guarded : Prop} {t t' : Tree}
    {ns ms : List Notice} (h : t.Retold ns) (hc : Tree.Change made guarded t ms t') :
    t'.Retold (ns ++ ms) := by
  refine ⟨?_, ?_⟩
  · rw [Replica.replay, List.foldl_append]
    exact h.mirrors.hear hc
  · rw [List.filter_append, List.filterMap_append, h.echoes, hc.echoes]

namespace Session

theorem Reachable.retold {s : Session} (hs : s.Reachable) (running : s.life = .running) :
    s.hub.tree.Retold s.notices := by
  revert running
  refine Reachable.invariant (P := fun s => s.life = .running → s.hub.tree.Retold s.notices)
    (fun _ _ _ _ _ => ⟨.empty, rfl⟩) (fun s c _ running houtcome hp hrun => ?_)
    (fun s h htree hp hrun => htree ▸ hp hrun) hs
  rw [take, notices_after]
  cases houtcome with
  | onward _ told =>
    exact told.told (P := fun _ => True) (Q := fun ns t => t.Retold ns) (fun _ _ => trivial)
      (fun hc _ hq => hq.hear hc) trivial (hp running)
  | ending life => rw [take, after, life] at hrun; cases hrun
  | halting life => rw [take, after, life] at hrun; cases hrun

/-- **Replay.** In every run of a hub that goes on, the notices retold from nothing give the
records: the managers in the order of their creation with their states and heights, their wallets
with their balances and fee bases, and their transfers with their states. The echoes are those of
the notices they repeat, in the same order, and echoes alone list the same managers, wallets and
transfers. -/
theorem replay_mirrors {s : Session} (hs : s.Reachable) (running : s.life = .running) :
    s.hub.tree.Mirrors (Replica.replay s.notices) ∧
      s.notices.filter (·.isEcho) = s.notices.filterMap (·.echo?) ∧
      s.hub.tree.Lists (Replica.replay (s.notices.filterMap (·.original?))) := by
  have h := hs.retold running
  exact ⟨h.mirrors, h.echoes, h.mirrors.lists (sameMembers_replay h.echoes)⟩

/-- What is left of a wallet that was deleted and came again. -/
theorem replay_mirrors_tour :
    (tour.hub.tree.Mirrors (Replica.replay tour.notices) ∧
      tour.notices.filter (·.isEcho) = tour.notices.filterMap (·.echo?) ∧
      tour.hub.tree.Lists (Replica.replay (tour.notices.filterMap (·.original?)))) ∧
      ((Replica.replay tour.notices).entries.map fun m => m.2.wallets.entries.map fun w =>
        w.2.transfers.entries.map fun t => t.2.name) = [[["signed"]]] :=
  ⟨replay_mirrors reachable_tour (by decide +kernel), by decide +kernel⟩

end Session
end WalletHub
