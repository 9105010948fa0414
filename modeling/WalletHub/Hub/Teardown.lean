import WalletHub.Hub.State
import WalletHub.Reaction.Manager

/-!
# Teardown

The end of the hub: every manager ever made is let go of by its engine, and every manager that is
not deleted yet is announced as deleted, with all it holds.
-/
namespace WalletHub.Hub

/-- Lets the engine of a manager go of it. -/
def release (h : Hub) (m : ManagerHandle) : Hub :=
  match h.engine? m.backend with
  | some e => h.withEngine m.backend (e.releaseManager m.raw)
  | none => h

/-- The notices of a manager's end, unless it ended before. -/
def parting (m : Manager) : List Notice := if m.state = .deleted then [] else m.retirement

/-- The hub without records, and the notices of their end. -/
def teardown (h : Hub) : Hub × List Notice :=
  let (_, managers) := h.tree.managers.drain
  let h := managers.foldl (fun h m => h.release m.1) h
  ({ h with tree := .empty }, managers.flatMap (fun m => parting m.2) ++ [.hub .deleted])

end WalletHub.Hub
