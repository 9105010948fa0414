import WalletHub.Error
import WalletHub.Event

/-!
# Reactions

What a callback does to a record: the record afterwards, the notices of what was done, in order,
and the fault if nothing more came of it. A record's reaction never looks beyond the record and
what its engine says of it, so records react independently of each other.
-/
namespace WalletHub

/-- Why nothing came of a callback or a request. -/
inductive Fault where
  | error (cause : HubError)
  | violation (cause : PreconditionError)
  /-- A number of confirmations that 64 bits cannot hold. -/
  | overflow
  deriving DecidableEq

structure Reaction (α : Type) where
  /-- The record afterwards. -/
  value : α
  /-- What was done, in order. -/
  notices : List Notice
  /-- How many values of the engine could not be read on the way. -/
  unread : Nat
  fault : Option Fault

namespace Reaction

variable {α β : Type}

/-- Nothing happens. -/
def still (a : α) : Reaction α := ⟨a, [], 0, none⟩

/-- Something happens and is announced. -/
def announce (a : α) (notices : List Notice) : Reaction α := ⟨a, notices, 0, none⟩

/-- Nothing happens, because of an error. -/
def discard (a : α) (e : HubError) : Reaction α := ⟨a, [], 0, some (.error e)⟩

/-- The reaction of something that holds the record. -/
def map (f : α → β) (r : Reaction α) : Reaction β := ⟨f r.value, r.notices, r.unread, r.fault⟩

/-- One reaction after the other; a fault ends the row. -/
def andThen (r : Reaction α) (f : α → Reaction α) : Reaction α :=
  match r.fault with
  | some _ => r
  | none =>
    let s := f r.value
    ⟨s.value, r.notices ++ s.notices, r.unread + s.unread, s.fault⟩

@[simp] theorem still_andThen (a : α) (f : α → Reaction α) : (still a).andThen f = f a := by
  simp [still, andThen]

@[simp] theorem value_map (f : α → β) (r : Reaction α) : (r.map f).value = f r.value := rfl

@[simp] theorem notices_map (f : α → β) (r : Reaction α) : (r.map f).notices = r.notices := rfl

end Reaction
end WalletHub
