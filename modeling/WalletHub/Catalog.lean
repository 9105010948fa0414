import WalletHub.Table

/-!
# Catalogs

How a registry is kept: its records in a table, which knows no order, and beside it the row of their
handles, oldest first. Every operation goes to both of them. Whoever asks for the records in order
is led along the row, and a handle of the row that has no record is passed over without a word.
-/
namespace WalletHub

structure Catalog (κ α : Type) where
  records : Table κ α
  /-- Handles, oldest first. -/
  order : List κ
  deriving DecidableEq, Repr

namespace Catalog

variable {κ α σ : Type} [DecidableEq κ]

def empty : Catalog κ α := ⟨.empty, []⟩

def size (c : Catalog κ α) : Nat := c.records.size

def isEmpty (c : Catalog κ α) : Bool := c.size == 0

/-- The record under a handle. -/
def find? (c : Catalog κ α) (h : κ) : Option α := c.records.get? h

def contains (c : Catalog κ α) (h : κ) : Bool := (c.find? h).isSome

/-- Handles, oldest first. -/
def handles (c : Catalog κ α) : List κ := c.order

/-- Handles with their records, oldest first. -/
def entries (c : Catalog κ α) : List (κ × α) := c.records.along c.order

/-- The catalog with a record under a handle that has none. -/
def enter (c : Catalog κ α) (h : κ) (a : α) : Catalog κ α :=
  ⟨c.records.put h a, c.order ++ [h]⟩

/-- The record under a handle, made if there was none, and whether it was made. -/
def findOrCreate (c : Catalog κ α) (h : κ) (make : α) : Catalog κ α × α × Bool :=
  match c.find? h with
  | some a => (c, a, false)
  | none => (c.enter h make, make, true)

/-- The same for a record whose making can fail. The making is not tried when there is a record. -/
def tryFindOrCreate {ε : Type} (c : Catalog κ α) (h : κ) (make : Except ε α) :
    Catalog κ α × Except ε (α × Bool) :=
  match c.find? h with
  | some a => (c, .ok (a, false))
  | none =>
    match make with
    | .error e => (c, .error e)
    | .ok a => (c.enter h a, .ok (a, true))

/-- The catalog with the record under a handle changed; without one, nothing changes. -/
def modify (c : Catalog κ α) (h : κ) (f : α → α) : Catalog κ α :=
  match c.find? h with
  | some a => { c with records := c.records.put h (f a) }
  | none => c

/-- The catalog without the record under a handle, and that record. -/
def remove (c : Catalog κ α) (h : κ) : Catalog κ α × Option α :=
  match c.find? h with
  | some a => (⟨c.records.erase h, c.order.filter (· ≠ h)⟩, some a)
  | none => (c, none)

/-- Shows records to a visitor, who may change them and remembers what was seen. -/
def visitIn (visit : σ → κ → α → σ × α) : List κ → Table κ α → σ → Table κ α × σ
  | [], t, s => (t, s)
  | h :: rest, t, s =>
    match t.get? h with
    | some a => visitIn visit rest (t.put h (visit s h a).2) (visit s h a).1
    | none => visitIn visit rest t s

/-- Shows every record to a visitor, oldest first. -/
def visitAll (c : Catalog κ α) (visit : σ → κ → α → σ × α) (s : σ) : Catalog κ α × σ :=
  let (records, s) := visitIn visit c.order c.records s
  ({ c with records := records }, s)

/-- Takes records out of a table. -/
def takeIn : List κ → Table κ α → Table κ α × List (κ × α)
  | [], t => (t, [])
  | h :: rest, t =>
    match t.get? h with
    | some a =>
      let (t, taken) := takeIn rest (t.erase h)
      (t, (h, a) :: taken)
    | none => takeIn rest t

/-- Takes out every record, oldest first. -/
def drain (c : Catalog κ α) : Catalog κ α × List (κ × α) :=
  let (records, taken) := takeIn c.order c.records
  (⟨records, []⟩, taken)

end Catalog
end WalletHub
