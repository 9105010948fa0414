/-!
# Registries

A registry holds records under handles, in the order in which they were added. `findOrCreate` is
the only way in: it adds a record for a handle that has none and says whether it did, so that a
creation announced twice is noticed the second time. A record is never replaced.
-/
namespace WalletHub

/-- Records under handles, oldest first. -/
structure Registry (κ α : Type) where
  entries : List (κ × α)
  deriving DecidableEq, Repr

namespace Registry

variable {κ α : Type} [DecidableEq κ]

def empty : Registry κ α := ⟨[]⟩

/-- Handles, oldest first. -/
def handles (r : Registry κ α) : List κ := r.entries.map Prod.fst

/-- Records, oldest first. -/
def records (r : Registry κ α) : List α := r.entries.map Prod.snd

def size (r : Registry κ α) : Nat := r.entries.length

def isEmpty (r : Registry κ α) : Bool := r.entries.isEmpty

/-- The record under a handle in a list of entries. -/
def findIn (h : κ) : List (κ × α) → Option α
  | [] => none
  | (h', a) :: rest => if h' = h then some a else findIn h rest

/-- The entries with the record under a handle changed. -/
def modifyIn (h : κ) (f : α → α) : List (κ × α) → List (κ × α)
  | [] => []
  | (h', a) :: rest => if h' = h then (h', f a) :: rest else (h', a) :: modifyIn h f rest

/-- The record under a handle. -/
def find? (r : Registry κ α) (h : κ) : Option α := findIn h r.entries

def contains (r : Registry κ α) (h : κ) : Bool := (r.find? h).isSome

/-- The registry with the record under a handle changed; without one, nothing changes. -/
def modify (r : Registry κ α) (h : κ) (f : α → α) : Registry κ α := ⟨modifyIn h f r.entries⟩

/-- The record under a handle, added at the end if there was none, and whether it was added. -/
def findOrCreate (r : Registry κ α) (h : κ) (make : α) : Registry κ α × α × Bool :=
  match r.find? h with
  | some a => (r, a, false)
  | none => (⟨r.entries ++ [(h, make)]⟩, make, true)

/-- The same for a record whose making can fail; nothing is added then. The making is not tried
when there is a record. -/
def tryFindOrCreate {ε : Type} (r : Registry κ α) (h : κ) (make : Except ε α) :
    Except ε (Registry κ α × α × Bool) :=
  match r.find? h with
  | some a => .ok (r, a, false)
  | none => make.map fun a => (⟨r.entries ++ [(h, a)]⟩, a, true)

/-- The registry without the record under a handle, and that record. -/
def remove (r : Registry κ α) (h : κ) : Registry κ α × Option α :=
  (⟨r.entries.filter fun e => e.1 ≠ h⟩, r.find? h)

/-- The registry without the record under a handle. -/
def erase (r : Registry κ α) (h : κ) : Registry κ α := (r.remove h).1

/-- Shows entries to a visitor, who may change the records and remembers what was seen. -/
def visitIn {σ : Type} (visit : σ → κ → α → σ × α) : List (κ × α) → σ → List (κ × α) × σ
  | [], s => ([], s)
  | (h, a) :: rest, s =>
    let (seen, s') := visitIn visit rest (visit s h a).1
    ((h, (visit s h a).2) :: seen, s')

/-- Shows every record to a visitor, oldest first. -/
def visitAll {σ : Type} (r : Registry κ α) (visit : σ → κ → α → σ × α) (s : σ) :
    Registry κ α × σ :=
  let (entries, s) := visitIn visit r.entries s
  (⟨entries⟩, s)

/-- The empty registry, and all entries, oldest first. -/
def drain (r : Registry κ α) : Registry κ α × List (κ × α) := (empty, r.entries)

theorem findIn_append (h : κ) (xs ys : List (κ × α)) :
    findIn h (xs ++ ys) = (findIn h xs).or (findIn h ys) := by
  induction xs with
  | nil => rfl
  | cons e rest ih =>
    obtain ⟨h', a⟩ := e
    by_cases he : h' = h <;> simp [findIn, he, ih]

theorem findIn_modifyIn (h h' : κ) (f : α → α) (xs : List (κ × α)) :
    findIn h' (modifyIn h f xs) = if h = h' then (findIn h xs).map f else findIn h' xs := by
  induction xs with
  | nil => simp [modifyIn, findIn]
  | cons e rest ih =>
    obtain ⟨h₀, a⟩ := e
    by_cases h₀h : h₀ = h
    · subst h₀h
      by_cases e' : h₀ = h' <;> simp [modifyIn, findIn, e']
    · by_cases e' : h = h'
      · subst e'; simp [modifyIn, findIn, h₀h, ih]
      · simp [modifyIn, findIn, h₀h, e', ih]

theorem map_fst_modifyIn (h : κ) (f : α → α) (xs : List (κ × α)) :
    (modifyIn h f xs).map Prod.fst = xs.map Prod.fst := by
  induction xs with
  | nil => rfl
  | cons e rest ih =>
    obtain ⟨h₀, a⟩ := e
    by_cases h₀h : h₀ = h <;> simp [modifyIn, h₀h, ih]

theorem findIn_eq_none_iff (h : κ) (xs : List (κ × α)) :
    findIn h xs = none ↔ h ∉ xs.map Prod.fst := by
  induction xs with
  | nil => simp [findIn]
  | cons e rest ih =>
    obtain ⟨h₀, a⟩ := e
    by_cases h₀h : h₀ = h
    · simp [findIn, h₀h]
    · simp [findIn, h₀h, ih, Ne.symm h₀h]

theorem find?_modify (r : Registry κ α) (h h' : κ) (f : α → α) :
    (r.modify h f).find? h' = if h = h' then (r.find? h).map f else r.find? h' :=
  findIn_modifyIn h h' f r.entries

@[simp] theorem handles_modify (r : Registry κ α) (h : κ) (f : α → α) :
    (r.modify h f).handles = r.handles := map_fst_modifyIn h f r.entries

theorem find?_eq_none_iff (r : Registry κ α) (h : κ) : r.find? h = none ↔ h ∉ r.handles :=
  findIn_eq_none_iff h r.entries

end Registry
end WalletHub
