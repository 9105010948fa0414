/-!
# Tables

Finite maps as lists of pairs, one pair for each key. `get?_put` says what writing does to every
later look-up.
-/
namespace WalletHub

/-- A finite map from `κ` to `α`. -/
structure Table (κ α : Type) where
  pairs : List (κ × α)
  deriving DecidableEq, Repr

namespace Table

variable {κ α : Type} [DecidableEq κ]

def empty : Table κ α := ⟨[]⟩

/-- The value under a key in a list of pairs. -/
def lookupIn (k : κ) : List (κ × α) → Option α
  | [] => none
  | (k', a) :: rest => if k' = k then some a else lookupIn k rest

/-- The pairs with the value under a key replaced, or with a new pair at the end. -/
def putIn (k : κ) (a : α) : List (κ × α) → List (κ × α)
  | [] => [(k, a)]
  | (k', b) :: rest => if k' = k then (k, a) :: rest else (k', b) :: putIn k a rest

/-- The value under a key. -/
def get? (t : Table κ α) (k : κ) : Option α := lookupIn k t.pairs

/-- The table with a value under a key. -/
def put (t : Table κ α) (k : κ) (a : α) : Table κ α := ⟨putIn k a t.pairs⟩

/-- The table without the value under a key. -/
def erase (t : Table κ α) (k : κ) : Table κ α := ⟨t.pairs.filter fun p => p.1 ≠ k⟩

/-- The keys that have a value. -/
def keys (t : Table κ α) : List κ := t.pairs.map Prod.fst

/-- The number of keys that have a value. -/
def size (t : Table κ α) : Nat := t.pairs.length

/-- The values under keys, in the order of the keys; a key without a value is passed over. -/
def along (t : Table κ α) (ks : List κ) : List (κ × α) :=
  ks.filterMap fun k => (t.get? k).map (k, ·)

/-- The count under a key. -/
def count (t : Table κ Nat) (k : κ) : Nat := (t.get? k).getD 0

/-- The table with one more counted under a key. -/
def bump (t : Table κ Nat) (k : κ) : Table κ Nat := t.put k (t.count k + 1)

/-- The sum of all counts in a list of pairs. -/
def sumIn : List (κ × Nat) → Nat
  | [] => 0
  | (_, n) :: rest => n + sumIn rest

/-- The sum of all counts. -/
def total (t : Table κ Nat) : Nat := sumIn t.pairs

theorem lookupIn_putIn (k k' : κ) (a : α) (ps : List (κ × α)) :
    lookupIn k' (putIn k a ps) = if k = k' then some a else lookupIn k' ps := by
  induction ps with
  | nil => simp [putIn, lookupIn]
  | cons p rest ih =>
    obtain ⟨k₀, b⟩ := p
    by_cases h : k₀ = k
    · subst h
      by_cases h' : k₀ = k' <;> simp [putIn, lookupIn, h']
    · by_cases h' : k = k'
      · subst h'; simp [putIn, lookupIn, h, ih]
      · simp [putIn, lookupIn, h, h', ih]

theorem get?_put (t : Table κ α) (k k' : κ) (a : α) :
    (t.put k a).get? k' = if k = k' then some a else t.get? k' :=
  lookupIn_putIn k k' a t.pairs

theorem sumIn_putIn (k : κ) (ps : List (κ × Nat)) :
    sumIn (putIn k ((lookupIn k ps).getD 0 + 1) ps) = sumIn ps + 1 := by
  induction ps with
  | nil => rfl
  | cons p rest ih =>
    obtain ⟨k₀, b⟩ := p
    by_cases h : k₀ = k
    · subst h; simp [putIn, lookupIn, sumIn]; omega
    · simp [putIn, lookupIn, sumIn, h, ih]; omega

/-- Counting once more adds one to the sum of all counts. -/
theorem total_bump (t : Table κ Nat) (k : κ) : (t.bump k).total = t.total + 1 :=
  sumIn_putIn k t.pairs

end Table
end WalletHub
