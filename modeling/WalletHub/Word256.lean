import WalletHub.Text.Numeral

/-!
# 256-bit words

Unsigned numbers below `2 ^ 256`, with arithmetic that refuses or saturates and never wraps.
-/
namespace WalletHub

/-- The number of words, two to the 256. -/
def Word256.size : Nat := Nat.pow 2 256

/-- An unsigned number of 256 bits. -/
structure Word256 where
  toNat : Nat
  lt : toNat < Word256.size
  deriving DecidableEq

namespace Word256

/-- The number as a word, if it has at most 256 bits. -/
def ofNat? (n : Nat) : Option Word256 := if h : n < size then some ⟨n, h⟩ else none

/-- The word nearest to the number. -/
def saturate (n : Nat) : Word256 := if h : n < size then ⟨n, h⟩ else ⟨size - 1, by decide⟩

/-- The word zero. -/
def zero : Word256 := ⟨0, by decide⟩

/-- A 64-bit word, widened. -/
def ofUInt64 (n : UInt64) : Word256 :=
  ⟨n.toNat, Nat.lt_trans n.toNat_lt (by decide)⟩

/-- A 32-bit word, widened. -/
def ofUInt32 (n : UInt32) : Word256 :=
  ⟨n.toNat, Nat.lt_trans n.toNat_lt (by decide)⟩

/-- The sum, unless it has more than 256 bits. -/
def add? (a b : Word256) : Option Word256 := ofNat? (a.toNat + b.toNat)

/-- The difference, unless it is negative. -/
def sub? (a b : Word256) : Option Word256 :=
  if b.toNat ≤ a.toNat then ofNat? (a.toNat - b.toNat) else none

/-- The product, unless it has more than 256 bits. -/
def mul? (a b : Word256) : Option Word256 := ofNat? (a.toNat * b.toNat)

/-- The quotient without its broken part, unless the divisor is zero. -/
def div? (a b : Word256) : Option Word256 :=
  if b.toNat = 0 then none else ofNat? (a.toNat / b.toNat)

/-- Decimal digits. -/
def text (w : Word256) : String := Text.natText w.toNat

/-- Hexadecimal digits behind `0x`, without leading zeros. -/
def hex (w : Word256) : String := Text.hexText w.toNat

theorem ext {a b : Word256} (h : a.toNat = b.toNat) : a = b := by
  cases a; cases b; cases h; rfl

@[simp] theorem ofNat?_toNat (w : Word256) : ofNat? w.toNat = some w :=
  dif_pos w.lt

theorem ofNat?_eq_some {n : Nat} {w : Word256} : ofNat? n = some w ↔ w.toNat = n := by
  unfold ofNat?
  split
  · rename_i h
    constructor
    · intro e; cases e; rfl
    · intro e; exact congrArg some (ext e.symm)
  · rename_i h
    constructor
    · intro e; cases e
    · intro e; exact absurd w.lt (by omega)

theorem add?_eq_some_iff {a b c : Word256} : a.add? b = some c ↔ c.toNat = a.toNat + b.toNat :=
  ofNat?_eq_some

theorem sub?_eq_some_iff {a b c : Word256} :
    a.sub? b = some c ↔ b.toNat ≤ a.toNat ∧ c.toNat = a.toNat - b.toNat := by
  unfold sub?
  split
  · rename_i h; simp [ofNat?_eq_some, h]
  · rename_i h; simp [h]

theorem mul?_eq_some_iff {a b c : Word256} : a.mul? b = some c ↔ c.toNat = a.toNat * b.toNat :=
  ofNat?_eq_some

theorem div?_eq_some_iff {a b c : Word256} :
    a.div? b = some c ↔ b.toNat ≠ 0 ∧ c.toNat = a.toNat / b.toNat := by
  unfold div?
  split
  · rename_i h; simp [h]
  · rename_i h; simp [ofNat?_eq_some, h]

/-- Saturating keeps every number of 256 bits and turns the others into the greatest word. -/
theorem toNat_saturate (n : Nat) : (saturate n).toNat = min n (size - 1) := by
  unfold saturate
  split <;> simp only <;> omega

theorem toNat_saturate_of_lt {n : Nat} (h : n < size) : (saturate n).toNat = n := by
  rw [toNat_saturate]
  omega

/-- Saturating keeps numbers in order. -/
theorem toNat_saturate_mono {m n : Nat} (h : m ≤ n) : (saturate m).toNat ≤ (saturate n).toNat := by
  rw [toNat_saturate, toNat_saturate]
  omega

end Word256
end WalletHub
