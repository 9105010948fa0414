import WalletHub.Json.Form
import WalletHub.Json.Number

/-!
# Single precision

Binary floating-point values of 24 significant bits, in exact arithmetic on natural numbers: how a
decimal text is rounded to one, the shortest decimal that reads back as one, and the text with one
decimal place. Reading goes through double precision, as the readers of JSON do that keep 64 bits of
the digits and multiply by a power of ten. It never gives what is no number; only an engine does.
-/
namespace WalletHub

/-- The value `mantissa` times two to the `exponent`. -/
structure Scaled where
  mantissa : Nat
  exponent : Int
  deriving DecidableEq, Repr

/-- A binary format: significant bits, and the least and greatest exponent of a mantissa. -/
structure Precision where
  bits : Nat
  least : Int
  greatest : Int
  deriving DecidableEq, Repr

namespace Precision

def single : Precision := ⟨24, -149, 104⟩
def double : Precision := ⟨53, -1074, 971⟩

end Precision

/-- The quotient rounded to the nearest integer, a half to the even neighbour. -/
def divEven (num den : Nat) : Nat :=
  let q := num / den
  let r := num % den
  if 2 * r > den ∨ (2 * r = den ∧ q % 2 = 1) then q + 1 else q

/-- The exponent of the leading bit of a positive quotient. -/
def leadingExponent (num den : Nat) : Int :=
  let k : Int := (num.log2 : Int) - den.log2
  if num * Nat.pow 2 (-k).toNat ≥ den * Nat.pow 2 k.toNat then k else k - 1

/-- The number of the format nearest to a quotient, a half going to the even mantissa; none if it
is beyond the greatest. -/
def Precision.nearest? (p : Precision) (num den : Nat) : Option Scaled :=
  if num = 0 then some ⟨0, p.least⟩
  else
    let e := max p.least (leadingExponent num den - (p.bits - 1 : Nat))
    let m := divEven (num * Nat.pow 2 (-e).toNat) (den * Nat.pow 2 e.toNat)
    let s : Scaled := if m = Nat.pow 2 p.bits then ⟨Nat.pow 2 (p.bits - 1), e + 1⟩ else ⟨m, e⟩
    if s.exponent > p.greatest then none else some s

namespace Scaled

/-- The value as a fraction. -/
def num (s : Scaled) : Nat := s.mantissa * Nat.pow 2 s.exponent.toNat
def den (s : Scaled) : Nat := Nat.pow 2 (-s.exponent).toNat

end Scaled

/-- `f` times ten to the `exponent` in double precision, one power of the table at a time; none if
it is too great. -/
def scaleDouble (fuel : Nat) (f : Scaled) (exponent : Int) : Option Scaled :=
  match fuel with
  | 0 => some ⟨0, Precision.double.least⟩
  | fuel + 1 =>
    if f.mantissa = 0 then some f
    else if exponent.natAbs ≤ 308 then
      (Precision.double.nearest? (Nat.pow 10 exponent.natAbs) 1).bind fun p =>
        if 0 ≤ exponent then Precision.double.nearest? (f.num * p.num) (f.den * p.den)
        else Precision.double.nearest? (f.num * p.den) (f.den * p.num)
    else if 0 ≤ exponent then none
    else
      (Precision.double.nearest? (Nat.pow 10 308) 1).bind fun p =>
        (Precision.double.nearest? (f.num * p.den) (f.den * p.num)).bind fun g =>
          scaleDouble fuel g (exponent + 308)

/-- The number that `value` and the digits behind it make, as far as it fits in 64 bits, and how
many digits are left out. -/
def fit64 (value : Nat) : List Char → Nat × Nat
  | [] => (value, 0)
  | c :: rest =>
    let more := Text.ofDecimal [c] + 10 * value
    if more < UInt64.size then fit64 more rest else (value, rest.length + 1)

/-- The double that `digits` times ten to the `exponent` is read as: from the leading digits that
fit in 64 bits. -/
def readDouble (digits : Nat) (exponent : Int) : Option Scaled :=
  let (n, left) := fit64 0 (Text.decimal digits)
  (Precision.double.nearest? n 1).bind fun f => scaleDouble 4 f (exponent + left)

/-- A value of single precision. -/
inductive Single where
  /-- A number; without a magnitude it is infinity. -/
  | number (negative : Bool) (magnitude : Option Scaled)
  /-- What is no number; all of these are written alike and count as one. -/
  | nan
  deriving DecidableEq, Repr

namespace Single

/-- Rounds a value of greater precision. -/
def round (negative : Bool) (s : Scaled) : Single :=
  .number negative (Precision.single.nearest? s.num s.den)

/-- The number that JSON text denotes; none if it is beyond double precision. Whole numbers of 64
bits are rounded once, all others by way of double precision. -/
def ofNumber? : Json.Number → Option Single
  | .integer negative n =>
    if (n < UInt64.size ∧ negative = false) ∨ (n ≤ UInt64.size / 2 ∧ negative = true) then
      some (round negative ⟨n, 0⟩)
    else (readDouble n 0).map (round negative)
  | .decimal negative digits e => (readDouble digits e).map (round negative)

/-- The number within 0 and 100 nearest to this one. Only a number that is out of range is changed:
minus zero stays as it is, and so does what is no number. -/
def clampPercent : Single → Single
  | number negative magnitude =>
    if negative ∧ !(magnitude.any fun s => s.mantissa == 0) then
      number false (some ⟨0, Precision.single.least⟩)
    else if magnitude.all fun s => s.num > 100 * s.den then
      number negative (Precision.single.nearest? 100 1)
    else number negative magnitude
  | nan => nan

/-- Whether the multiple `c` of ten to the `k` is read as `s`: it is within half a step of `s`, or
just half a step away and the mantissa is even. The lower step is half as long at a power of two. -/
def readsBack (s : Scaled) (c : Nat) (k : Int) : Bool :=
  let below := if s.mantissa = Nat.pow 2 23 ∧ s.exponent > Precision.single.least then 1 else 2
  let e := s.exponent - 2
  let value := c * Nat.pow 10 k.toNat * Nat.pow 2 (-e).toNat
  let unit := Nat.pow 10 (-k).toNat * Nat.pow 2 e.toNat
  let low := (4 * s.mantissa - below) * unit
  let high := (4 * s.mantissa + 2) * unit
  if s.mantissa % 2 = 0 then low ≤ value ∧ value ≤ high else low < value ∧ value < high

/-- The multiple of ten to the `k` that reads back, the nearer if both neighbours do and the even
one if they are equally near. -/
def multiple? (s : Scaled) (k : Int) : Option Nat :=
  let num := s.num * Nat.pow 10 (-k).toNat
  let den := s.den * Nat.pow 10 k.toNat
  let c := num / den
  let low := c != 0 && readsBack s c k
  let high := readsBack s (c + 1) k
  match low, high with
  | true, true => some (divEven num den)
  | true, false => some c
  | false, true => some (c + 1)
  | false, false => none

/-- The coarsest power of ten with a multiple that reads back, tried from ten to the `k` down. -/
def coarsest (s : Scaled) : Nat → Int → Nat × Int
  | 0, k => (s.mantissa, k)
  | fuel + 1, k =>
    match multiple? s k with
    | some c => (c, k)
    | none => coarsest s fuel (k - 1)

/-- Digits and exponent of the shortest decimal that reads back. -/
def shortest (s : Scaled) : Nat × Int :=
  if s.mantissa = 0 then (0, 0) else coarsest s 100 39

/-- The shortest decimal that reads back as the number; none for infinity, and for what is no
number. -/
def number? : Single → Option Json.Number
  | number negative magnitude =>
    magnitude.map fun s =>
      let d := shortest s
      .decimal negative d.1 d.2
  | nan => none

/-- The sign of a number in a text. -/
def sign (negative : Bool) : String := if negative then "-" else ""

/-- The text with one decimal place, rounded to nearest and a half to even. -/
def tenths : Single → String
  | number negative none => sign negative ++ "inf"
  | number negative (some s) =>
    let n := divEven (10 * s.num) s.den
    sign negative ++ Text.natText (n / 10) ++ "." ++ Text.natText (n % 10)
  | nan => "NaN"

end Single

instance : JsonForm Single where
  toJson x := match x.number? with
    | some n => .num n
    | none => .null
  ofJson?
    | .num n => Single.ofNumber? n
    | _ => none

end WalletHub
