import WalletHub.Json.Basic

/-!
# Numbers in JSON

The grammar of a number and its written form. A number with a point or an exponent is written
positionally from `1e-6` up to below `1e13`, always with a point, and otherwise with one digit
before the point and a signed exponent.
-/
namespace WalletHub.Json.Number

/-- Reads an optional exponent that ends the number. -/
def exponent? : List Char → Option Int
  | [] => some 0
  | c :: rest =>
    if c = 'e' ∨ c = 'E' then
      let (negative, ds) := match rest with
        | '-' :: ds => (true, ds)
        | '+' :: ds => (false, ds)
        | ds => (false, ds)
      if ds.isEmpty || !ds.all Char.isDigit then none
      else
        let n : Int := Text.ofDecimal ds
        some (if negative then -n else n)
    else none

/-- Reads a number without its sign. -/
def parseUnsigned? (negative : Bool) (cs : List Char) : Option Number :=
  let whole := cs.takeWhile Char.isDigit
  let rest := cs.dropWhile Char.isDigit
  if whole.isEmpty || (whole.head? == some '0' && whole.length != 1) then none
  else
    match rest with
    | [] => some (.integer negative (Text.ofDecimal whole))
    | '.' :: more =>
      let fraction := more.takeWhile Char.isDigit
      if fraction.isEmpty then none
      else
        (exponent? (more.dropWhile Char.isDigit)).map fun e =>
          .decimal negative (Text.ofDecimal (whole ++ fraction)) (e - fraction.length)
    | rest => (exponent? rest).map fun e => .decimal negative (Text.ofDecimal whole) e

/-- Reads a number: a sign, digits without a leading zero, and a fraction or an exponent. -/
def parse? : List Char → Option Number
  | '-' :: cs => parseUnsigned? true cs
  | cs => parseUnsigned? false cs

/-- Digits with a point, for the value `digits` times ten to the `exponent`. -/
def positional (digits : List Char) (exponent : Int) : List Char :=
  let point := (digits.length : Int) + exponent
  if 0 ≤ exponent then digits ++ List.replicate exponent.toNat '0' ++ ['.', '0']
  else if 0 < point then digits.take point.toNat ++ '.' :: digits.drop point.toNat
  else '0' :: '.' :: (List.replicate (-point).toNat '0' ++ digits)

/-- One digit, the others behind a point, and the exponent of the first. -/
def scientific (digits : List Char) (lead : Int) : List Char :=
  let sign := if lead < 0 then '-' else '+'
  let fraction := if digits.length ≤ 1 then [] else '.' :: digits.drop 1
  digits.take 1 ++ fraction ++ 'e' :: sign :: Text.decimal lead.natAbs

/-- Whether a number is written positionally whose first digit counts ten to the `lead`. -/
def isPositional (lead : Int) : Bool := decide (-6 ≤ lead) && decide (lead ≤ 12)

/-- The written form of a number with a point or an exponent. -/
def decimalChars (digits : Nat) (exponent : Int) : List Char :=
  if digits = 0 then ['0', '.', '0']
  else
    let ds := Text.decimal digits
    let lead := (ds.length : Int) + exponent - 1
    if isPositional lead then positional ds exponent else scientific ds lead

/-- The written form. -/
def chars : Number → List Char
  | .integer negative n => (if negative then ['-'] else []) ++ Text.decimal n
  | .decimal negative digits e => (if negative then ['-'] else []) ++ decimalChars digits e

end WalletHub.Json.Number
