import WalletHub.Error
import WalletHub.Network
import WalletHub.Text.Blank
import WalletHub.Text.Hex
import WalletHub.Word256

/-!
# Amounts

Engines report amounts as big integers in a currency's base unit, in decimal or in hexadecimal.
`Word256.parse` reads both; an amount keeps the number together with the code of its currency and
the decimal places it is shown with.
-/
namespace WalletHub

namespace Word256

/-- Why a text is no number of 256 bits. Positions count octets. -/
inductive Fault where
  | empty
  | emptyHex
  | notDigits
  | overflow
  | hexTooLong
  | badHexDigit (octet : UInt8) (position : Nat)
  deriving DecidableEq, Repr

/-- The wording of a fault. -/
def Fault.text : Fault → String
  | .empty => "empty value"
  | .emptyHex => "empty hex value"
  | .notDigits => "not a non-negative integer"
  | .overflow => "InvalidLength"
  | .hexTooLong =>
    "FromStrRadixErr \x7b kind: InvalidLength, source: Some(Hex(FromHexError \x7b inner: "
      ++ "InvalidStringLength \x7d)) \x7d"
  | .badHexDigit b i =>
    "FromStrRadixErr \x7b kind: InvalidCharacter, source: Some(Hex(FromHexError \x7b inner: "
      ++ "InvalidHexCharacter \x7b c: " ++ Text.quoteByte b ++ ", index: " ++ Text.natText i
      ++ " \x7d \x7d)) \x7d"

/-- The first octet that is no hexadecimal digit, with its position. -/
def badHexDigit? (i : Nat) : List UInt8 → Option (UInt8 × Nat)
  | [] => none
  | b :: rest => if (Text.Hex.digit? b).isSome then badHexDigit? (i + 1) rest else some (b, i)

/-- Reads the part of a hexadecimal text after its marker. A second lower-case marker is skipped,
and a text of odd length is taken with a zero in front. -/
def parseHexDigits (cs : List Char) : Except Fault Word256 :=
  let cs := match cs with
    | '0' :: 'x' :: rest => rest
    | _ => cs
  let bytes := Text.utf8 (String.ofList cs)
  if 64 < bytes.length then .error .hexTooLong
  else
    match badHexDigit? (bytes.length % 2) bytes with
    | some (b, i) => .error (.badHexDigit b i)
    | none =>
      match (Text.ofHex? cs).bind ofNat? with
      | some w => .ok w
      | none => .error .hexTooLong

/-- Reads decimal digits, any number of leading zeros included. -/
def parseDecimalDigits (cs : List Char) : Except Fault Word256 :=
  if cs.all Char.isDigit then
    match ofNat? (Text.ofDecimal cs) with
    | some w => .ok w
    | none => .error .overflow
  else .error .notDigits

/-- Reads a text without blanks at its ends. -/
def parseStripped : List Char → Except Fault Word256
  | [] => .error .empty
  | ['0', 'x'] | ['0', 'X'] => .error .emptyHex
  | '0' :: 'x' :: rest | '0' :: 'X' :: rest => parseHexDigits rest
  | cs => parseDecimalDigits cs

/-- Reads decimal digits, or hexadecimal digits behind `0x`, with blanks around them. -/
def parse (raw : String) : Except DecodeError Word256 :=
  match parseStripped (Text.strip raw.toList) with
  | .ok w => .ok w
  | .error f => .error (.invalidAmount raw f.text)

end Word256

/-- A number of base units of a currency. -/
structure Amount where
  value : Word256
  /-- Code of the currency. -/
  currency : String
  /-- Decimal places of the unit the amount is shown in. -/
  decimals : UInt8
  deriving DecidableEq

namespace Amount

/-- So many base units of a currency. -/
def ofBase (value : Word256) (c : Currency) : Amount := ⟨value, c.code, c.defaultUnit.decimals⟩

def zero (c : Currency) : Amount := ofBase .zero c

/-- Reads a number of base units. -/
def parse (raw : String) (c : Currency) : Except DecodeError Amount :=
  (Word256.parse raw).map (ofBase · c)

def isZero (a : Amount) : Bool := a.value.toNat == 0

/-- The sum of two amounts of one currency, shown like the first. -/
def add? (a b : Amount) : Option Amount :=
  if a.currency = b.currency then (a.value.add? b.value).map ({ a with value := · }) else none

/-- The difference of two amounts of one currency, shown like the first; none when negative. -/
def sub? (a b : Amount) : Option Amount :=
  if a.currency = b.currency then (a.value.sub? b.value).map ({ a with value := · }) else none

/-- Base units in decimal. -/
def baseText (a : Amount) : String := a.value.text

/-- Drops zeros from the end. -/
def dropZeros (cs : List Char) : List Char := (cs.reverse.dropWhile (· == '0')).reverse

/-- The digits of `n` with a point before the last `places`, padded so that a digit stands before
the point; zeros at the end of the fraction, and a point with nothing behind it, are left out. -/
def pointed (n places : Nat) : List Char :=
  if places = 0 then Text.decimal n
  else
    let digits := Text.decimal n
    let padded := List.replicate (places + 1 - digits.length) '0' ++ digits
    let whole := padded.take (padded.length - places)
    let fraction := dropZeros (padded.drop (padded.length - places))
    if fraction.isEmpty then whole else whole ++ '.' :: fraction

/-- The value in the unit the amount is shown in. -/
def decimalText (a : Amount) : String := String.ofList (pointed a.value.toNat a.decimals.toNat)

def text (a : Amount) : String := a.decimalText ++ " " ++ a.currency

end Amount
end WalletHub
