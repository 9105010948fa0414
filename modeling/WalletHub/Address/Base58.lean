import WalletHub.Address.Sha256
import WalletHub.Text.Bytes

/-!
# Base58Check

A row of octets as a number in base fifty-eight, with a checksum behind it: the first four octets
of the double SHA-256 of what comes before. A leading zero octet is a leading digit one.
-/
namespace WalletHub.Base58

/-- The digits, by value. -/
def alphabet : List Char :=
  "123456789ABCDEFGHJKLMNPQRSTUVWXYZabcdefghijkmnopqrstuvwxyz".toList

/-- Why a text does not decode. Positions count octets. -/
inductive Fault where
  | nonAscii (position : Nat)
  | badDigit (c : Char) (position : Nat)
  | noChecksum
  | wrongChecksum (computed carried : List UInt8)
  deriving DecidableEq, Repr

/-- Octets as decimal numbers in brackets. -/
def listText (bytes : List UInt8) : String :=
  "[" ++ String.intercalate ", " (bytes.map fun b => Text.natText b.toNat) ++ "]"

/-- The wording of a fault. -/
def Fault.text : Fault → String
  | .nonAscii i =>
    "provided string contained non-ascii character starting at byte " ++ Text.natText i
  | .badDigit c i =>
    "provided string contained invalid character " ++ Text.quoteByte c.toUInt8 ++ " at byte "
      ++ Text.natText i
  | .noChecksum => "provided string is too small to contain a checksum"
  | .wrongChecksum x y =>
    "invalid checksum, calculated checksum: '" ++ listText x ++ "', expected checksum: "
      ++ listText y

/-- The value of a digit. -/
def digit? (c : Char) : Option Nat := alphabet.findIdx? (· == c)

/-- The values of the digits of a text, whose first is at position `i`. -/
def digitsFrom (i : Nat) : List Char → Except Fault (List Nat)
  | [] => .ok []
  | c :: rest =>
    if 128 ≤ c.toNat then .error (.nonAscii i)
    else
      match digit? c with
      | none => .error (.badDigit c i)
      | some d => (digitsFrom (i + 1) rest).map (d :: ·)

/-- The octets of a number, least significant first; none for zero. -/
def octetsRev (n : Nat) : List UInt8 :=
  if h : n = 0 then [] else UInt8.ofNat (n % 256) :: octetsRev (n / 256)
  termination_by n
  decreasing_by omega

/-- The octets that digits of these values stand for. -/
def octetsOf (digits : List Nat) : List UInt8 :=
  List.replicate (digits.takeWhile (· == 0)).length 0
    ++ (octetsRev (digits.foldl (fun n d => 58 * n + d) 0)).reverse

/-- The first four octets of the double digest. -/
def checksum (payload : List UInt8) : List UInt8 :=
  (Sha256.digest (Sha256.digest payload)).take 4

/-- The octets in front of a correct checksum. -/
def decodeCheck (cs : List Char) : Except Fault (List UInt8) :=
  match digitsFrom 0 cs with
  | .error f => .error f
  | .ok digits =>
    let bytes := octetsOf digits
    if bytes.length < 4 then .error .noChecksum
    else
      let payload := bytes.take (bytes.length - 4)
      let carried := bytes.drop (bytes.length - 4)
      if checksum payload = carried then .ok payload
      else .error (.wrongChecksum (checksum payload) carried)

end WalletHub.Base58
