import WalletHub.Text.Bytes

/-!
# Bech32

A human-readable part, the separator `1`, and five-bit groups, the last six of which are a
checksum over all the others. Two forms of it differ in the constant the checksum is taken with.
-/
namespace WalletHub.Bech32

/-- The characters of the five-bit groups, by value. -/
def alphabet : List Char := "qpzry9x8gf2tvdw0s3jn54khce6mua7l".toList

inductive Variant where
  | bech32 | bech32m
  deriving DecidableEq, Repr

def Variant.text : Variant → String
  | .bech32 => "Bech32"
  | .bech32m => "Bech32m"

/-- The constant a correct checksum leaves. -/
def Variant.residue : Variant → UInt32
  | .bech32 => 1
  | .bech32m => 0x2bc830a3

/-- Why a text does not decode. -/
inductive Fault where
  | noSeparator
  | badLength
  | badChar (c : Char)
  | mixedCase
  | badChecksum
  deriving DecidableEq, Repr

/-- The wording of a fault. -/
def Fault.text : Fault → String
  | .noSeparator => "missing human-readable separator, \"1\""
  | .badLength => "invalid length"
  | .badChar c => "invalid character (code=" ++ String.singleton c ++ ")"
  | .mixedCase => "mixed-case strings not allowed"
  | .badChecksum => "invalid checksum"

/-- The case of the letters seen so far. -/
inductive Case where
  | unknown | lower | upper
  deriving DecidableEq, Repr

/-- The case after one more character; none when the letters disagree. -/
def Case.see? (k : Case) (c : Char) : Option Case :=
  if c.isLower then (if k = .upper then none else some .lower)
  else if c.isUpper then (if k = .lower then none else some .upper)
  else some k

/-- Checks the octets of the human-readable part and returns the case of its letters. -/
def scanPart (k : Case) : List UInt8 → Except Fault Case
  | [] => .ok k
  | b :: rest =>
    let c := Char.ofUInt8 b
    if b < 33 ∨ 126 < b then .error (.badChar c)
    else
      match k.see? c with
      | none => .error .mixedCase
      | some k' => scanPart k' rest

/-- The five-bit group of a lower-case character. -/
def group? (c : Char) : Option UInt8 := (alphabet.findIdx? (· == c)).map UInt8.ofNat

/-- Reads the characters of the five-bit groups. -/
def scanData (k : Case) : List Char → Except Fault (List UInt8)
  | [] => .ok []
  | c :: rest =>
    if 128 ≤ c.toNat then .error (.badChar c)
    else
      match k.see? c with
      | none => .error .mixedCase
      | some k' =>
        match group? c.toLower with
        | none => .error (.badChar c)
        | some v => (scanData k' rest).map (v :: ·)

/-- The generator of the checksum code. -/
def generator : List UInt32 := [0x3b6a57b2, 0x26508e6d, 0x1ea119fa, 0x3d4233dd, 0x2a1462b3]

/-- The checksum register after one more group. -/
def polymodStep (chk : UInt32) (v : UInt8) : UInt32 :=
  let top := chk >>> 25
  let shifted := ((chk &&& 0x1ffffff) <<< 5) ^^^ v.toUInt32
  (([0, 1, 2, 3, 4] : List UInt32).zip generator).foldl
    (fun acc g => if (top >>> g.1) &&& 1 = 1 then acc ^^^ g.2 else acc) shifted

/-- The checksum register after all groups. -/
def polymod (groups : List UInt8) : UInt32 := groups.foldl polymodStep 1

/-- The human-readable part as groups: high bits, a zero, low bits. -/
def expand (part : List UInt8) : List UInt8 :=
  part.map (fun b : UInt8 => b >>> 5) ++ 0 :: part.map (fun b : UInt8 => b &&& 31)

/-- The variant whose constant the checksum leaves. -/
def variant? (part : List UInt8) (groups : List UInt8) : Option Variant :=
  let r := polymod (expand part ++ groups)
  if r = Variant.bech32.residue then some .bech32
  else if r = Variant.bech32m.residue then some .bech32m
  else none

/-- The parts before and after the last separator. -/
def splitLast (cs : List Char) : Option (List Char × List Char) :=
  let tail := cs.reverse.takeWhile (· != '1')
  if tail.length = cs.length then none
  else some (cs.take (cs.length - tail.length - 1), tail.reverse)

/-- A decoded text: human-readable part in lower case, groups without checksum, variant. -/
structure Decoded where
  part : String
  groups : List UInt8
  variant : Variant
  deriving DecidableEq, Repr

/-- Decodes a text; there is no limit on its length. -/
def decode (cs : List Char) : Except Fault Decoded :=
  match splitLast cs with
  | none => .error .noSeparator
  | some (part, data) =>
    let bytes := Text.utf8 (String.ofList part)
    if bytes.isEmpty ∨ 83 < bytes.length then .error .badLength
    else
      match scanPart .unknown bytes with
      | .error f => .error f
      | .ok k =>
        match scanData k data with
        | .error f => .error f
        | .ok groups =>
          if groups.length < 6 then .error .badLength
          else
            let lower := part.map Char.toLower
            match variant? (Text.utf8 (String.ofList lower)) groups with
            | none => .error .badChecksum
            | some v => .ok ⟨String.ofList lower, groups.take (groups.length - 6), v⟩

end WalletHub.Bech32
