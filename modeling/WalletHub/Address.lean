import WalletHub.Address.Base58
import WalletHub.Address.Bech32
import WalletHub.Error
import WalletHub.Text.Blank
import WalletHub.Text.Hex

/-!
# Addresses

An address on a chain of outputs is a text, in Base58Check or in one of the two Bech32 forms; on
a chain of accounts it is twenty octets. Applications hand over texts and engines octets, and
`parse` and `decode` take the one and the other.
-/
namespace WalletHub

inductive Address where
  | utxo (text : String)
  | account (bytes : Vector UInt8 20)
  deriving DecidableEq

namespace Address

/-- The human-readable parts of the main, test and regression networks. -/
def segwitParts : List String := ["bc", "tb", "bcrt"]

/-- Why a text is no address. -/
inductive Fault where
  | base58 (f : Base58.Fault)
  | bech32 (f : Bech32.Fault)
  | unknownPart (part : String)
  | noWitnessVersion
  | wrongVariant (version : UInt8) (variant : Bech32.Variant)
  | payloadLength (length : Nat)
  | hex (f : Text.Hex.Fault)
  | byteCount (length : Nat)
  | notUtf8
  deriving DecidableEq, Repr

/-- The wording of a fault. -/
def Fault.text : Fault → String
  | .base58 f => "invalid base58check: " ++ f.text
  | .bech32 f => "invalid bech32: " ++ f.text
  | .unknownPart p => "unknown segwit prefix '" ++ p ++ "'"
  | .noWitnessVersion => "missing witness version"
  | .wrongVariant v k =>
    "witness version " ++ Text.natText v.toNat ++ " with " ++ k.text ++ " checksum"
  | .payloadLength n => "expected 21 payload bytes, got " ++ Text.natText n
  | .hex f => "invalid hex: " ++ f.text
  | .byteCount n => "expected 20 bytes, got " ++ Text.natText n
  | .notUtf8 => "address bytes are not UTF-8"

def backend : Address → Backend
  | utxo _ => .utxo
  | account _ => .account

def text : Address → String
  | utxo t => t
  | account bytes => "0x" ++ Text.Hex.text bytes.toList

/-- Whether a text begins like a segwit address: a known part, in any case, and a separator. -/
def looksSegwit (cs : List Char) : Bool :=
  segwitParts.any fun p => (p.toList ++ ['1']).isPrefixOf (cs.map Char.toLower)

/-- The form of the checksum that goes with a witness version. -/
def variantFor (version : UInt8) : Bech32.Variant := if version = 0 then .bech32 else .bech32m

/-- Checks a segwit address: its checksum, its part, and that the form fits the version. -/
def checkSegwit (cs : List Char) : Except Fault Unit :=
  match Bech32.decode cs with
  | .error f => .error (.bech32 f)
  | .ok d =>
    if segwitParts.contains d.part then
      match d.groups with
      | [] => .error .noWitnessVersion
      | v :: _ => if d.variant = variantFor v then .ok () else .error (.wrongVariant v d.variant)
    else .error (.unknownPart d.part)

/-- Checks a Base58Check address: a version octet and twenty octets of hash. -/
def checkBase58 (cs : List Char) : Except Fault Unit :=
  match Base58.decodeCheck cs with
  | .error f => .error (.base58 f)
  | .ok payload => if payload.length = 21 then .ok () else .error (.payloadLength payload.length)

/-- Twenty octets are an address. -/
def ofBytes (bytes : List UInt8) : Except Fault Address :=
  if h : bytes.toArray.size = 20 then .ok (.account ⟨bytes.toArray, h⟩)
  else .error (.byteCount bytes.length)

/-- The text behind a leading `0x` or `0X`, if there is one. -/
def unmarked : List Char → List Char
  | '0' :: 'x' :: rest | '0' :: 'X' :: rest => rest
  | cs => cs

/-- Reads a text without blanks at its ends. -/
def parseStripped (backend : Backend) (cs : List Char) : Except Fault Address :=
  match backend with
  | .utxo =>
    (if looksSegwit cs then checkSegwit cs else checkBase58 cs).map fun _ =>
      utxo (String.ofList cs)
  | .account =>
    match Text.Hex.decode (String.ofList (unmarked cs)) with
    | .error f => .error (.hex f)
    | .ok bytes => ofBytes bytes

/-- Reads the text of an address, with blanks around it. -/
def parse (backend : Backend) (raw : String) : Except DecodeError Address :=
  (parseStripped backend (Text.strip raw.toList)).mapError fun f => .invalidAddress backend f.text

/-- Takes the octets an engine hands over: a text in UTF-8, or the twenty octets themselves. -/
def decode (backend : Backend) (raw : List UInt8) : Except DecodeError Address :=
  match backend with
  | .utxo =>
    match Text.ofUtf8? raw with
    | none => .error (.invalidAddress .utxo Fault.notUtf8.text)
    | some s => parse .utxo s
  | .account => (ofBytes raw).mapError fun f => .invalidAddress .account f.text

/-- The octets an engine knows the address by. -/
def rawBytes : Address → List UInt8
  | utxo t => Text.utf8 t
  | account bytes => bytes.toList

end Address
end WalletHub
