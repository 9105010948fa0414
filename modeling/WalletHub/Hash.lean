import WalletHub.Error
import WalletHub.Text.Hex

/-!
# Transfer hashes

The thirty-two octets a network knows a transfer by. Chains of outputs print them last octet
first.
-/
namespace WalletHub

structure TransferHash where
  backend : Backend
  bytes : Vector UInt8 32
  deriving DecidableEq

namespace TransferHash

/-- Takes the octets an engine hands over. -/
def decode (backend : Backend) (raw : List UInt8) : Except DecodeError TransferHash :=
  if h : raw.toArray.size = 32 then .ok ⟨backend, ⟨raw.toArray, h⟩⟩
  else .error (.invalidHash raw.length)

def text (t : TransferHash) : String :=
  match t.backend with
  | .utxo => Text.Hex.text t.bytes.toList.reverse
  | .account => "0x" ++ Text.Hex.text t.bytes.toList

end TransferHash
end WalletHub
