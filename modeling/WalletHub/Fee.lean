import WalletHub.Word256
import WalletHub.Handle

/-!
# Fees

The parameters a backend prices a transfer with, and the price in base units of the native
currency. `UInt64` and `UInt32` factors cannot leave 256 bits; a gas price can, and saturates.
-/
namespace WalletHub

inductive FeeBasis where
  /-- Base units per thousand octets, and the size of the transaction. -/
  | utxo (feePerKb : UInt64) (sizeInBytes : UInt32)
  /-- Base units per unit of gas, and the gas limit. -/
  | account (gasPrice : Word256) (gasLimit : UInt64)
  deriving DecidableEq

namespace FeeBasis

def backend : FeeBasis → Backend
  | utxo .. => .utxo
  | account .. => .account

/-- The price of a transfer; a broken base unit is rounded up. -/
def fee : FeeBasis → Word256
  | utxo rate size => .saturate ((rate.toNat * size.toNat + 999) / 1000)
  | account price limit => .saturate (price.toNat * limit.toNat)

/-- The price of a transaction of outputs, step by step in words of 256 bits; none if a step leaves
them. What is broken of the last base unit is rounded up: the dividend is raised by all but one of
the divisor. -/
def outputFee? (rate : UInt64) (size : UInt32) : Option Word256 := do
  let product ← (Word256.ofUInt64 rate).mul? (.ofUInt32 size)
  let raised ← product.add? (.ofUInt64 1000)
  let dividend ← raised.sub? (.ofUInt64 1)
  dividend.div? (.ofUInt64 1000)

/-- The same rate for a transaction of another size; gas does not depend on the size. -/
def withSize (b : FeeBasis) (size : UInt32) : FeeBasis :=
  match b with
  | utxo rate _ => utxo rate size
  | account price limit => account price limit

end FeeBasis
end WalletHub
