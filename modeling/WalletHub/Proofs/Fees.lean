import Mathlib.Algebra.Order.Floor.Div
import WalletHub.Transfer

/-!
# Fees stay within 256 bits

The fee of a transaction of outputs is computed in words of 256 bits, which are wide enough for the
product of a rate of 64 bits and a size of 32 bits: no step leaves them, and the result is a
thousandth of the product, rounded up. A gas price is as wide as the words themselves, and its
product with a gas limit is cut off at the greatest of them. Either way no parameter that grows
makes the fee less, and the fee is what is stored as the estimate of a new transfer.

* `FeeBasis.outputFee?_eq`: no step of the computation leaves the words, and it gives the fee.
* `FeeBasis.isLeast_fee_utxo`: the fee is the least one that covers the rate for the size.
* `FeeBasis.fee_mono`: fees are in the order of their parameters.
* `FeeBasis.fees_exact`: what fees are, what sizes do to them, and what is stored of them.
-/
namespace WalletHub.FeeBasis

/-- A rate and a size have 96 bits together. -/
theorem product_lt (rate : UInt64) (size : UInt32) :
    rate.toNat * size.toNat + 1000 < Word256.size := by
  have product : rate.toNat * size.toNat ≤ UInt64.size * UInt32.size :=
    Nat.mul_le_mul (Nat.le_of_lt rate.toNat_lt) (Nat.le_of_lt size.toNat_lt)
  exact Nat.lt_of_le_of_lt (Nat.add_le_add_right product 1000) (by decide)

theorem toNat_fee_utxo (rate : UInt64) (size : UInt32) :
    (fee (.utxo rate size)).toNat = (rate.toNat * size.toNat + 999) / 1000 := by
  have small := product_lt rate size
  exact Word256.toNat_saturate_of_lt (by omega)

/-- Every step fits, and the last one gives the fee. -/
theorem outputFee?_eq (rate : UInt64) (size : UInt32) :
    outputFee? rate size = some (fee (.utxo rate size)) := by
  have small := product_lt rate size
  have product : (Word256.ofUInt64 rate).mul? (.ofUInt32 size) =
      some ⟨rate.toNat * size.toNat, by omega⟩ := Word256.mul?_eq_some_iff.2 rfl
  have raised : Word256.add? ⟨rate.toNat * size.toNat, by omega⟩ (.ofUInt64 1000) =
      some ⟨rate.toNat * size.toNat + 1000, small⟩ := Word256.add?_eq_some_iff.2 rfl
  have dividend : Word256.sub? ⟨rate.toNat * size.toNat + 1000, small⟩ (.ofUInt64 1) =
      some ⟨rate.toNat * size.toNat + 999, by omega⟩ :=
    Word256.sub?_eq_some_iff.2 ⟨Nat.le_add_left 1 _, rfl⟩
  have quotient : Word256.div? ⟨rate.toNat * size.toNat + 999, by omega⟩ (.ofUInt64 1000) =
      some (fee (.utxo rate size)) :=
    Word256.div?_eq_some_iff.2 ⟨by decide, toNat_fee_utxo rate size⟩
  simp only [outputFee?, product, raised, dividend, quotient, Option.bind_eq_bind,
    Option.bind_some]

/-- A thousand times the fee covers the rate for the size, and of anything less does not. -/
theorem isLeast_fee_utxo (rate : UInt64) (size : UInt32) :
    IsLeast {n : ℕ | rate.toNat * size.toNat ≤ 1000 * n} (fee (.utxo rate size)).toNat := by
  have rounded : (fee (.utxo rate size)).toNat = rate.toNat * size.toNat ⌈/⌉ 1000 :=
    toNat_fee_utxo rate size
  have covers (n : ℕ) : rate.toNat * size.toNat ⌈/⌉ 1000 ≤ n ↔
      rate.toNat * size.toNat ≤ 1000 * n := ceilDiv_le_iff_le_mul (by decide)
  rw [rounded]
  exact ⟨(covers _).1 (Nat.le_refl _), fun n enough => (covers n).2 enough⟩

/-- Of one kind, and no parameter of the first is greater. -/
inductive AtMost : FeeBasis → FeeBasis → Prop
  | utxo {rate rate' : UInt64} {size size' : UInt32} (rates : rate ≤ rate') (sizes : size ≤ size') :
      AtMost (.utxo rate size) (.utxo rate' size')
  | account {price price' : Word256} {limit limit' : UInt64}
      (prices : price.toNat ≤ price'.toNat) (limits : limit ≤ limit') :
      AtMost (.account price limit) (.account price' limit')

theorem fee_mono {b b' : FeeBasis} (h : b.AtMost b') : b.fee.toNat ≤ b'.fee.toNat := by
  cases h with
  | utxo rates sizes =>
    have products :=
      Nat.mul_le_mul (UInt64.le_iff_toNat_le.1 rates) (UInt32.le_iff_toNat_le.1 sizes)
    exact Word256.toNat_saturate_mono (Nat.div_le_div_right (Nat.add_le_add_right products 999))
  | account prices limits =>
    exact Word256.toNat_saturate_mono (Nat.mul_le_mul prices (UInt64.le_iff_toNat_le.1 limits))

/-- **Fees.** A transaction of outputs costs the least that covers the rate for the size, and no
step on the way there leaves 256 bits; gas costs its price times its limit, or the greatest word if
that is more. So fees are in the order of their parameters. A transaction of outputs that is given
another size costs what it costs at that size, by the same rate: the least that covers it, more for
more and less for less, while gas costs the same. And what a transfer has stored as its estimate is
the fee in base units of the fee currency. -/
theorem fees_exact :
    (∀ (rate : UInt64) (size : UInt32), outputFee? rate size = some (fee (.utxo rate size)) ∧
      IsLeast {n : ℕ | rate.toNat * size.toNat ≤ 1000 * n} (fee (.utxo rate size)).toNat) ∧
    (∀ (price : Word256) (limit : UInt64), (fee (.account price limit)).toNat =
      min (price.toNat * limit.toNat) (Word256.size - 1)) ∧
    (∀ b b' : FeeBasis, b.AtMost b' → b.fee.toNat ≤ b'.fee.toNat) ∧
    (∀ (rate : UInt64) (size size' : UInt32),
      (withSize (.utxo rate size) size').fee = fee (.utxo rate size') ∧
      IsLeast {n : ℕ | rate.toNat * size'.toNat ≤ 1000 * n}
        (withSize (.utxo rate size) size').fee.toNat ∧
      (size ≤ size' → (fee (.utxo rate size)).toNat ≤
        (withSize (.utxo rate size) size').fee.toNat) ∧
      (size' ≤ size → (withSize (.utxo rate size) size').fee.toNat ≤
        (fee (.utxo rate size)).toNat)) ∧
    (∀ (price : Word256) (limit : UInt64) (size : UInt32),
      (withSize (.account price limit) size).fee = fee (.account price limit)) ∧
    ∀ (path : TransferPath) (amount : Amount) (direction : Direction)
      (source target : Option Address) (basis : Option FeeBasis) (currency : Currency)
      (hash : Option TransferHash),
      (Transfer.create path amount direction source target basis currency hash).estimatedFee =
        basis.map fun b => ⟨b.fee, currency.code, currency.defaultUnit.decimals⟩ := by
  refine ⟨fun rate size => ⟨outputFee?_eq rate size, isLeast_fee_utxo rate size⟩,
    fun price limit => Word256.toNat_saturate _, fun b b' => fee_mono,
    fun rate size size' => ⟨rfl, isLeast_fee_utxo rate size', fun more => ?_, fun less => ?_⟩,
    fun price limit size => rfl, fun path amount direction source target basis currency hash => rfl⟩
  · exact fee_mono (.utxo (UInt64.le_refl rate) more)
  · exact fee_mono (.utxo (UInt64.le_refl rate) less)

/-- The greatest rate for the greatest size; half a base unit that is rounded up, and the same
transaction with one octet more and with none; and gas that costs more than the words hold. -/
theorem fees_exact_extreme :
    outputFee? 18446744073709551615 4294967295 =
      some (.saturate 79228162495817593515539432) ∧
    (fee (.utxo 1500 225)).toNat = 338 ∧
    (withSize (.utxo 1500 225) 226).fee.toNat = 339 ∧
    (fee (.utxo 1500 225)).toNat ≤ (withSize (.utxo 1500 225) 226).fee.toNat ∧
    (withSize (.utxo 1500 225) 0).fee.toNat = 0 ∧
    (withSize (.utxo 1500 225) 0).fee.toNat ≤ (fee (.utxo 1500 225)).toNat ∧
    (fee (.account (.saturate (Word256.size - 2)) 1)).toNat ≤
      (fee (.account (.saturate Word256.size) 2)).toNat ∧
    (fee (.account (.saturate Word256.size) 2)).toNat = Word256.size - 1 := by
  obtain ⟨output, gas, mono, sized, -, -⟩ := fees_exact
  have greatest : fee (.utxo 18446744073709551615 4294967295) =
      .saturate 79228162495817593515539432 := by decide +kernel
  obtain ⟨larger, -, more, -⟩ := sized 1500 225 226
  obtain ⟨empty, -, -, less⟩ := sized 1500 225 0
  refine ⟨?_, by decide +kernel, ?_, more (by decide), ?_, less (by decide),
    mono _ _ (.account (by decide +kernel) (by decide)), ?_⟩
  · rw [(output _ _).1, greatest]
  · rw [larger]
    decide +kernel
  · rw [empty]
    decide +kernel
  · rw [gas]
    decide +kernel

end WalletHub.FeeBasis
