import WalletHub.Proofs.Handover

/-!
# Raw forms

An engine may write a gas price with blanks around it, in hexadecimal digits or with zeros in front,
and the hub hands it back in decimal digits without any of these. So many raw fee bases are read as
the same fee basis, and one of them is what it is written as.

* `RawFeeBasis.canonical_of`, `RawFeeBasis.eq_of_canonical`: the one canonical form of a fee basis.
* `RawFeeBasis.raw_forms`: fee bases and amounts are read back from their raw forms.
-/
namespace WalletHub

namespace RawFeeBasis

variable {r : RawFeeBasis} {side : Backend} {b : FeeBasis}

/-- A raw fee basis whose price, if it has one, is only decimal digits, without a needless zero. -/
inductive Canonical : RawFeeBasis → Prop
  | utxo (rate : UInt64) (size : UInt32) : Canonical (.utxo rate size)
  | account {price : String} {n : Nat} (row : Text.Canonical price.toList n) (limit : UInt64) :
      Canonical (.account price limit)

theorem canonical_of (b : FeeBasis) : (of b).Canonical := by
  cases b with
  | utxo rate size => exact .utxo rate size
  | account price limit => exact .account (Text.canonical_iff.2 String.toList_ofList) limit

theorem backend_of (b : FeeBasis) : (of b).backend = b.backend := by
  cases b <;> rfl

theorem decode_of_ne (foreign : side ≠ r.backend) :
    r.decode side = .error (.foreignPayload .feeBasis side r.backend) :=
  if_neg foreign.symm

/-- A canonical form is the raw form of what is read of it. -/
theorem eq_of_canonical (canonical : r.Canonical) (read : r.decode side = .ok b) : r = of b := by
  cases decode_eq_ok_iff.1 read with
  | utxo rate size => rfl
  | @account price v limit number =>
    cases canonical with
    | @account _ n row =>
      have written : price = Text.natText n := by
        rw [← String.toList_inj, Text.natText, String.toList_ofList, Text.canonical_iff.1 row]
      rw [written] at number
      rw [of, Word256.text, Word256.parse_natText_iff.1 number, written]

/-- **Raw forms.** A fee basis is read back from its raw form on its own backend, and refused on the
other one. If a raw form is read as a fee basis, the raw form of that is canonical and is read as
the same, and it is the only one. And an amount is read back from its base units. -/
theorem raw_forms :
    (∀ b : FeeBasis, (of b).decode b.backend = .ok b ∧
      ∀ side, side ≠ b.backend →
        (of b).decode side = .error (.foreignPayload .feeBasis side b.backend)) ∧
    (∀ (r : RawFeeBasis) (side : Backend) (b : FeeBasis), r.decode side = .ok b →
      (of b).Canonical ∧ (of b).decode side = .ok b ∧
        ∀ r' : RawFeeBasis, r'.Canonical → r'.decode side = .ok b → r' = of b) ∧
    ∀ (v : Word256) (c : Currency),
      Amount.parse (Amount.ofBase v c).baseText c = .ok (.ofBase v c) := by
  refine ⟨fun b => ⟨decode_of b, fun side foreign => ?_⟩, fun r side b read =>
    ⟨canonical_of b, ?_, fun _ => eq_of_canonical⟩, fun v c => Amount.parse_baseText _ c⟩
  · rw [← backend_of b] at foreign ⊢
    exact decode_of_ne foreign
  · rw [← backend_of_decode read]
    exact decode_of b

/-- A price with blanks, a marker and zeros around it. -/
theorem raw_forms_padded :
    decode (.account " 0x00F " 21000) .account = .ok (.account (.ofUInt64 15) 21000) ∧
      decode (.account "15" 21000) .account = .ok (.account (.ofUInt64 15) 21000) ∧
      decode (.account "15" 21000) .utxo = .error (.foreignPayload .feeBasis .utxo .account) ∧
      ∀ r : RawFeeBasis, r.Canonical →
        r.decode .account = .ok (.account (.ofUInt64 15) 21000) → r = .account "15" 21000 := by
  have read : decode (.account " 0x00F " 21000) .account = .ok (.account (.ofUInt64 15) 21000) := by
    decide +kernel
  have written : of (.account (.ofUInt64 15) 21000) = .account "15" 21000 := by decide +kernel
  obtain ⟨own, forms, -⟩ := raw_forms
  obtain ⟨-, again, only⟩ := forms _ _ _ read
  have foreign := (own (.account (.ofUInt64 15) 21000)).2 .utxo (by decide)
  rw [written] at again only foreign
  exact ⟨read, again, foreign, only⟩

end RawFeeBasis

end WalletHub
