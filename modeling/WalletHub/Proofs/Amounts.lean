import Mathlib.Algebra.Order.Field.Rat
import Mathlib.Tactic.FieldSimp
import WalletHub.Proofs.Numerals

/-!
# What amounts stand for

An amount stands for its base units over ten to its decimal places, and that number is what is shown
of it, as a decimal numeral without a needless digit. Amounts are added by their base units if their
codes agree. A code alone does not say with how many places an amount is shown, so that the sum of
two amounts stands for their sum only where the places agree too, or nothing is added.

* `Amount.add?_eq_none_iff`, `Amount.add?_comm_iff`: when there is a sum, and when it commutes.
* `Amount.sums_denote`: what sums and differences stand for.
* `Text.Pointed.value_unique`: a text with a point is a numeral of one number.
* `Amount.decimalText_canonical`: what is shown of an amount.
-/
namespace WalletHub

/-! ## Sums and differences -/

namespace Amount

variable {a b c : Amount}

/-- What an amount stands for, in the unit that it is shown in. -/
def denoted (a : Amount) : ℚ := a.value.toNat / 10 ^ a.decimals.toNat

/-- Other base units for `a`, if `b` has the same code. -/
theorem replaced_eq_some_iff {v? : Option Word256} :
    (if a.currency = b.currency then v?.map ({ a with value := · }) else none) = some c ↔
      a.currency = b.currency ∧ c.currency = a.currency ∧ c.decimals = a.decimals ∧
        v? = some c.value := by
  split
  · rename_i same
    rw [Option.map_eq_some_iff]
    constructor
    · rintro ⟨v, known, rfl⟩
      exact ⟨same, rfl, rfl, known⟩
    · rintro ⟨-, code, places, known⟩
      obtain ⟨v, code', places'⟩ := c
      cases code
      cases places
      exact ⟨v, known, rfl⟩
  · rename_i other
    simp [other]

theorem add?_eq_some_iff :
    a.add? b = some c ↔ a.currency = b.currency ∧ c.currency = a.currency ∧
      c.decimals = a.decimals ∧ c.value.toNat = a.value.toNat + b.value.toNat := by
  rw [add?, replaced_eq_some_iff, Word256.add?_eq_some_iff]

theorem sub?_eq_some_iff :
    a.sub? b = some c ↔ a.currency = b.currency ∧ c.currency = a.currency ∧
      c.decimals = a.decimals ∧ b.value.toNat ≤ a.value.toNat ∧
        c.value.toNat = a.value.toNat - b.value.toNat := by
  rw [sub?, replaced_eq_some_iff, Word256.sub?_eq_some_iff]

theorem add?_eq_none_iff :
    a.add? b = none ↔
      a.currency ≠ b.currency ∨ Word256.size ≤ a.value.toNat + b.value.toNat := by
  unfold add?
  split
  · rename_i same
    simp only [Option.map_eq_none_iff, Word256.add?, Word256.ofNat?, same, ne_eq, not_true,
      false_or]
    split <;> simp <;> omega
  · rename_i other
    simp [other]

/-- A sum is shown like its first part. -/
theorem add?_comm_iff : a.add? b = b.add? a ↔ a.add? b = none ∨ a.decimals = b.decimals := by
  cases sum : a.add? b with
  | none =>
    rw [add?_eq_none_iff, ne_comm, Nat.add_comm, ← add?_eq_none_iff] at sum
    simp [sum]
  | some c =>
    obtain ⟨same, code, places, value⟩ := add?_eq_some_iff.1 sum
    rw [eq_comm, add?_eq_some_iff]
    simp only [reduceCtorEq, false_or]
    constructor
    · rintro ⟨-, -, other, -⟩
      exact places.symm.trans other
    · intro equal
      exact ⟨same.symm, code.trans same, places.trans equal, by omega⟩

theorem sub?_of_add? (sum : a.add? b = some c) : c.sub? b = some a := by
  obtain ⟨same, code, places, value⟩ := add?_eq_some_iff.1 sum
  exact sub?_eq_some_iff.2 ⟨code.trans same, code.symm, places.symm, by omega, by omega⟩

/-- The base units of `b` are worth in the unit of `a` what they are worth in that of `b`. -/
def Commensurate (a b : Amount) : Prop := a.decimals = b.decimals ∨ b.value.toNat = 0

theorem commensurate_iff :
    a.Commensurate b ↔ (b.value.toNat : ℚ) / 10 ^ a.decimals.toNat = b.denoted := by
  have power : ∀ k : Nat, (10 : ℚ) ^ k ≠ 0 := fun k => pow_ne_zero k (by norm_num)
  rw [denoted, div_eq_div_iff (power _) (power _), mul_eq_mul_left_iff,
    pow_right_inj₀ (by norm_num) (by norm_num), UInt8.toNat_inj, Nat.cast_eq_zero, Commensurate,
    eq_comm]

theorem denoted_of_add? (sum : a.add? b = some c) :
    c.denoted = a.denoted + b.value.toNat / 10 ^ a.decimals.toNat := by
  obtain ⟨-, -, places, value⟩ := add?_eq_some_iff.1 sum
  rw [denoted, denoted, places, value, Nat.cast_add, add_div]

theorem denoted_of_sub? (difference : a.sub? b = some c) :
    c.denoted = a.denoted - b.value.toNat / 10 ^ a.decimals.toNat := by
  obtain ⟨-, -, places, enough, value⟩ := sub?_eq_some_iff.1 difference
  rw [denoted, denoted, places, value, Nat.cast_sub enough, sub_div]

/-- **Sums and differences.** There is a sum unless the codes differ or it has more than 256 bits,
and taking the second part from it gives back the first. Sums commute where the places of the parts
agree, and sums and differences stand for those of the parts where the places agree or nothing is
added or taken; and not anywhere else. -/
theorem sums_denote (a b : Amount) :
    (a.add? b = none ↔
      a.currency ≠ b.currency ∨ Word256.size ≤ a.value.toNat + b.value.toNat) ∧
    (a.add? b = b.add? a ↔ a.add? b = none ∨ a.decimals = b.decimals) ∧
    (∀ c, a.add? b = some c → c.sub? b = some a ∧
      (c.denoted = a.denoted + b.denoted ↔ a.Commensurate b)) ∧
    ∀ d, a.sub? b = some d → (d.denoted = a.denoted - b.denoted ↔ a.Commensurate b) := by
  refine ⟨add?_eq_none_iff, add?_comm_iff, fun c sum => ⟨sub?_of_add? sum, ?_⟩,
    fun d difference => ?_⟩
  · rw [denoted_of_add? sum, add_right_inj, commensurate_iff]
  · rw [denoted_of_sub? difference, sub_right_inj, commensurate_iff]

/-- The greatest amount there is, as a sum. -/
theorem sums_denote_greatest :
    ∃ c, Amount.add? ⟨.saturate (Word256.size - 2), "eth", 18⟩ ⟨.ofUInt64 1, "eth", 18⟩ = some c ∧
      c.value = .saturate Word256.size ∧
      c.sub? ⟨.ofUInt64 1, "eth", 18⟩ = some ⟨.saturate (Word256.size - 2), "eth", 18⟩ ∧
      c.denoted = denoted ⟨.saturate (Word256.size - 2), "eth", 18⟩ +
        denoted ⟨.ofUInt64 1, "eth", 18⟩ := by
  have sum : Amount.add? ⟨.saturate (Word256.size - 2), "eth", 18⟩ ⟨.ofUInt64 1, "eth", 18⟩ =
      some ⟨.saturate Word256.size, "eth", 18⟩ := by decide +kernel
  obtain ⟨-, -, sums, -⟩ := sums_denote ⟨.saturate (Word256.size - 2), "eth", 18⟩
    ⟨.ofUInt64 1, "eth", 18⟩
  obtain ⟨back, exact_sum⟩ := sums _ sum
  exact ⟨_, sum, rfl, back, exact_sum.2 (.inl rfl)⟩

/-- One, and one of eight places, are two or two of eight places. -/
theorem sums_misplaced :
    ∃ a b c d : Amount, a.currency = b.currency ∧ a.add? b ≠ b.add? a ∧
      a.add? b = some c ∧ c.denoted ≠ a.denoted + b.denoted ∧
      a.sub? b = some d ∧ d.denoted ≠ a.denoted - b.denoted := by
  refine ⟨⟨.ofUInt64 1, "tok", 0⟩, ⟨.ofUInt64 1, "tok", 8⟩, ⟨.ofUInt64 2, "tok", 0⟩,
    ⟨.ofUInt64 0, "tok", 0⟩, rfl, by decide +kernel, by decide +kernel, ?_, by decide +kernel, ?_⟩
  all_goals norm_num [denoted, Word256.ofUInt64, show UInt64.toNat 1 = 1 from rfl,
    show UInt64.toNat 2 = 2 from rfl, show UInt8.toNat 8 = 8 from rfl]

end Amount

/-! ## Numerals with a point -/

namespace Text

/-- A decimal numeral without a needless digit, with at most so many digits behind the point, and
the number that it is. -/
inductive Pointed (places : Nat) : List Char → ℚ → Prop
  | whole {ws : List Char} {w : Nat} (row : Canonical ws w) : Pointed places ws w
  | broken {ws fs : List Char} {w f : Nat} (row : Canonical ws w) (fraction : Digits 10 fs f)
      (short : fs.length ≤ places) (last : fs.getLast? ≠ some '0') :
      Pointed places (ws ++ '.' :: fs) (w + f / 10 ^ fs.length)

theorem Digits.point_not_mem {cs : List Char} {n : Nat} (row : Digits 10 cs n) : '.' ∉ cs := by
  intro held
  obtain ⟨d, digit⟩ := row.mem held
  exact absurd (isDigit_ten_iff.1 digit).1 (by decide)

theorem Pointed.value_unique {p p' : Nat} {cs : List Char} {q q' : ℚ} (hq : Pointed p cs q)
    (hq' : Pointed p' cs q') : q = q' := by
  cases hq with
  | whole row =>
    cases hq' with
    | whole row' => rw [row.1.value_unique row'.1]
    | broken => exact absurd (by simp) row.1.point_not_mem
  | @broken ws fs w f row fraction =>
    generalize same : ws ++ '.' :: fs = cs at hq'
    cases hq' with
    | whole row' => exact absurd (by simp [← same]) row'.1.point_not_mem
    | broken row' fraction' =>
      obtain ⟨rfl, -, rfl⟩ := (List.append_cons_inj_of_notMem row.1.point_not_mem
        fraction.point_not_mem).1 same
      rw [row.1.value_unique row'.1, fraction.value_unique fraction']

theorem ofDecimal_append (cs ds : List Char) :
    ofDecimal (cs ++ ds) = 10 ^ ds.length * ofDecimal cs + ofDecimal ds := by
  rw [ofDecimal, Nat.ofDigitChars_append, Nat.ofDigitChars_eq_ofDigitChars_zero]
  rfl

theorem ofDecimal_replicate_zero (n : Nat) : ofDecimal (List.replicate n '0') = 0 := by
  rw [ofDecimal, Nat.ofDigitChars_replicate_zero, Nat.mul_zero]

/-- Some of the digits of a row are a row. -/
theorem Digits.of_subset {cs ds : List Char} {n : Nat} (row : Digits 10 cs n) (held : ds ⊆ cs)
    (nonempty : ds ≠ []) : Digits 10 ds (ofDecimal ds) := by
  have digits := (digits_ten_iff.1 row).2.1
  rw [List.all_eq_true] at digits
  exact digits_ten_iff.2 ⟨nonempty, List.all_eq_true.2 fun c hc => digits c (held hc), rfl⟩

end Text

/-! ## Display -/

namespace Amount

open Text

variable {n places : Nat}

/-- What is dropped from the end is a row of zeros. -/
theorem dropZeros_append (cs : List Char) :
    ∃ k, dropZeros cs ++ List.replicate k '0' = cs := by
  have zeros : ∀ c ∈ cs.reverse.takeWhile (· == '0'), c = '0' := fun c hc => by
    simpa using List.mem_takeWhile_imp hc
  refine ⟨(cs.reverse.takeWhile (· == '0')).length, ?_⟩
  rw [dropZeros, ← List.reverse_replicate, ← List.eq_replicate_of_mem zeros, ← List.reverse_append,
    List.takeWhile_append_dropWhile, List.reverse_reverse]

theorem getLast?_dropZeros (cs : List Char) : (dropZeros cs).getLast? ≠ some '0' := by
  rw [dropZeros, List.getLast?_reverse]
  intro zero
  have kept := List.head?_dropWhile_not (· == '0') cs.reverse
  rw [zero] at kept
  exact absurd kept (by decide)

/-- The digits of a number behind so many zeros that there are more than `places`. -/
def padded (n places : Nat) : List Char :=
  List.replicate (places + 1 - (decimal n).length) '0' ++ decimal n

theorem digits_padded (n places : Nat) : Digits 10 (padded n places) n := by
  refine digits_ten_iff.2 ⟨by simp [padded, decimal_ne_nil], ?_, ?_⟩
  · rw [List.all_eq_true]
    intro c hc
    rcases List.mem_append.1 hc with zero | digit
    · rw [List.eq_of_mem_replicate zero]
      decide
    · exact isDigit_of_mem_decimal digit
  · rw [padded, ofDecimal_append, ofDecimal_replicate_zero, ofDecimal_decimal]
    omega

theorem lt_length_padded (n places : Nat) : places < (padded n places).length := by
  simp only [padded, List.length_append, List.length_replicate]
  omega

/-- A zero in front is the only digit before the places. -/
theorem length_padded_of_zero (some_places : 0 < places)
    (zero : (padded n places).head? = some '0') : (padded n places).length = places + 1 := by
  by_cases short : (decimal n).length ≤ places
  · simp only [padded, List.length_append, List.length_replicate]
    omega
  · -- without zeros in front, the first digit is a zero only if the number is
    have bare : padded n places = decimal n := by
      rw [padded, Nat.sub_eq_zero_of_le (by omega)]
      rfl
    rw [bare] at zero
    rw [head?_decimal zero] at short
    exact absurd some_places (by simpa [decimal] using short)

theorem canonical_whole (some_places : 0 < places) :
    let ws := (padded n places).take ((padded n places).length - places)
    Canonical ws (ofDecimal ws) := by
  intro ws
  have long := lt_length_padded n places
  have nonempty : ws ≠ [] := by
    apply List.ne_nil_of_length_pos
    rw [List.length_take]
    omega
  refine ⟨(digits_padded n places).of_subset (List.take_subset _ _) nonempty, fun zero => ?_⟩
  have first : (padded n places).head? = some '0' := by
    rw [← zero, List.head?_take, if_neg (by omega)]
  have single : ws.length = 1 := by
    rw [List.length_take, length_padded_of_zero some_places first]
    omega
  obtain ⟨c, same⟩ := List.length_eq_one_iff.1 single
  rw [same] at zero ⊢
  cases zero
  rfl

/-- The digits of a number are split at the places, and the last zeros are left out. -/
theorem pointed_split (some_places : 0 < places) :
    ∃ ws fs k, pointed n places = (if fs.isEmpty then ws else ws ++ '.' :: fs) ∧
      ws ++ (fs ++ List.replicate k '0') = padded n places ∧ fs.length + k = places ∧
      Canonical ws (ofDecimal ws) ∧ fs.getLast? ≠ some '0' := by
  have long := lt_length_padded n places
  have behind : ((padded n places).drop ((padded n places).length - places)).length = places := by
    rw [List.length_drop]
    omega
  obtain ⟨k, zeros⟩ :=
    dropZeros_append ((padded n places).drop ((padded n places).length - places))
  refine ⟨(padded n places).take ((padded n places).length - places),
    dropZeros ((padded n places).drop ((padded n places).length - places)), k,
    if_neg (by omega), ?_, ?_, canonical_whole some_places, getLast?_dropZeros _⟩
  · rw [zeros, List.take_append_drop]
  · have length := congrArg List.length zeros
    rw [behind, List.length_append, List.length_replicate] at length
    exact length

theorem pointed_numeral (n places : Nat) :
    ∃ q : ℚ, Pointed places (pointed n places) q ∧ q * 10 ^ places = n := by
  rcases Nat.eq_zero_or_pos places with rfl | some_places
  · exact ⟨n, .whole (canonical_iff.2 (if_pos rfl)), by simp⟩
  · obtain ⟨ws, fs, k, shown, joined, length, row, last⟩ := pointed_split (n := n) some_places
    have value : n = 10 ^ places * ofDecimal ws + 10 ^ k * ofDecimal fs := by
      have number := (digits_ten_iff.1 (digits_padded n places)).2.2
      rw [← joined, ofDecimal_append, ofDecimal_append, ofDecimal_replicate_zero,
        List.length_append, List.length_replicate, length] at number
      omega
    rw [shown]
    by_cases empty : fs = []
    · subst empty
      refine ⟨ofDecimal ws, .whole row, ?_⟩
      rw [value, show ofDecimal [] = 0 from rfl]
      push_cast
      ring
    · have fraction : Digits 10 fs (ofDecimal fs) :=
        (digits_padded n places).of_subset (fun c hc => by simp [← joined, hc]) empty
      refine ⟨ofDecimal ws + ofDecimal fs / 10 ^ fs.length, ?_, ?_⟩
      · rw [if_neg (by simpa using empty)]
        exact .broken row fraction (by omega) last
      · rw [value, ← length, pow_add]
        push_cast
        field_simp
        ring

/-- **Display.** What is shown of an amount is a decimal numeral without a needless digit, with no
more digits behind the point than the amount has places, and times that power of ten it is the
number of base units. So amounts with the same number of places are shown alike only if they are
the same number of base units. -/
theorem decimalText_canonical (a : Amount) :
    (∃ q : ℚ, Pointed a.decimals.toNat a.decimalText.toList q ∧
      q * 10 ^ a.decimals.toNat = a.value.toNat) ∧
    ∀ b : Amount, b.decimals = a.decimals →
      (b.decimalText = a.decimalText ↔ b.value = a.value) := by
  have shown : ∀ a : Amount, ∃ q : ℚ, Pointed a.decimals.toNat a.decimalText.toList q ∧
      q * 10 ^ a.decimals.toNat = a.value.toNat := by
    intro a
    rw [decimalText, String.toList_ofList]
    exact pointed_numeral a.value.toNat a.decimals.toNat
  refine ⟨shown a, fun b places => ⟨fun same => ?_, fun same => ?_⟩⟩
  · obtain ⟨q, numeral, value⟩ := shown a
    obtain ⟨q', numeral', value'⟩ := shown b
    rw [same] at numeral'
    rw [numeral'.value_unique numeral, places, value] at value'
    exact Word256.ext (Nat.cast_injective value'.symm)
  · rw [decimalText, decimalText, same, places]

/-- The least amounts that are shown with all places. -/
theorem decimalText_canonical_least :
    decimalText ⟨.ofUInt64 1, "btc", 8⟩ = "0.00000001" ∧
      decimalText ⟨.ofUInt64 10, "sat", 8⟩ ≠ decimalText ⟨.ofUInt64 1, "btc", 8⟩ := by
  refine ⟨by decide +kernel, ?_⟩
  rw [Ne, (decimalText_canonical ⟨.ofUInt64 1, "btc", 8⟩).2 ⟨.ofUInt64 10, "sat", 8⟩ rfl]
  decide

end Amount

end WalletHub
