/-!
# Numerals

Digits of a natural number, most significant first and without leading zeros, in base ten and in
base sixteen, and the number a row of digits stands for. `ofDecimal_decimal` and
`ofHex?_hexadecimal` say that reading gives back what was written.
-/
namespace WalletHub.Text

/-- The decimal digits of a number; zero is the single digit `0`. -/
def decimal (n : Nat) : List Char := Nat.toDigits 10 n

/-- The number a row of decimal digits stands for. -/
def ofDecimal (cs : List Char) : Nat := Nat.ofDigitChars 10 cs 0

theorem ofDecimal_decimal (n : Nat) : ofDecimal (decimal n) = n :=
  Nat.ofDigitChars_toDigits (by decide) (by decide)

theorem isDigit_of_mem_decimal {n : Nat} {c : Char} (h : c ∈ decimal n) : c.isDigit = true :=
  Nat.isDigit_of_mem_toDigits (by decide) (by decide) h

theorem decimal_ne_nil (n : Nat) : decimal n ≠ [] := Nat.toDigits_ne_nil

/-- The lower-case hexadecimal digits of a number; zero is the single digit `0`. -/
def hexadecimal (n : Nat) : List Char := Nat.toDigits 16 n

/-- The value of a hexadecimal digit of either case. -/
def hexDigit? (c : Char) : Option Nat :=
  if '0' ≤ c ∧ c ≤ '9' then some (c.toNat - '0'.toNat)
  else if 'a' ≤ c ∧ c ≤ 'f' then some (c.toNat - 'a'.toNat + 10)
  else if 'A' ≤ c ∧ c ≤ 'F' then some (c.toNat - 'A'.toNat + 10)
  else none

/-- `acc` followed by a row of hexadecimal digits. -/
def ofHexFrom? (acc : Nat) : List Char → Option Nat
  | [] => some acc
  | c :: cs => (hexDigit? c).bind fun d => ofHexFrom? (16 * acc + d) cs

/-- The number a row of hexadecimal digits stands for; an empty row is zero. -/
def ofHex? (cs : List Char) : Option Nat := ofHexFrom? 0 cs

/-- A number in decimal, as a string. -/
def natText (n : Nat) : String := String.ofList (decimal n)

/-- An integer in decimal, with a minus sign when negative. -/
def intText (i : Int) : String :=
  if i < 0 then "-" ++ natText i.natAbs else natText i.natAbs

/-- A number in hexadecimal behind `0x`, as a string. -/
def hexText (n : Nat) : String := "0x" ++ String.ofList (hexadecimal n)

theorem hexDigit?_digitChar {d : Nat} (h : d < 16) : hexDigit? (Nat.digitChar d) = some d := by
  rcases d with _ | _ | _ | _ | _ | _ | _ | _ | _ | _ | _ | _ | _ | _ | _ | _ | d
  all_goals first | decide | omega

theorem ofHexFrom?_append (acc : Nat) (xs ys : List Char) :
    ofHexFrom? acc (xs ++ ys) = (ofHexFrom? acc xs).bind fun n => ofHexFrom? n ys := by
  induction xs generalizing acc with
  | nil => rfl
  | cons c cs ih =>
    simp only [List.cons_append, ofHexFrom?]
    cases hexDigit? c with
    | none => rfl
    | some d => simpa using ih _

/-- Only digits are read as a number. -/
theorem hexDigit?_of_ofHexFrom? {cs : List Char} {acc n : Nat}
    (read : ofHexFrom? acc cs = some n) : ∀ c ∈ cs, (hexDigit? c).isSome := by
  induction cs generalizing acc with
  | nil => exact fun _ h => absurd h List.not_mem_nil
  | cons c cs ih =>
    obtain ⟨d, digit, rest⟩ := Option.bind_eq_some_iff.1 read
    exact List.forall_mem_cons.2 ⟨Option.isSome_of_eq_some digit, ih rest⟩

theorem ofHex?_hexadecimal (n : Nat) : ofHex? (hexadecimal n) = some n := by
  induction n using Nat.strongRecOn with
  | ind n ih =>
    unfold ofHex? hexadecimal
    by_cases h : n < 16
    · rw [Nat.toDigits_of_lt_base h]
      simp [ofHexFrom?, hexDigit?_digitChar h]
    · have h16 : 16 ≤ n := by omega
      have hd : n % 16 < 16 := Nat.mod_lt n (by decide)
      rw [Nat.toDigits_of_base_le (by decide) h16, ofHexFrom?_append]
      have hq := ih (n / 16) (by omega)
      unfold ofHex? hexadecimal at hq
      rw [hq]
      simp [ofHexFrom?, hexDigit?_digitChar hd]
      omega

end WalletHub.Text
