import Mathlib.Data.List.DropRight
import Mathlib.Tactic.IntervalCases
import Mathlib.Tactic.Ring
import WalletHub.Amount

/-!
# Numerals

The grammar of the numbers that engines and services write, and what is read of a text. A number is
decimal digits, as many as one likes, or `0x` and up to 64 hexadecimal digits, and there may be
blanks around it. Reading follows this grammar except for one thing: behind `0x` or `0X` a second
`0x` is passed over, and then there need not be a digit.

* `Text.digits_ten_iff`, `Text.digits_sixteen_iff`: rows of digits, and what they are read as.
* `Text.canonical_iff`: a number has one row that does not begin with a needless zero.
* `Word256.parse_iff_writes`: what is read, without the blanks.
* `Word256.parse_grammar`: what is read, and what becomes of all other texts.
-/
namespace WalletHub

namespace Text

/-! ## Digits -/

/-- The character is the digit `d` of a base of at most sixteen, a small or a capital one. -/
def IsDigit (base : Nat) (c : Char) (d : Nat) : Prop :=
  d < base ∧ (c = Nat.digitChar d ∨ c = (Nat.digitChar d).toUpper)

/-- A row of digits, most significant first, and the number it is in a base. -/
inductive Digits (base : Nat) : List Char → Nat → Prop
  | one {c : Char} {d : Nat} (digit : IsDigit base c d) : Digits base [c] d
  | more {cs : List Char} {n : Nat} {c : Char} {d : Nat} (row : Digits base cs n)
      (digit : IsDigit base c d) : Digits base (cs ++ [c]) (base * n + d)

theorem isDigit_ten_iff {c : Char} {d : Nat} :
    IsDigit 10 c d ↔ c.isDigit = true ∧ c.toNat - '0'.toNat = d := by
  constructor
  · rintro ⟨small, spelled⟩
    interval_cases d <;> rcases spelled with rfl | rfl <;> decide
  · rintro ⟨digit, rfl⟩
    simp only [Char.isDigit, Bool.and_eq_true, decide_eq_true_eq, UInt32.le_iff_toNat_le] at digit
    obtain ⟨low, high⟩ := digit
    have low : 48 ≤ c.toNat := low
    have high : c.toNat ≤ 57 := high
    have zero : '0'.toNat = 48 := rfl
    refine ⟨by omega, .inl (Char.toNat_inj.1 ?_)⟩
    rw [Nat.toNat_digitChar_of_lt_ten (by omega)]
    omega

theorem toNat_digitChar_letter {d : Nat} (ten : 10 ≤ d) (small : d < 16) :
    (Nat.digitChar d).toNat = 87 + d ∧ (Nat.digitChar d).toUpper.toNat = 55 + d := by
  interval_cases d <;> decide

theorem isDigit_sixteen_iff {c : Char} {d : Nat} : IsDigit 16 c d ↔ hexDigit? c = some d := by
  constructor
  · rintro ⟨small, spelled⟩
    interval_cases d <;> rcases spelled with rfl | rfl <;> decide
  · intro read
    have le_iff : ∀ a b : Char, a ≤ b ↔ a.toNat ≤ b.toNat := fun _ _ => Iff.rfl
    simp only [hexDigit?, le_iff, show '0'.toNat = 48 from rfl, show '9'.toNat = 57 from rfl,
      show 'a'.toNat = 97 from rfl, show 'f'.toNat = 102 from rfl, show 'A'.toNat = 65 from rfl,
      show 'F'.toNat = 70 from rfl] at read
    split at read
    · cases read
      refine ⟨by omega, .inl (Char.toNat_inj.1 ?_)⟩
      rw [Nat.toNat_digitChar_of_lt_ten (by omega)]
      omega
    · split at read
      · cases read
        refine ⟨by omega, .inl (Char.toNat_inj.1 ?_)⟩
        rw [(toNat_digitChar_letter (by omega) (by omega)).1]
        omega
      · split at read
        · cases read
          refine ⟨by omega, .inr (Char.toNat_inj.1 ?_)⟩
          rw [(toNat_digitChar_letter (by omega) (by omega)).2]
          omega
        · cases read

/-- A decimal digit has no capital. -/
theorem IsDigit.eq_digitChar {c : Char} {d : Nat} (digit : IsDigit 10 c d) :
    c = Nat.digitChar d := by
  obtain ⟨small, rfl | rfl⟩ := digit
  · rfl
  · interval_cases d <;> rfl

/-! ## Rows of digits -/

namespace Digits

variable {base n : Nat} {cs : List Char}

theorem mem (row : Digits base cs n) {c : Char} (held : c ∈ cs) : ∃ d, IsDigit base c d := by
  induction row with
  | one digit => exact ⟨_, List.mem_singleton.1 held ▸ digit⟩
  | more row digit ih =>
    rcases List.mem_append.1 held with held | held
    · exact ih held
    · exact ⟨_, List.mem_singleton.1 held ▸ digit⟩

theorem ne_nil (row : Digits base cs n) : cs ≠ [] := by
  cases row <;> simp

/-- A row of digits is less than a one and as many zeros. -/
theorem lt (row : Digits base cs n) : n < base ^ cs.length := by
  induction row with
  | one digit => simpa using digit.1
  | @more cs n c d row digit ih =>
    rw [List.length_append, List.length_singleton, pow_succ]
    calc base * n + d < base * n + base := Nat.add_lt_add_left digit.1 _
      _ = (n + 1) * base := by ring
      _ ≤ base ^ cs.length * base := Nat.mul_le_mul_right base ih

/-- A reader that begins with zero and takes in one digit after the other reads the rows of digits
as the numbers they are. -/
theorem iff_read (read : List Char → Option Nat) {digit? : Char → Option Nat}
    (digits : ∀ c d, IsDigit base c d ↔ digit? c = some d) (start : read [] = some 0)
    (next : ∀ cs c, read (cs ++ [c]) =
      (read cs).bind fun n => (digit? c).map fun d => base * n + d) :
    Digits base cs n ↔ cs ≠ [] ∧ read cs = some n := by
  have single : ∀ c, read [c] = digit? c := by
    intro c
    rw [← List.nil_append [c], next, start]
    simp
  constructor
  · intro row
    refine ⟨row.ne_nil, ?_⟩
    induction row with
    | one digit => rw [single, (digits _ _).1 digit]
    | more row digit ih =>
      simp only [next, ih, (digits _ _).1 digit, Option.bind_some, Option.map_some]
  · rintro ⟨nonempty, known⟩
    induction cs using List.reverseRecOn generalizing n with
    | nil => exact absurd rfl nonempty
    | append_singleton cs c ih =>
      rcases List.eq_nil_or_concat cs with rfl | ⟨front, last, rfl⟩
      · rw [List.nil_append, single] at known
        exact .one ((digits _ _).2 known)
      · rw [next, Option.bind_eq_some_iff] at known
        obtain ⟨m, before, known⟩ := known
        obtain ⟨d, digit, rfl⟩ := Option.map_eq_some_iff.1 known
        exact .more (ih (by simp) before) ((digits _ _).2 digit)

end Digits

theorem ofHex?_append_singleton (cs : List Char) (c : Char) :
    ofHex? (cs ++ [c]) = (ofHex? cs).bind fun n => (hexDigit? c).map fun d => 16 * n + d := by
  rw [ofHex?, ofHexFrom?_append]
  refine congrArg (Option.bind _) (funext fun n => ?_)
  simp only [ofHexFrom?]
  cases hexDigit? c <;> rfl

theorem digits_sixteen_iff {cs : List Char} {n : Nat} :
    Digits 16 cs n ↔ cs ≠ [] ∧ ofHex? cs = some n :=
  Digits.iff_read ofHex? (fun _ _ => isDigit_sixteen_iff) rfl ofHex?_append_singleton

theorem digits_ten_iff {cs : List Char} {n : Nat} :
    Digits 10 cs n ↔ cs ≠ [] ∧ cs.all Char.isDigit = true ∧ ofDecimal cs = n := by
  have digits : ∀ c d, IsDigit 10 c d ↔
      (if c.isDigit then some (c.toNat - '0'.toNat) else none) = some d := by
    intro c d
    rw [isDigit_ten_iff]
    split <;> simp [*]
  rw [Digits.iff_read (fun cs => if cs.all Char.isDigit then some (ofDecimal cs) else none) digits
    rfl fun cs c => by
      simp only [List.all_append, List.all_cons, List.all_nil, Bool.and_true, ofDecimal,
        Nat.ofDigitChars_append, Nat.ofDigitChars_cons, Nat.ofDigitChars_nil]
      cases cs.all Char.isDigit <;> cases c.isDigit <;> rfl]
  split <;> simp [*]

theorem Digits.value_unique {cs : List Char} {m n : Nat} (hm : Digits 10 cs m)
    (hn : Digits 10 cs n) : m = n :=
  (digits_ten_iff.1 hm).2.2.symm.trans (digits_ten_iff.1 hn).2.2

theorem digits_decimal (n : Nat) : Digits 10 (decimal n) n :=
  digits_ten_iff.2 ⟨decimal_ne_nil n, List.all_eq_true.2 fun _ => isDigit_of_mem_decimal,
    ofDecimal_decimal n⟩

/-! ## Canonical rows -/

/-- A row of decimal digits that does not begin with a zero, unless that is all of it. -/
def Canonical (cs : List Char) (n : Nat) : Prop :=
  Digits 10 cs n ∧ (cs.head? = some '0' → cs = ['0'])

theorem head?_decimal {n : Nat} (zero : (decimal n).head? = some '0') : n = 0 := by
  induction n using Nat.strongRecOn with
  | ind n ih =>
    by_cases small : n < 10
    · rw [decimal, Nat.toDigits_of_lt_base small, List.head?_cons, Option.some.injEq,
        Nat.digitChar_eq_zero] at zero
      exact zero
    · rw [decimal, Nat.toDigits_of_base_le (by decide) (by omega),
        List.head?_append_of_ne_nil _ Nat.toDigits_ne_nil] at zero
      have := ih (n / 10) (by omega) zero
      omega

/-- The canonical row of a number is the way it is written. -/
theorem canonical_iff {cs : List Char} {n : Nat} : Canonical cs n ↔ cs = decimal n := by
  constructor
  · rintro ⟨row, plain⟩
    induction row with
    | one digit => rw [decimal, Nat.toDigits_of_lt_base digit.1, digit.eq_digitChar]
    | @more cs n c d row digit ih =>
      -- the zero that begins a longer row is needless, so the digits before the last are no zero
      have front : cs.head? ≠ some '0' := by
        intro zero
        have short := congrArg List.length
          (plain (by rw [List.head?_append_of_ne_nil _ row.ne_nil, zero]))
        have := List.length_pos_of_ne_nil row.ne_nil
        simp only [List.length_append, List.length_singleton] at short
        omega
      have written := ih fun zero => absurd zero front
      have positive : 0 < n := by
        rcases Nat.eq_zero_or_pos n with rfl | positive
        · exact absurd (by rw [written]; rfl) front
        · exact positive
      rw [written, digit.eq_digitChar, decimal, decimal, ← Nat.toDigits_of_lt_base digit.1,
        Nat.toDigits_append_toDigits (by decide) positive digit.1]
  · rintro rfl
    exact ⟨digits_decimal n, fun zero => by rw [head?_decimal zero]; rfl⟩

end Text

namespace Word256

open Text (Digits)

/-! ## Texts of numbers -/

/-- A character that says, behind a zero, that hexadecimal digits follow. -/
def IsMarker (m : Char) : Prop := m = 'x' ∨ m = 'X'

/-- A text that writes a number of 256 bits: decimal digits, or a marker and up to 64 hexadecimal
digits. -/
inductive Numeral : List Char → Nat → Prop
  | decimal {cs : List Char} {n : Nat} (row : Digits 10 cs n) (fits : n < size) : Numeral cs n
  | hexadecimal {m : Char} {cs : List Char} {n : Nat} (marker : IsMarker m) (row : Digits 16 cs n)
      (short : cs.length ≤ 64) : Numeral ('0' :: m :: cs) n

/-- A text with a second marker behind the first. No digits at all are a zero. -/
inductive Remarked : List Char → Nat → Prop
  | bare {m : Char} (marker : IsMarker m) : Remarked ['0', m, '0', 'x'] 0
  | digits {m : Char} {cs : List Char} {n : Nat} (marker : IsMarker m) (row : Digits 16 cs n)
      (short : cs.length ≤ 64) : Remarked ('0' :: m :: '0' :: 'x' :: cs) n

variable {m : Char} {cs : List Char} {n : Nat} {w : Word256}

theorem not_digits_of_marker {base : Nat} (marker : IsMarker m) (small : base ≤ 16)
    (held : m ∈ cs) : ¬Digits base cs n := by
  intro row
  obtain ⟨d, digit, spelled⟩ := row.mem held
  have read := Text.isDigit_sixteen_iff.1 ⟨Nat.lt_of_lt_of_le digit small, spelled⟩
  rcases marker with rfl | rfl <;> cases read

theorem unmarked_of_digits (row : Digits 10 cs n) (m : Char) (rest : List Char)
    (marker : IsMarker m) : cs ≠ '0' :: m :: rest := by
  rintro rfl
  exact not_digits_of_marker marker (by decide) (by simp) row

theorem numeral_marked_iff (marker : IsMarker m) :
    Numeral ('0' :: m :: cs) n ↔ Digits 16 cs n ∧ cs.length ≤ 64 := by
  constructor
  · intro numeral
    cases numeral with
    | decimal row _ => exact absurd rfl (unmarked_of_digits row m cs marker)
    | hexadecimal _ row short => exact ⟨row, short⟩
  · rintro ⟨row, short⟩
    exact .hexadecimal marker row short

theorem remarked_iff (marker : IsMarker m) :
    Remarked ('0' :: m :: cs) n ↔
      ∃ rest, cs = '0' :: 'x' :: rest ∧ rest.length ≤ 64 ∧ Text.ofHex? rest = some n := by
  constructor
  · intro remarked
    cases remarked with
    | bare => exact ⟨[], rfl, by simp, rfl⟩
    | @digits _ cs _ _ row short =>
      exact ⟨cs, rfl, short, (Text.digits_sixteen_iff.1 row).2⟩
  · rintro ⟨rest, rfl, short, read⟩
    by_cases empty : rest = []
    · subst empty
      cases read
      exact .bare marker
    · exact .digits marker (Text.digits_sixteen_iff.2 ⟨empty, read⟩) short

/-- A text without a marker writes the number that its digits are. -/
theorem writes_unmarked_iff (unmarked : ∀ m rest, IsMarker m → cs ≠ '0' :: m :: rest) :
    Numeral cs n ∨ Remarked cs n ↔ Digits 10 cs n ∧ n < size := by
  constructor
  · rintro (numeral | remarked)
    · cases numeral with
      | decimal row fits => exact ⟨row, fits⟩
      | hexadecimal marker => exact absurd rfl (unmarked _ _ marker)
    · cases remarked with
      | bare marker => exact absurd rfl (unmarked _ _ marker)
      | digits marker => exact absurd rfl (unmarked _ _ marker)
  · exact fun ⟨row, fits⟩ => .inl (.decimal row fits)

theorem lt_size_of_writes (writes : Numeral cs n ∨ Remarked cs n) : n < size := by
  have short : ∀ {cs n}, Digits 16 cs n → cs.length ≤ 64 → n < size := by
    intro cs n row short
    calc n < 16 ^ cs.length := row.lt
      _ ≤ 16 ^ 64 := Nat.pow_le_pow_right (by decide) short
  rcases writes with numeral | remarked
  · cases numeral with
    | decimal _ fits => exact fits
    | hexadecimal _ row few => exact short row few
  · cases remarked with
    | bare => decide
    | digits _ row few => exact short row few

/-! ## Reading -/

/-- What is read behind a marker: a second one is passed over. -/
def behindMarker : List Char → List Char
  | '0' :: 'x' :: rest => rest
  | cs => cs

theorem behindMarker_of_unmarked (unmarked : ∀ rest, cs ≠ '0' :: 'x' :: rest) :
    behindMarker cs = cs := by
  unfold behindMarker
  split
  · exact absurd rfl (unmarked _)
  · rfl

/-- A hexadecimal digit is one octet, which is read as that digit. -/
theorem utf8EncodeChar_of_hexDigit? {c : Char} {d : Nat} (digit : Text.hexDigit? c = some d) :
    ∃ b, String.utf8EncodeChar c = [b] ∧ Text.Hex.digit? b = some d := by
  obtain ⟨small, spelled⟩ := Text.isDigit_sixteen_iff.2 digit
  interval_cases d <;> rcases spelled with rfl | rfl <;> exact ⟨_, rfl, by decide⟩

/-- Hexadecimal digits are as many octets, and none of these is refused. -/
theorem octets_of_hexDigits (digits : ∀ c ∈ cs, (Text.hexDigit? c).isSome = true) :
    (Text.utf8 (String.ofList cs)).length = cs.length ∧
      ∀ i, badHexDigit? i (Text.utf8 (String.ofList cs)) = none := by
  rw [Text.utf8_ofList]
  induction cs with
  | nil => exact ⟨rfl, fun _ => rfl⟩
  | cons c cs ih =>
    obtain ⟨d, digit⟩ := Option.isSome_iff_exists.1 (digits c List.mem_cons_self)
    obtain ⟨b, octet, same⟩ := utf8EncodeChar_of_hexDigit? digit
    obtain ⟨length, accepted⟩ := ih fun c hc => digits c (List.mem_cons_of_mem _ hc)
    simp [octet, badHexDigit?, same, length, accepted]

/-- A second marker may as well stand there. -/
theorem parseHexDigits_behindMarker (cs : List Char) :
    parseHexDigits ('0' :: 'x' :: behindMarker cs) = parseHexDigits cs := by
  unfold behindMarker
  split
  · rfl
  · rename_i unmarked
    conv =>
      rhs
      unfold parseHexDigits
    split
    · exact absurd rfl (unmarked _)
    · rfl

/-- Behind two markers, what is too long or has an octet that is no digit is refused. -/
theorem parseHexDigits_second (ds : List Char) :
    let bytes := Text.utf8 (String.ofList ds)
    parseHexDigits ('0' :: 'x' :: ds) =
      if 64 < bytes.length then .error .hexTooLong
      else (badHexDigit? (bytes.length % 2) bytes).elim
        (((Text.ofHex? ds).bind ofNat?).elim (.error .hexTooLong) .ok)
        fun bad => .error (.badHexDigit bad.1 bad.2) := by
  intro bytes
  simp only [parseHexDigits, bytes]
  congr 1
  cases badHexDigit? _ _ with
  | some bad => rfl
  | none => cases (Text.ofHex? ds).bind ofNat? <;> rfl

theorem parseHexDigits_eq_ok_iff :
    parseHexDigits cs = .ok w ↔
      (behindMarker cs).length ≤ 64 ∧ Text.ofHex? (behindMarker cs) = some w.toNat := by
  rw [← parseHexDigits_behindMarker, parseHexDigits_second]
  generalize behindMarker cs = cs
  constructor
  · intro read
    split at read
    · cases read
    · rename_i short
      cases refused : badHexDigit? ((Text.utf8 (String.ofList cs)).length % 2)
          (Text.utf8 (String.ofList cs)) with
      | some bad =>
        rw [refused] at read
        cases read
      | none =>
        rw [refused, Option.elim_none] at read
        cases known : (Text.ofHex? cs).bind ofNat? with
        | none =>
          rw [known] at read
          cases read
        | some v =>
          rw [known] at read
          cases read
          obtain ⟨n, row, fits⟩ := Option.bind_eq_some_iff.1 known
          obtain ⟨length, -⟩ := octets_of_hexDigits (Text.hexDigit?_of_ofHexFrom? row)
          exact ⟨by omega, ofNat?_eq_some.1 fits ▸ row⟩
  · rintro ⟨short, row⟩
    obtain ⟨length, accepted⟩ := octets_of_hexDigits (Text.hexDigit?_of_ofHexFrom? row)
    simp only [length, accepted, row, Option.bind_some, ofNat?_toNat]
    rw [if_neg (by omega)]
    rfl

theorem parseDecimalDigits_eq_ok_iff :
    parseDecimalDigits cs = .ok w ↔ cs.all Char.isDigit = true ∧ Text.ofDecimal cs = w.toNat := by
  unfold parseDecimalDigits
  split
  · rename_i digits
    simp only [digits, true_and]
    constructor
    · intro read
      split at read
      · rename_i v known
        cases read
        exact (ofNat?_eq_some.1 known).symm
      · cases read
    · intro value
      rw [value, ofNat?_toNat]
  · simp [*]

/-- What stands behind a marker is read as hexadecimal digits, if there is anything. -/
theorem parseStripped_marked (marker : IsMarker m) (nonempty : cs ≠ []) :
    parseStripped ('0' :: m :: cs) = parseHexDigits cs := by
  obtain ⟨c, rest, rfl⟩ := List.exists_cons_of_ne_nil nonempty
  rcases marker with rfl | rfl <;> rfl

/-- What has no marker is read as decimal digits, if there is anything. -/
theorem parseStripped_unmarked (nonempty : cs ≠ [])
    (unmarked : ∀ m rest, IsMarker m → cs ≠ '0' :: m :: rest) :
    parseStripped cs = parseDecimalDigits cs := by
  unfold parseStripped
  split
  · exact absurd rfl nonempty
  · exact absurd rfl (unmarked _ _ (.inl rfl))
  · exact absurd rfl (unmarked _ _ (.inr rfl))
  · exact absurd rfl (unmarked _ _ (.inl rfl))
  · exact absurd rfl (unmarked _ _ (.inr rfl))
  · rfl

theorem parseStripped_marked_iff (marker : IsMarker m) :
    parseStripped ('0' :: m :: cs) = .ok w ↔
      Numeral ('0' :: m :: cs) w.toNat ∨ Remarked ('0' :: m :: cs) w.toNat := by
  rw [numeral_marked_iff marker, remarked_iff marker]
  by_cases second : ∃ rest, cs = '0' :: 'x' :: rest
  · obtain ⟨rest, rfl⟩ := second
    have mark : ¬Digits 16 ('0' :: 'x' :: rest) w.toNat :=
      not_digits_of_marker (.inl rfl) (by decide) (by simp)
    rw [parseStripped_marked marker (by simp), parseHexDigits_eq_ok_iff]
    simp [mark, behindMarker]
  · have unmarked : ∀ rest, cs ≠ '0' :: 'x' :: rest := fun rest same => second ⟨rest, same⟩
    have once : ¬∃ rest, cs = '0' :: 'x' :: rest ∧ rest.length ≤ 64 ∧
        Text.ofHex? rest = some w.toNat := fun ⟨rest, same, _⟩ => second ⟨rest, same⟩
    rw [or_iff_left once, Text.digits_sixteen_iff]
    by_cases empty : cs = []
    · subst empty
      rcases marker with rfl | rfl <;> simp [parseStripped]
    · rw [parseStripped_marked marker empty, parseHexDigits_eq_ok_iff,
        behindMarker_of_unmarked unmarked]
      simp [empty, and_comm]

theorem parseStripped_unmarked_iff (unmarked : ∀ m rest, IsMarker m → cs ≠ '0' :: m :: rest) :
    parseStripped cs = .ok w ↔ Numeral cs w.toNat ∨ Remarked cs w.toNat := by
  rw [writes_unmarked_iff unmarked, and_iff_left w.lt, Text.digits_ten_iff]
  by_cases empty : cs = []
  · subst empty
    simp [parseStripped]
  · rw [parseStripped_unmarked empty unmarked, parseDecimalDigits_eq_ok_iff]
    simp [empty]

theorem parse_iff_stripped {raw : String} :
    parse raw = .ok w ↔ parseStripped (Text.strip raw.toList) = .ok w := by
  unfold parse
  cases parseStripped (Text.strip raw.toList) <;> simp

/-- A text is read as the number that it writes, blanks at its ends apart. -/
theorem parse_iff_writes {raw : String} :
    parse raw = .ok w ↔ Numeral (Text.strip raw.toList) w.toNat ∨
      Remarked (Text.strip raw.toList) w.toNat := by
  rw [parse_iff_stripped]
  generalize Text.strip raw.toList = cs
  by_cases marked : ∃ m rest, IsMarker m ∧ cs = '0' :: m :: rest
  · obtain ⟨m, rest, marker, rfl⟩ := marked
    exact parseStripped_marked_iff marker
  · exact parseStripped_unmarked_iff fun m rest marker same => marked ⟨m, rest, marker, same⟩

/-- **Reading.** What is read of a text, blanks at its ends apart, is the number that it is a
numeral of, or that stands behind two markers. Any other text is refused, and the refusal names it. -/
theorem parse_grammar (raw : String) :
    (∀ n, (∃ w, parse raw = .ok w ∧ w.toNat = n) ↔
      Numeral (Text.strip raw.toList) n ∨ Remarked (Text.strip raw.toList) n) ∧
    ((∃ w, parse raw = .ok w) ∨ ∃ reason, parse raw = .error (.invalidAmount raw reason)) := by
  constructor
  · intro n
    constructor
    · rintro ⟨w, read, rfl⟩
      exact parse_iff_writes.1 read
    · intro writes
      exact ⟨⟨n, lt_size_of_writes writes⟩, parse_iff_writes.2 writes, rfl⟩
  · unfold parse
    cases parseStripped (Text.strip raw.toList) <;> simp

/-- A text with two markers is no numeral, and yet it is read. -/
theorem parse_remarked :
    ∃ w, parse "0x0xff" = .ok w ∧ w.toNat = 255 ∧ ∀ n, ¬Numeral (Text.strip "0x0xff".toList) n := by
  refine ⟨.ofUInt64 255, by decide +kernel, by decide, ?_⟩
  have text : Text.strip "0x0xff".toList = ['0', 'x', '0', 'x', 'f', 'f'] := by decide
  intro n numeral
  rw [text, numeral_marked_iff (.inl rfl)] at numeral
  exact not_digits_of_marker (.inl rfl) (by decide) (by decide) numeral.1

end Word256

end WalletHub
