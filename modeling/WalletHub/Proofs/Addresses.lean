import WalletHub.Proofs.Handover

/-!
# Two ways to an address

An address comes as a text from an application and as octets from an engine, and the hub hands
what it read in one way back to be read in the other. Both ways agree: on a chain of outputs the
octets are the text, and on a chain of accounts the text spells the octets, with small and capital
digits. What was read once is in a normal form, which is read as itself.

* `Text.Hex.decode_eq_ok_iff`: the texts that are read as octets are those that spell them.
* `Address.parse_account_iff`: the texts that are read as an account.
* `Address.intake_agrees`: both ways agree, and addresses come back.
-/
namespace WalletHub

namespace Text

/-! ## Digits of either case -/

theorem toNat_toLower_of_capital {c : Char} (capital : 65 ≤ c.toNat ∧ c.toNat ≤ 90) :
    c.toLower.toNat = c.toNat + 32 := by
  have inside : c.val ≥ 'A'.val ∧ c.val ≤ 'Z'.val := capital
  have bound : c.val.toNat ≤ 90 := capital.2
  have shift : ('a'.val - 'A'.val).toNat = 32 := rfl
  have lower : c.toLower.val = c.val + ('a'.val - 'A'.val) := congrArg Char.val (dif_pos inside)
  simp only [Char.toNat, lower, UInt32.toNat_add]
  omega

theorem toLower_of_not_capital {c : Char} (plain : ¬(65 ≤ c.toNat ∧ c.toNat ≤ 90)) :
    c.toLower = c := by
  have outside : ¬(c.val ≥ 'A'.val ∧ c.val ≤ 'Z'.val) := plain
  exact dif_neg outside

/-- A hexadecimal digit of either case is the small one in lower case. -/
theorem hexDigit?_eq_some_iff {c : Char} {d : Nat} :
    hexDigit? c = some d ↔ d < 16 ∧ c.toLower = Nat.digitChar d := by
  rw [← isDigit_sixteen_iff]
  constructor
  · rintro ⟨small, spelled⟩
    refine ⟨small, ?_⟩
    interval_cases d <;> rcases spelled with rfl | rfl <;> decide
  · rintro ⟨small, lower⟩
    refine ⟨small, ?_⟩
    by_cases capital : 65 ≤ c.toNat ∧ c.toNat ≤ 90
    · have shifted := toNat_toLower_of_capital capital
      rw [lower] at shifted
      by_cases ten : d < 10
      · -- the digits up to nine stand before all letters
        rw [Nat.toNat_digitChar_of_lt_ten ten] at shifted
        omega
      · obtain ⟨digit, upper⟩ := toNat_digitChar_letter (Nat.not_lt.1 ten) small
        exact .inr (Char.toNat_inj.1 (by omega))
    · exact .inl (by rw [← lower, toLower_of_not_capital capital])

/-- A hexadecimal digit is neither blank nor the second half of a marker. -/
theorem visible_of_hexDigit? {c : Char} {d : Nat} (digit : hexDigit? c = some d) :
    isBlank c = false ∧ c ≠ 'x' ∧ c ≠ 'X' := by
  obtain ⟨small, spelled⟩ := isDigit_sixteen_iff.2 digit
  interval_cases d <;> rcases spelled with rfl | rfl <;> decide

namespace Hex

/-! ## Octets that are spelled -/

/-- The characters are the digits of the octets, each of them a small or a capital one. -/
def Spells (cs : List Char) (bytes : List UInt8) : Prop := cs.map Char.toLower = encode bytes

variable {cs : List Char} {bytes : List UInt8} {b : UInt8}

theorem spells_nil_iff : Spells cs [] ↔ cs = [] := List.map_eq_nil_iff

/-- An octet is spelled by two digits, high half first. -/
theorem spells_cons_iff :
    Spells cs (b :: bytes) ↔ ∃ x y rest, cs = x :: y :: rest ∧
      hexDigit? x = some (b.toNat / 16) ∧ hexDigit? y = some (b.toNat % 16) ∧
      Spells rest bytes := by
  have small := b.toNat_lt
  have digits : encode (b :: bytes) =
      Nat.digitChar (b.toNat / 16) :: Nat.digitChar (b.toNat % 16) :: encode bytes := rfl
  simp only [Spells, digits, hexDigit?_eq_some_iff, List.map_eq_cons_iff]
  constructor
  · rintro ⟨x, _, rfl, high, y, rest, rfl, low, spelled⟩
    exact ⟨x, y, rest, rfl, ⟨by omega, high⟩, ⟨by omega, low⟩, spelled⟩
  · rintro ⟨x, y, rest, rfl, ⟨-, high⟩, ⟨-, low⟩, spelled⟩
    exact ⟨x, _, rfl, high, y, rest, rfl, low, spelled⟩

theorem spells_encode (bytes : List UInt8) : Spells (encode bytes) bytes := by
  induction bytes with
  | nil => exact spells_nil_iff.2 rfl
  | cons b bytes ih =>
    have small := b.toNat_lt
    exact spells_cons_iff.2 ⟨_, _, encode bytes, rfl, hexDigit?_digitChar (by omega),
      hexDigit?_digitChar (by omega), ih⟩

theorem Spells.digits (spelled : Spells cs bytes) : ∀ c ∈ cs, ∃ d, hexDigit? c = some d := by
  induction bytes generalizing cs with
  | nil =>
    rw [spells_nil_iff.1 spelled]
    exact fun c hc => absurd hc List.not_mem_nil
  | cons b bytes ih =>
    obtain ⟨x, y, rest, rfl, high, low, spelled⟩ := spells_cons_iff.1 spelled
    exact List.forall_mem_cons.2 ⟨⟨_, high⟩, List.forall_mem_cons.2 ⟨⟨_, low⟩, ih spelled⟩⟩

/-! ## Octets that are read -/

theorem utf8_cons (c : Char) (cs : List Char) :
    utf8 (String.ofList (c :: cs)) = String.utf8EncodeChar c ++ utf8 (String.ofList cs) := by
  rw [utf8_ofList, utf8_ofList, List.flatMap_cons]

theorem toNat_ofUInt8 (b : UInt8) : (Char.ofUInt8 b).toNat = b.toNat := UInt8.toNat_toUInt32 b

theorem toNat_lt_of_digit? {d : Nat} (digit : digit? b = some d) : b.toNat < 128 := by
  obtain ⟨small, spelled⟩ := isDigit_sixteen_iff.2 digit
  rw [← toNat_ofUInt8]
  interval_cases d <;> rcases spelled with ascii | ascii <;> rw [ascii] <;> decide

/-- An octet that is a digit is all of its character. -/
theorem hexDigit?_of_digit? {c : Char} {tail : List UInt8} {d : Nat}
    (octets : String.utf8EncodeChar c = b :: tail) (digit : digit? b = some d) :
    tail = [] ∧ hexDigit? c = some d := by
  -- the octets of a longer character begin with a large one
  have large : ∀ n, 128 ≤ n → n < 256 → UInt8.ofNat n ≠ b := by
    rintro n low high rfl
    have ascii := toNat_lt_of_digit? digit
    rw [UInt8.toNat_ofNat'] at ascii
    omega
  have number : c.val.toNat = c.toNat := rfl
  simp only [String.utf8EncodeChar, number] at octets
  split at octets
  · obtain ⟨rfl, rfl⟩ := List.cons.inj octets
    have same : Char.ofUInt8 (UInt8.ofNat c.toNat) = c := by
      rw [← Char.toNat_inj, toNat_ofUInt8, UInt8.toNat_ofNat']
      omega
    exact ⟨rfl, by rwa [digit?, same] at digit⟩
  · split at octets
    · exact absurd (List.cons.inj octets).1 (large _ (by omega) (by omega))
    · split at octets
      · exact absurd (List.cons.inj octets).1 (large _ (by omega) (by omega))
      · exact absurd (List.cons.inj octets).1 (large _ (by omega) (by omega))

/-- A text whose first octet is a digit begins with this digit. -/
theorem exists_of_utf8_eq_cons {rest : List UInt8} {d : Nat}
    (octets : utf8 (String.ofList cs) = b :: rest) (digit : digit? b = some d) :
    ∃ c tail, cs = c :: tail ∧ hexDigit? c = some d ∧ utf8 (String.ofList tail) = rest := by
  cases cs with
  | nil => cases octets
  | cons c tail =>
    rw [utf8_cons] at octets
    obtain ⟨none, -⟩ | ⟨first, whole, same⟩ := List.append_eq_cons_iff.1 octets
    · exact absurd none (String.utf8EncodeChar_ne_nil)
    · obtain ⟨rfl, read⟩ := hexDigit?_of_digit? whole digit
      exact ⟨c, tail, rfl, read, same.symm⟩

/-- What is read is nothing, or an octet of two digits and what is read behind them. -/
theorem decodeFrom_cases {i : Nat} {octets : List UInt8}
    (read : decodeFrom i octets = .ok bytes) :
    (octets = [] ∧ bytes = []) ∨
    ∃ x y rest d e tail, octets = x :: y :: rest ∧ digit? x = some d ∧ digit? y = some e ∧
      decodeFrom (i + 2) rest = .ok tail ∧ bytes = UInt8.ofNat (16 * d + e) :: tail := by
  unfold decodeFrom at read
  split at read
  · cases read
    exact .inl ⟨rfl, rfl⟩
  · cases read
  · rename_i x y rest
    split at read
    · cases read
    · cases read
    · rename_i d e high low
      cases recursive : decodeFrom (i + 2) rest with
      | error f =>
        rw [recursive] at read
        cases read
      | ok tail =>
        rw [recursive] at read
        cases read
        exact .inr ⟨x, y, rest, d, e, tail, rfl, high, low, recursive, rfl⟩

theorem decodeFrom_eq_ok_nil_iff {i : Nat} {octets : List UInt8} :
    decodeFrom i octets = .ok [] ↔ octets = [] := by
  constructor
  · intro read
    obtain ⟨none, -⟩ | ⟨_, _, _, _, _, _, -, -, -, -, more⟩ := decodeFrom_cases read
    · exact none
    · cases more
  · rintro rfl
    rfl

/-- The two halves of an octet are its own. -/
theorem halves_iff {d e : Nat} (high : d < 16) (low : e < 16) :
    UInt8.ofNat (16 * d + e) = b ↔ d = b.toNat / 16 ∧ e = b.toNat % 16 := by
  have small := b.toNat_lt
  rw [← UInt8.toNat_inj, UInt8.toNat_ofNat']
  omega

theorem decodeFrom_eq_ok_cons_iff {i : Nat} {octets : List UInt8} :
    decodeFrom i octets = .ok (b :: bytes) ↔ ∃ x y rest, octets = x :: y :: rest ∧
      digit? x = some (b.toNat / 16) ∧ digit? y = some (b.toNat % 16) ∧
      decodeFrom (i + 2) rest = .ok bytes := by
  constructor
  · intro read
    obtain ⟨-, none⟩ | ⟨x, y, rest, d, e, tail, rfl, high, low, read, more⟩ := decodeFrom_cases read
    · cases none
    · obtain ⟨octet, rfl⟩ := List.cons.inj more
      obtain ⟨rfl, rfl⟩ := (halves_iff (hexDigit?_eq_some_iff.1 high).1
        (hexDigit?_eq_some_iff.1 low).1).1 octet.symm
      exact ⟨x, y, rest, rfl, high, low, read⟩
  · rintro ⟨x, y, rest, rfl, high, low, read⟩
    have octet := (halves_iff (hexDigit?_eq_some_iff.1 high).1 (hexDigit?_eq_some_iff.1 low).1).2
      ⟨rfl, rfl⟩
    simp only [decodeFrom, high, low, read, octet]
    rfl

/-- A text is read as the octets that it spells, and as no others. -/
theorem decodeFrom_utf8_iff {i : Nat} :
    decodeFrom i (utf8 (String.ofList cs)) = .ok bytes ↔ Spells cs bytes := by
  induction bytes generalizing cs i with
  | nil =>
    rw [decodeFrom_eq_ok_nil_iff, spells_nil_iff]
    cases cs with
    | nil => exact ⟨fun _ => rfl, fun _ => rfl⟩
    | cons c cs =>
      rw [utf8_cons]
      simp [String.utf8EncodeChar_ne_nil]
  | cons b bytes ih =>
    rw [decodeFrom_eq_ok_cons_iff, spells_cons_iff]
    constructor
    · rintro ⟨x, y, rest, octets, high, low, read⟩
      obtain ⟨c, tail, rfl, first, octets⟩ := exists_of_utf8_eq_cons octets high
      obtain ⟨c', tail, rfl, second, rfl⟩ := exists_of_utf8_eq_cons octets low
      exact ⟨c, c', tail, rfl, first, second, ih.1 read⟩
    · rintro ⟨c, c', tail, rfl, first, second, spelled⟩
      obtain ⟨x, whole, high⟩ := Word256.utf8EncodeChar_of_hexDigit? first
      obtain ⟨y, whole', low⟩ := Word256.utf8EncodeChar_of_hexDigit? second
      refine ⟨x, y, utf8 (String.ofList tail), ?_, high, low, ih.2 spelled⟩
      rw [utf8_cons, utf8_cons, whole, whole']
      rfl

theorem length_of_decodeFrom {i : Nat} {octets : List UInt8}
    (read : decodeFrom i octets = .ok bytes) : octets.length = 2 * bytes.length := by
  induction bytes generalizing i octets with
  | nil => rw [decodeFrom_eq_ok_nil_iff.1 read]; rfl
  | cons b bytes ih =>
    obtain ⟨x, y, rest, rfl, -, -, read⟩ := decodeFrom_eq_ok_cons_iff.1 read
    simp only [List.length_cons, ih read]
    omega

/-- An odd length is never read, and a spelling has an even one. -/
theorem decode_eq_ok_iff : decode (String.ofList cs) = .ok bytes ↔ Spells cs bytes := by
  rw [← decodeFrom_utf8_iff (i := 0), decode]
  constructor
  · intro read
    split at read
    · cases read
    · exact read
  · intro read
    have even := length_of_decodeFrom read
    rw [if_neg (by omega)]
    exact read

/-- Reading gives back what was written. -/
theorem decode_encode (bytes : List UInt8) : decode (text bytes) = .ok bytes :=
  decode_eq_ok_iff.2 (spells_encode bytes)

end Hex
end Text

/-! ## Accounts -/

namespace Address

variable {a : Address} {bytes : Vector UInt8 20} {cs digits : List Char}

/-- What may stand before the digits of an account. -/
def markers : List String := ["", "0x", "0X"]

theorem exists_marker (cs : List Char) : ∃ m ∈ markers, cs = m.toList ++ unmarked cs := by
  unfold unmarked
  split
  · exact ⟨"0x", by decide, rfl⟩
  · exact ⟨"0X", by decide, rfl⟩
  · exact ⟨"", by decide, rfl⟩

/-- No digit is taken for a part of a marker. -/
theorem unmarked_append {m : String} (marker : m ∈ markers)
    (spelled : Text.Hex.Spells digits bytes.toList) : unmarked (m.toList ++ digits) = digits := by
  simp only [markers, List.mem_cons, List.not_mem_nil, or_false] at marker
  obtain rfl | rfl | rfl := marker
  · rw [show "".toList ++ digits = digits from rfl]
    unfold unmarked
    split
    · obtain ⟨d, digit⟩ := spelled.digits 'x' (by simp)
      exact absurd rfl (Text.visible_of_hexDigit? digit).2.1
    · obtain ⟨d, digit⟩ := spelled.digits 'X' (by simp)
      exact absurd rfl (Text.visible_of_hexDigit? digit).2.2
    · rfl
  · rfl
  · rfl

theorem ofBytes_eq_ok_iff {octets : List UInt8} :
    ofBytes octets = .ok a ↔
      ∃ bytes : Vector UInt8 20, octets = bytes.toList ∧ a = .account bytes := by
  constructor
  · intro taken
    unfold ofBytes at taken
    split at taken
    · rename_i twenty
      cases taken
      exact ⟨⟨octets.toArray, twenty⟩, rfl, rfl⟩
    · cases taken
  · rintro ⟨bytes, rfl, rfl⟩
    exact ofBytes_toList bytes

theorem parseStripped_account_iff :
    parseStripped .account cs = .ok a ↔ ∃ bytes : Vector UInt8 20,
      Text.Hex.Spells (unmarked cs) bytes.toList ∧ a = .account bytes := by
  simp only [parseStripped]
  constructor
  · intro read
    split at read
    · cases read
    · rename_i octets spelled
      obtain ⟨bytes, rfl, rfl⟩ := ofBytes_eq_ok_iff.1 read
      exact ⟨bytes, Text.Hex.decode_eq_ok_iff.1 spelled, rfl⟩
  · rintro ⟨bytes, spelled, rfl⟩
    rw [Text.Hex.decode_eq_ok_iff.2 spelled]
    exact ofBytes_toList bytes

/-- A text is read as an account if, without the blanks at its ends, it spells twenty octets, behind
a marker or not. -/
theorem parse_account_iff {raw : String} :
    parse .account raw = .ok a ↔ ∃ m ∈ markers, ∃ digits, ∃ bytes : Vector UInt8 20,
      Text.strip raw.toList = m.toList ++ digits ∧ Text.Hex.Spells digits bytes.toList ∧
      a = .account bytes := by
  constructor
  · intro read
    obtain ⟨bytes, spelled, rfl⟩ := parseStripped_account_iff.1 (ok_of_mapError read)
    obtain ⟨m, marker, same⟩ := exists_marker (Text.strip raw.toList)
    exact ⟨m, marker, _, bytes, same, spelled, rfl⟩
  · rintro ⟨m, marker, digits, bytes, same, spelled, rfl⟩
    have unmark := unmarked_append marker spelled
    rw [parse, parseStripped_account_iff.2 ⟨bytes, by rwa [same, unmark], rfl⟩]
    rfl

/-- Digits behind a marker have no blanks. -/
theorem strip_marked {m : String} (marker : m ∈ markers)
    (spelled : Text.Hex.Spells digits bytes.toList) :
    Text.strip (m.toList ++ digits) = m.toList ++ digits := by
  refine Text.strip_of_not_blank fun c hc => ?_
  obtain before | behind := List.mem_append.1 hc
  · have visible : markers.all (·.toList.all (!Text.isBlank ·)) = true := by decide
    have seen := List.all_eq_true.1 (List.all_eq_true.1 visible m marker) c before
    rwa [Bool.not_eq_true'] at seen
  · obtain ⟨d, digit⟩ := spelled.digits c behind
    exact (Text.visible_of_hexDigit? digit).1

theorem parse_spelled {m : String} (marker : m ∈ markers) {digits : String}
    (spelled : Text.Hex.Spells digits.toList bytes.toList) :
    parse .account (m ++ digits) = .ok (.account bytes) := by
  refine parse_account_iff.2 ⟨m, marker, digits.toList, bytes, ?_, spelled, rfl⟩
  rw [String.toList_append, strip_marked marker spelled]

/-! ## Both ways -/

/-- The octets of a text are taken as the text is. -/
theorem decode_utf8 (text : String) : decode .utxo (Text.utf8 text) = parse .utxo text := by
  simp only [decode, Text.ofUtf8?_utf8]

theorem decode_toList (bytes : Vector UInt8 20) :
    decode .account bytes.toList = .ok (.account bytes) := decode_rawBytes (.account bytes)

/-- An address that was taken as octets is read from its text. -/
theorem parse_text_of_decode (taken : decode a.backend a.rawBytes = .ok a) :
    parse a.backend a.text = .ok a := by
  cases a with
  | utxo text =>
    rw [backend, rawBytes, decode_utf8] at taken
    exact taken
  | account bytes =>
    refine parse_spelled (m := "0x") (by decide) ?_
    rw [Text.Hex.text, String.toList_ofList]
    exact Text.Hex.spells_encode bytes.toList

/-- Of a text on a chain of outputs nothing but the blanks at its ends is lost. -/
theorem eq_trim_of_parse {raw : String} (read : parse .utxo raw = .ok a) :
    a = .utxo (Text.trim raw) := by
  have read := ok_of_mapError read
  simp only [parseStripped] at read
  generalize (if looksSegwit (Text.strip raw.toList) then checkSegwit (Text.strip raw.toList)
    else checkBase58 (Text.strip raw.toList)) = checked at read
  cases checked with
  | error f => cases read
  | ok _ =>
    cases read
    rfl

/-- **Intake of addresses.** On a chain of outputs the octets of a text are taken as the text is
read, whatever becomes of it, and on a chain of accounts twenty octets are taken as any text is read
that spells them. An address that was read or taken anywhere is the same when its text is read, and
when its octets are taken; on a chain of outputs it is what was read, without the blanks around. -/
theorem intake_agrees :
    (∀ text, decode .utxo (Text.utf8 text) = parse .utxo text) ∧
    (∀ marker ∈ ["", "0x", "0X"], ∀ (bytes : Vector UInt8 20) (digits : String),
      digits.toList.map Char.toLower = Text.Hex.encode bytes.toList →
      parse .account (marker ++ digits) = decode .account bytes.toList ∧
      decode .account bytes.toList = .ok (.account bytes)) ∧
    (∀ side a, ((∃ raw, parse side raw = .ok a) ∨ ∃ raw, decode side raw = .ok a) →
      a.backend = side ∧ parse a.backend a.text = .ok a ∧ decode a.backend a.rawBytes = .ok a) ∧
    ∀ raw a, parse .utxo raw = .ok a → a = .utxo (Text.trim raw) := by
  refine ⟨decode_utf8, fun m marker bytes digits spelled => ?_, fun side a taken => ?_,
    fun raw a => eq_trim_of_parse⟩
  · rw [decode_toList]
    exact ⟨parse_spelled marker spelled, rfl⟩
  · have came : a.backend = side ∧ decode side a.rawBytes = .ok a := by
      obtain ⟨raw, read⟩ | ⟨raw, read⟩ := taken
      · exact ⟨backend_of_parseStripped (ok_of_mapError read), decode_of_parse read⟩
      · exact ⟨backend_of_decode read, decode_of_decode read⟩
    obtain ⟨rfl, again⟩ := came
    exact ⟨rfl, parse_text_of_decode again, again⟩

theorem ok_of_toOption {ε α : Type} {r : Except ε α} {x : α} (h : r.toOption = some x) :
    r = .ok x := by
  cases r <;> cases h
  rfl

/-- The octets of an account. -/
def payee : Vector UInt8 20 :=
  #v[0xb0, 0xf2, 0x25, 0xde, 0xfe, 0xc7, 0x62, 0x5c, 0x6b, 0x5e, 0x43, 0x12, 0x6b, 0xdd, 0xe3, 0x98,
    0xbd, 0x90, 0xef, 0x62]

/-- Texts in Base58Check, in capital Bech32 and in capital Bech32m, with blanks around them, and what
is read of them. -/
def quoted : List (String × String) :=
  [(" 1A1zP1eP5QGefi2DMPTfTL5SLmv7DivfNa", "1A1zP1eP5QGefi2DMPTfTL5SLmv7DivfNa"),
    ("\tBC1QAR0SRRR7XFKVY5L643LYDNW9RE59GTZZWF5MDQ\n",
      "BC1QAR0SRRR7XFKVY5L643LYDNW9RE59GTZZWF5MDQ"),
    ("BC1PTTSCZ2XQ4FJX5LHKSHDGEK23Q75EY0EMSJJ2A7AK5NQ8YQ2Q6QNEJGGMVY ",
      "BC1PTTSCZ2XQ4FJX5LHKSHDGEK23Q75EY0EMSJJ2A7AK5NQ8YQ2Q6QNEJGGMVY")]

theorem intake_agrees_quoted :
    parse .account ("0x" ++ "B0f225DEFec7625c6b5e43126bdde398bd90EF62") = .ok (.account payee) ∧
    ∀ q ∈ quoted, parse .utxo q.1 = .ok (.utxo q.2) ∧ parse .utxo q.2 = .ok (.utxo q.2) ∧
      decode .utxo (Text.utf8 q.2) = .ok (.utxo q.2) := by
  obtain ⟨-, spelled, again, -⟩ := intake_agrees
  obtain ⟨read, taken⟩ := spelled "0x" (by decide) payee "B0f225DEFec7625c6b5e43126bdde398bd90EF62"
    (by decide +kernel)
  refine ⟨read.trans taken, fun q hq => ?_⟩
  have known : ∀ q ∈ quoted, (parse .utxo q.1).toOption = some (.utxo q.2) := by decide +kernel
  have first := ok_of_toOption (known q hq)
  exact ⟨first, (again .utxo _ (.inl ⟨q.1, first⟩)).2⟩

end Address
end WalletHub
