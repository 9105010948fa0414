import Mathlib.Data.List.DropRight
import WalletHub.Proofs.Normal
import WalletHub.Proofs.Numerals

/-!
# What is handed to an engine comes back

The hub hands the amount, the fee basis and the target of a new transfer to an engine, and reads
them again among the attributes that the engine returns. The amount and the fee basis come back as
they were. A target comes back if it was read from a text, by the same rules as now. But an
application may hand over any text as an address on a chain of outputs, and nothing looks at it
before the engine has it.

* `Word256.parse_text`, `RawFeeBasis.decode_of`: numbers and fee bases are read back.
* `Address.decode_of_parse`, `Address.decode_of_decode`: so are the addresses that were read once.
* `Wallet.decode_requested`: a new transfer is read back, or its target cannot be read.
-/
namespace WalletHub

/-! ## Texts -/

namespace Text

theorem isBlank_of_isDigit {c : Char} (h : c.isDigit = true) : isBlank c = false := by
  simp only [Char.isDigit, Bool.and_eq_true, decide_eq_true_eq, UInt32.le_iff_toNat_le] at h
  obtain ⟨low, high⟩ := h
  have low : 48 ≤ c.toNat := low
  have high : c.toNat ≤ 57 := high
  simp only [isBlank, blankRanges, List.any_cons, List.any_nil, Bool.or_eq_false_iff,
    Bool.and_eq_false_iff, decide_eq_false_iff_not, and_true]
  omega

theorem strip_of_not_blank {cs : List Char} (h : ∀ c ∈ cs, isBlank c = false) : strip cs = cs := by
  have kept : ∀ xs : List Char, (∀ c ∈ xs, isBlank c = false) → xs.dropWhile isBlank = xs := by
    intro xs hx
    cases xs with
    | nil => rfl
    | cons x xs => simp [hx x List.mem_cons_self]
  simp only [strip]
  rw [kept cs h, kept cs.reverse fun c hc => h c (List.mem_reverse.1 hc), List.reverse_reverse]

theorem strip_decimal (n : Nat) : strip (decimal n) = decimal n :=
  strip_of_not_blank fun _ held => isBlank_of_isDigit (isDigit_of_mem_decimal held)

/-- A text without blanks at its ends stays as it is. -/
theorem strip_strip (cs : List Char) : strip (strip cs) = strip cs := by
  have ends : ∀ xs : List Char, strip xs = (xs.dropWhile isBlank).rdropWhile isBlank := by
    intro xs
    rfl
  have front : (strip cs).dropWhile isBlank = strip cs := by
    rw [List.dropWhile_eq_self_iff]
    intro nonempty
    obtain ⟨rest, hrest⟩ := List.rdropWhile_prefix isBlank (cs.dropWhile isBlank)
    rw [← ends] at hrest
    have long : 0 < (cs.dropWhile isBlank).length := by
      rw [← hrest, List.length_append]
      omega
    have first : (strip cs)[0] = (cs.dropWhile isBlank)[0] := by
      rw [List.getElem_of_eq hrest.symm long, List.getElem_append_left nonempty]
    rw [first]
    exact List.dropWhile_get_zero_not isBlank cs long
  rw [ends (strip cs), front, ends cs, List.rdropWhile_idempotent]

end Text

/-! ## Numbers -/

namespace Word256

/-- A number that is written in decimal is read back if it is a word. -/
theorem parse_natText_iff {n : Nat} {w : Word256} :
    parse (Text.natText n) = .ok w ↔ w.toNat = n := by
  have row := Text.digits_decimal n
  rw [parse_iff_writes, Text.natText, String.toList_ofList, Text.strip_decimal,
    writes_unmarked_iff (unmarked_of_digits row)]
  constructor
  · exact fun ⟨same, _⟩ => same.value_unique row
  · rintro rfl
    exact ⟨row, w.lt⟩

/-- A word that is written in decimal is read back. -/
theorem parse_text (w : Word256) : parse w.text = .ok w := parse_natText_iff.2 rfl

end Word256

theorem Amount.parse_baseText (a : Amount) (c : Currency) :
    Amount.parse a.baseText c = .ok (.ofBase a.value c) := by
  simp only [parse, baseText, Word256.parse_text]
  rfl

theorem RawFeeBasis.decode_of (b : FeeBasis) : (RawFeeBasis.of b).decode b.backend = .ok b := by
  cases b with
  | utxo rate size => rfl
  | account price limit => exact decode_eq_ok_iff.2 (.account limit (Word256.parse_text price))

/-! ## Addresses -/

namespace Address

theorem ofBytes_toList (bytes : Vector UInt8 20) : ofBytes bytes.toList = .ok (.account bytes) := by
  obtain ⟨xs, hx⟩ := bytes
  simp only [ofBytes, Vector.toList_mk, Array.toArray_toList, hx, dite_true]

/-- An address on a chain of outputs comes back if its text is one, and twenty octets always do. -/
theorem decode_rawBytes (a : Address) :
    decode a.backend a.rawBytes =
      match a with
      | utxo t => parse .utxo t
      | account bytes => .ok (.account bytes) := by
  cases a with
  | utxo t => simp only [decode, backend, rawBytes, Text.ofUtf8?_utf8]
  | account bytes =>
    simp only [decode, backend, rawBytes, ofBytes_toList]
    rfl

/-- An address that was read from a text is read again. -/
theorem decode_of_parse {side : Backend} {raw : String} {a : Address}
    (h : parse side raw = .ok a) : decode side a.rawBytes = .ok a := by
  have read := ok_of_mapError h
  have same := backend_of_parseStripped read
  subst same
  rw [decode_rawBytes]
  cases a with
  | account bytes => rfl
  | utxo t =>
    simp only [backend, parseStripped] at read
    cases checked : (if looksSegwit (Text.strip raw.toList) then checkSegwit (Text.strip raw.toList)
        else checkBase58 (Text.strip raw.toList)) with
    | error f =>
      rw [checked] at read
      cases read
    | ok _ =>
      have text : t = String.ofList (Text.strip raw.toList) := by
        rw [checked] at read
        cases read
        rfl
      subst text
      simp only [parse, parseStripped, String.toList_ofList, Text.strip_strip, checked]
      rfl

/-- An address that was read from octets is read again. -/
theorem decode_of_decode {side : Backend} {raw : List UInt8} {a : Address}
    (h : decode side raw = .ok a) : decode side a.rawBytes = .ok a := by
  cases side with
  | utxo =>
    simp only [decode] at h
    split at h
    · cases h
    · exact decode_of_parse h
  | account =>
    have same := backend_of_decode h
    cases a with
    | utxo t => cases same
    | account bytes => exact decode_rawBytes (.account bytes)

end Address

/-! ## Transfers -/

/-- The attributes that an engine returns for a new transfer. -/
def TransferRequest.attributes (r : TransferRequest) : RawTransfer :=
  ⟨none, some r.target.rawBytes, r.amount.baseText, .sent, some (.of r.feeBasis), none⟩

/-- The transfer that was asked for, in the wallet `w`, once the target is read. -/
def TransferRequest.draft (r : TransferRequest) (w : Wallet) (h : TransferHandle)
    (target : Address) : Transfer :=
  .create (w.path.child h) (.ofBase r.amount.value w.currency) .sent none (some target)
    (some r.feeBasis) w.feeCurrency none

/-- A new transfer comes back if its target does. -/
theorem Wallet.decode_requested {w : Wallet} {r : TransferRequest}
    (basis : r.feeBasis.backend = w.backend) (h : TransferHandle) :
    w.decodeTransfer h r.attributes =
      (Address.decode w.backend r.target.rawBytes).map (r.draft w h) := by
  have read := RawFeeBasis.decode_of r.feeBasis
  rw [basis] at read
  simp only [decodeTransfer, TransferRequest.attributes, Amount.parse_baseText, Option.mapM_none,
    Option.mapM_some, read, bind, Except.bind, pure, Except.pure]
  cases Address.decode w.backend r.target.rawBytes <;> rfl

end WalletHub
