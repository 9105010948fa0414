import Mathlib.Data.List.Nodup
import WalletHub.Json.Records
import WalletHub.Proofs.Json.Layout

/-!
# Forms that are read back

A form is lawful if every value is read from what was written for it, and what was written can be
printed. A structure is read back because its fields have different names (`read_fields`), and a
constructor because its name is its own.

* `read_fields`: an object of fields is read as the values of its fields.
* `LawfulForm`: the forms of handles, amounts, fees, addresses, hashes and states are lawful.
* `returns_lawful`: a value with a lawful form is read back from both printed forms.
-/
namespace WalletHub

/-- A form in which every value is read back, and which can be printed. -/
class LawfulForm (α : Type) [JsonForm α] : Prop where
  read : ∀ a : α, ofJson? (toJson a) = some a
  plain : ∀ a : α, (toJson a).Plain

namespace Json

/-! ## Fields -/

/-- Fields with names of their own are found under them. -/
theorem lookup_zip {names : List String} {values : List Json} (distinct : names.Nodup)
    (length : names.length = values.length) :
    names.map (fun n => (names.zip values).lookup n) = values.map some := by
  induction names generalizing values with
  | nil =>
    cases values with
    | nil => rfl
    | cons => cases length
  | cons n names ih =>
    cases values with
    | nil => cases length
    | cons v values =>
      obtain ⟨fresh, distinct⟩ := List.nodup_cons.1 distinct
      have others : names.map (fun m => ((n, v) :: names.zip values).lookup m) =
          names.map fun m => (names.zip values).lookup m := by
        refine List.map_congr_left fun m hm => ?_
        have apart : (m == n) = false := beq_eq_false_iff_ne.2 fun same => fresh (same ▸ hm)
        rw [List.lookup_cons, apart]
      rw [List.zip_cons_cons, List.map_cons, List.lookup_cons_self, others,
        ih distinct (Nat.succ.inj length), List.map_cons]

theorem fields?_zip {names : List String} {values : List Json} (distinct : names.Nodup)
    (length : names.length = values.length) :
    (Json.obj (names.zip values)).fields? names = some (values.map some) := by
  have once : (names.all fun n =>
      ((names.zip values).filter fun m => m.1 == n).length ≤ 1) = true := by
    refine List.all_eq_true.2 fun n _ => decide_eq_true ?_
    have count : ((names.zip values).filter fun m => m.1 == n).length =
        ((names.zip values).map Prod.fst).count n := by
      rw [List.count, List.countP_map, List.countP_eq_length_filter]
      rfl
    rw [count, List.map_fst_zip (Nat.le_of_eq length)]
    exact List.nodup_iff_count_le_one.1 distinct n
  rw [fields?, if_pos once, lookup_zip distinct length]

/-- **Fields.** An object of fields with names of their own is read as the values of its fields. -/
theorem read_fields (names : List String) (values : List Json) (distinct : names.Nodup)
    (length : names.length = values.length) {α : Type} (go : List (Option Json) → Option α) :
    ((Json.obj (names.zip values)).fields? names).bind go = go (values.map some) := by
  rw [fields?_zip distinct length, Option.bind_some]

@[simp] theorem required_toJson {α : Type} [JsonForm α] [LawfulForm α] (a : α) :
    required (some (toJson a)) = some a := LawfulForm.read a

@[simp] theorem optional_text (s : Option String) : optional (some (toJson s)) = some s := by
  cases s <;> rfl

/-! ## What can be printed -/

@[simp] theorem plain_toJson {α : Type} [JsonForm α] [LawfulForm α] (a : α) : (toJson a).Plain :=
  LawfulForm.plain a

@[simp] theorem plain_text (s : Option String) : (toJson s).Plain := by
  cases s with
  | none => exact plain_null
  | some s => exact plain_str s

theorem plain_tagged (name : String) {v : Json} (hv : v.Plain) : (tagged name v).Plain :=
  plain_obj (List.forall_mem_singleton.2 hv)

theorem plain_taggedFields (name : String) {ms : List (String × Json)}
    (hms : ∀ m ∈ ms, m.2.Plain) : (taggedFields name ms).Plain := plain_tagged name (plain_obj hms)

/-- A value is read back from both printed forms. -/
def Returns {α : Type} [JsonForm α] (a : α) : Prop :=
  (parse? (toJson a).compact).bind ofJson? = some a ∧
    (parse? (toJson a).pretty).bind ofJson? = some a

theorem returns_of_read {α : Type} [JsonForm α] {a : α} (read : ofJson? (toJson a) = some a)
    (plain : (toJson a).Plain) : Returns a := by
  refine ⟨?_, ?_⟩
  · rw [parse?_compact plain, Option.bind_some, read]
  · rw [parse?_pretty plain, Option.bind_some, read]

/-- **Lawful forms.** A value with a lawful form is read back from both printed forms. -/
theorem returns_lawful {α : Type} [JsonForm α] [LawfulForm α] (a : α) : Returns a :=
  returns_of_read (LawfulForm.read a) (LawfulForm.plain a)

/-! ## Numbers -/

theorem natBelow?_nat {n bound : Nat} (hn : n < bound) : (nat n).natBelow? bound = some n := by
  rw [natBelow?, nat, nat?, Option.bind_some, if_pos hn]

theorem int?_int (i : Int) : (int i).int? = some i := by
  by_cases negative : i < 0
  · have magnitude : i.natAbs ≠ 0 := by omega
    simp only [int, negative, decide_true, int?, if_neg magnitude]
    exact congrArg some (by omega)
  · simp only [int, negative, decide_false, int?]
    exact congrArg some (by omega)

end Json

open Json

instance : LawfulForm String where
  read _ := rfl
  plain := plain_str

instance : LawfulForm UInt64 where
  read n := by
    have read : (nat n.toNat).natBelow? UInt64.size = some n.toNat := natBelow?_nat n.toNat_lt
    exact (congrArg (Option.map UInt64.ofNat) read).trans (congrArg some UInt64.ofNat_toNat)
  plain n := plain_integer false n.toNat

instance : LawfulForm UInt32 where
  read n := by
    have read : (nat n.toNat).natBelow? UInt32.size = some n.toNat := natBelow?_nat n.toNat_lt
    exact (congrArg (Option.map UInt32.ofNat) read).trans (congrArg some UInt32.ofNat_toNat)
  plain n := plain_integer false n.toNat

instance : LawfulForm UInt8 where
  read n := by
    have read : (nat n.toNat).natBelow? UInt8.size = some n.toNat := natBelow?_nat n.toNat_lt
    exact (congrArg (Option.map UInt8.ofNat) read).trans (congrArg some UInt8.ofNat_toNat)
  plain n := plain_integer false n.toNat

instance : LawfulForm Int32 where
  read n := by
    have bounds : Int32.minValue.toInt ≤ n.toInt ∧ n.toInt ≤ Int32.maxValue.toInt :=
      ⟨n.minValue_le_toInt, n.toInt_le⟩
    have read : (int n.toInt).int? = some n.toInt := int?_int n.toInt
    simp only [ofJson?, toJson, read, Option.bind_some, if_pos bounds, Int32.ofInt_toInt]
  plain n := plain_integer _ n.toInt.natAbs

instance {α : Type} [JsonForm α] [LawfulForm α] : LawfulForm (List α) where
  read as := by
    have items : (as.map toJson).mapM (ofJson? : Json → Option α) = some as := by
      induction as with
      | nil => rfl
      | cons a as ih => simp [LawfulForm.read, ih]
    exact items
  plain as := plain_arr (List.forall_mem_map.2 fun a _ => plain_toJson a)

instance {n : Nat} : LawfulForm (Vector UInt8 n) where
  read v := by
    have bytes : ofJson? (toJson v.toList) = some v.toList := LawfulForm.read v.toList
    have size : v.toList.toArray.size = n := by simp
    refine (congrArg (fun read => Option.bind read _) bytes).trans ?_
    exact dif_pos size
  plain v := plain_toJson v.toList

/-! ## Words -/

theorem hexDigit?_of_isBlank {c : Char} (hc : Lexing.isBlank c = true) :
    Text.hexDigit? c = none := by
  simp only [Lexing.isBlank, Bool.or_eq_true, beq_iff_eq] at hc
  rcases hc with ((rfl | rfl) | rfl) | rfl <;> decide

theorem Word256.length_hexadecimal (w : Word256) : (Text.hexadecimal w.toNat).length ≤ 64 := by
  have size : Word256.size = 16 ^ 64 := rfl
  exact (Nat.length_toDigits_le_iff (by decide) (by decide)).2 (size ▸ w.lt)

/-- Digits without blanks among them are read as the number. -/
theorem Word256.ofSpaced?_hexadecimal (w : Word256) :
    Word256.ofSpaced? (Text.hexadecimal w.toNat) = some w := by
  have number := Text.ofHex?_hexadecimal w.toNat
  have digits : (Text.hexadecimal w.toNat).filter (fun c => !Lexing.isBlank c) =
      Text.hexadecimal w.toNat := by
    refine List.filter_eq_self.2 fun c hc => ?_
    have digit := Text.hexDigit?_of_ofHexFrom? number c hc
    cases blank : Lexing.isBlank c with
    | false => rfl
    | true => rw [hexDigit?_of_isBlank blank] at digit; cases digit
  simp only [ofSpaced?, digits, Nat.sub_self, number, Option.bind_some, Nat.zero_mod,
    Nat.zero_ne_one, if_false, ofNat?_toNat]

instance : LawfulForm Word256 where
  read w := by
    have text : w.hex.toList = '0' :: 'x' :: Text.hexadecimal w.toNat := by
      simp [Word256.hex, Text.hexText]
    have taken : Text.hexadecimal w.toNat ≠ [] ∧ (Text.hexadecimal w.toNat).length ≤ 64 :=
      ⟨Nat.toDigits_ne_nil, w.length_hexadecimal⟩
    simp only [ofJson?, toJson, text, Word256.unmarked, if_pos taken, w.ofSpaced?_hexadecimal]
  plain w := plain_str w.hex

/-! ## Records -/

instance : LawfulForm Backend where
  read b := by cases b <;> rfl
  plain b := by cases b <;> exact plain_str _

instance {r : Role} : LawfulForm (Handle r) where
  read h := (read_fields ["backend", "raw"] [toJson h.backend, toJson h.raw] (by decide) rfl
    _).trans (by simp)
  plain h := plain_obj (by simp)

instance : LawfulForm WalletPath where
  read p := (read_fields ["manager", "wallet"] [toJson p.manager, toJson p.wallet] (by decide) rfl
    _).trans (by simp)
  plain p := plain_obj (by simp)

instance : LawfulForm TransferPath where
  read p := (read_fields ["manager", "wallet", "transfer"]
    [toJson p.manager, toJson p.wallet, toJson p.transfer] (by decide) rfl _).trans (by simp)
  plain p := plain_obj (by simp)

instance : LawfulForm Amount where
  read a := (read_fields ["value", "currency", "decimals"]
    [toJson a.value, toJson a.currency, toJson a.decimals] (by decide) rfl _).trans (by simp)
  plain a := plain_obj (by simp)

instance : LawfulForm FeeBasis where
  read b := by
    cases b with
    | utxo rate size => exact (read_fields ["fee_per_kb", "size_in_bytes"]
        [toJson rate, toJson size] (by decide) rfl _).trans (by simp)
    | account price limit => exact (read_fields ["gas_price", "gas_limit"]
        [toJson price, toJson limit] (by decide) rfl _).trans (by simp)
  plain b := by cases b <;> exact plain_taggedFields _ (by simp)

instance : LawfulForm Address where
  read a := by
    cases a with
    | utxo t => rfl
    | account bytes => exact congrArg (Option.map Address.account) (LawfulForm.read bytes)
  plain a := by cases a <;> exact plain_tagged _ (plain_toJson _)

instance : LawfulForm TransferHash where
  read h := (read_fields ["backend", "bytes"] [toJson h.backend, toJson h.bytes] (by decide) rfl
    _).trans (by simp)
  plain h := plain_obj (by simp)

/-! ## States -/

theorem posixOfForm?_fields (n : Int32) (m : Option String) :
    posixOfForm? (.obj [("errnum", toJson n), ("message", toJson m)]) = some (n, m) := by
  unfold posixOfForm?
  exact (read_fields ["errnum", "message"] [toJson n, toJson m] (by decide) rfl _).trans (by simp)

theorem plain_posixForm (n : Int32) (m : Option String) : (posixForm n m).Plain :=
  plain_taggedFields _ (by simp)

instance : LawfulForm DisconnectReason where
  read r := by
    cases r with
    | requested | unknown => rfl
    | posix n m =>
      exact congrArg (Option.map fun p => DisconnectReason.posix p.1 p.2) (posixOfForm?_fields n m)
  plain r := by
    cases r with
    | requested | unknown => exact plain_str _
    | posix n m => exact plain_posixForm n m

instance : LawfulForm SyncStopReason where
  read r := by
    cases r with
    | complete | requested | unknown => rfl
    | posix n m =>
      exact congrArg (Option.map fun p => SyncStopReason.posix p.1 p.2) (posixOfForm?_fields n m)
  plain r := by
    cases r with
    | complete | requested | unknown => exact plain_str _
    | posix n m => exact plain_posixForm n m

instance : LawfulForm ManagerState where
  read s := by
    cases s with
    | created | connected | syncing | deleted => rfl
    | disconnected r => exact (read_fields ["reason"] [toJson r] (by decide) rfl _).trans (by simp)
  plain s := by
    cases s with
    | created | connected | syncing | deleted => exact plain_str _
    | disconnected r => exact plain_taggedFields _ (by simp)

instance : LawfulForm WalletState where
  read s := by cases s <;> rfl
  plain s := by cases s <;> exact plain_str _

instance : LawfulForm FailureReason where
  read r := by cases r <;> rfl
  plain r := by cases r <;> exact plain_str _

instance : LawfulForm Failure where
  read f := (read_fields ["reason", "message"] [toJson f.reason, toJson f.message] (by decide) rfl
    _).trans (by simp)
  plain f := plain_obj (by simp)

instance : LawfulForm Confirmation where
  read c := (read_fields ["block_number", "transaction_index", "timestamp", "fee"]
    [toJson c.blockNumber, toJson c.transactionIndex, toJson c.timestamp, toJson c.fee] (by decide)
    rfl _).trans (by simp)
  plain c := plain_obj (by simp)

instance : LawfulForm TransferState where
  read s := by
    cases s with
    | created | signed | submitted | deleted => rfl
    | included c =>
      exact (read_fields ["confirmation"] [toJson c] (by decide) rfl _).trans (by simp)
    | failed f => exact (read_fields ["failure"] [toJson f] (by decide) rfl _).trans (by simp)
  plain s := by
    cases s with
    | created | signed | submitted | deleted => exact plain_str _
    | included | failed => exact plain_taggedFields _ (by simp)

end WalletHub
