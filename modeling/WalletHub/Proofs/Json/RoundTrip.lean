import WalletHub.Json.Events
import WalletHub.Proofs.Json.Forms

/-!
# Events are read back

An event is read back from both of its printed forms, whatever its numbers and texts are. The
number of an event has sixty-four bits and its time is one that a clock can show; the progress of
a sync, which is written with a point, is left out.

* `Timestamp.read`: a time is read back with its nanoseconds.
* `ManagerNotice.read`: all notices of managers are read back but the progress of a sync.
* `Event.round_trip`: every event is read back from both printed forms.
-/
namespace WalletHub

open Json

/-! ## Times -/

/-- A time that a clock can show. -/
structure Timestamp.Regular (t : Timestamp) : Prop where
  seconds : t.seconds.toNat ≤ Timestamp.lastSecond
  nanos : t.nanos.toNat < 1000000000

/-- Nothing is carried over from the nanoseconds of such a time. -/
theorem Timestamp.ofParts?_parts {t : Timestamp} (ht : t.Regular) :
    Timestamp.ofParts? t.seconds t.nanos = some t := by
  have carried : t.nanos.toNat / 1000000000 = 0 := Nat.div_eq_of_lt ht.nanos
  have left : t.nanos.toNat % 1000000000 = t.nanos.toNat := Nat.mod_eq_of_lt ht.nanos
  simp only [ofParts?, carried, left, Nat.add_zero, if_pos ht.seconds, UInt64.ofNat_toNat,
    UInt32.ofNat_toNat]

theorem Timestamp.read {t : Timestamp} (ht : t.Regular) : ofJson? (toJson t) = some t := by
  refine (if_pos rfl).trans ((read_fields ["secs_since_epoch", "nanos_since_epoch"]
    [toJson t.seconds, toJson t.nanos] (by decide) rfl _).trans ?_)
  simp [Timestamp.ofParts?_parts ht]

theorem Timestamp.plain (t : Timestamp) : (toJson t).Plain := plain_obj (by simp)

/-! ## Notices -/

theorem changeOfForm?_fields {α : Type} [JsonForm α] [LawfulForm α] (o n : α) :
    changeOfForm? (.obj [("old_state", toJson o), ("new_state", toJson n)]) = some (o, n) := by
  unfold changeOfForm?
  exact (read_fields ["old_state", "new_state"] [toJson o, toJson n] (by decide) rfl _).trans
    (by simp)

theorem plain_changeForm {α : Type} [JsonForm α] [LawfulForm α] (o n : α) :
    (changeForm o n).Plain := plain_taggedFields _ (by simp)

instance : LawfulForm HubNotice where
  read n := by
    cases n with
    | created | deleted => rfl
    | managerAdded m | managerDeleted m =>
      exact (read_fields ["manager"] [toJson m] (by decide) rfl _).trans (by simp)
  plain n := by
    cases n with
    | created | deleted => exact plain_str _
    | managerAdded | managerDeleted => exact plain_taggedFields _ (by simp)

theorem ManagerNotice.read {n : ManagerNotice} (whole : ∀ p t, n ≠ .syncProgress p t) :
    ofJson? (toJson n) = some n := by
  cases n with
  | created | syncStarted | deleted => rfl
  | changed o n =>
    exact congrArg (Option.map fun p => ManagerNotice.changed p.1 p.2) (changeOfForm?_fields o n)
  | syncProgress p t => exact absurd rfl (whole p t)
  | syncEnded r => exact (read_fields ["reason"] [toJson r] (by decide) rfl _).trans (by simp)
  | blockUpdated h => exact (read_fields ["height"] [toJson h] (by decide) rfl _).trans (by simp)
  | walletAdded w | walletChanged w | walletDeleted w =>
    exact (read_fields ["wallet"] [toJson w] (by decide) rfl _).trans (by simp)

theorem ManagerNotice.plain {n : ManagerNotice} (whole : ∀ p t, n ≠ .syncProgress p t) :
    (toJson n).Plain := by
  cases n with
  | created | syncStarted | deleted => exact plain_str _
  | changed o n => exact plain_changeForm o n
  | syncProgress p t => exact absurd rfl (whole p t)
  | syncEnded | blockUpdated | walletAdded | walletChanged | walletDeleted =>
    exact plain_taggedFields _ (by simp)

instance : LawfulForm WalletNotice where
  read n := by
    cases n with
    | created | deleted => rfl
    | changed o n =>
      exact congrArg (Option.map fun p => WalletNotice.changed p.1 p.2) (changeOfForm?_fields o n)
    | balanceUpdated b =>
      exact (read_fields ["balance"] [toJson b] (by decide) rfl _).trans (by simp)
    | feeBasisUpdated f =>
      exact (read_fields ["fee_basis"] [toJson f] (by decide) rfl _).trans (by simp)
    | transferAdded t | transferChanged t | transferSubmitted t | transferDeleted t =>
      exact (read_fields ["transfer"] [toJson t] (by decide) rfl _).trans (by simp)
  plain n := by
    cases n with
    | created | deleted => exact plain_str _
    | changed o n => exact plain_changeForm o n
    | _ => exact plain_taggedFields _ (by simp)

instance : LawfulForm TransferNotice where
  read n := by
    cases n with
    | created | deleted => rfl
    | changed o n =>
      exact congrArg (Option.map fun p => TransferNotice.changed p.1 p.2) (changeOfForm?_fields o n)
    | confirmationsUpdated n =>
      exact (read_fields ["confirmations"] [toJson n] (by decide) rfl _).trans (by simp)
  plain n := by
    cases n with
    | created | deleted => exact plain_str _
    | changed o n => exact plain_changeForm o n
    | confirmationsUpdated => exact plain_taggedFields _ (by simp)

/-! ## Events -/

namespace Event

/-- An event with the number and the time that one can have, and without a number with a point. -/
structure Exact (e : Event) : Prop where
  sequence : e.sequence < UInt64.size
  timestamp : e.timestamp.Regular
  whole : ∀ h p t, e.notice ≠ .manager h (.syncProgress p t)

variable {e : Event}

theorem headOfForm?_headForm (he : e.Exact) :
    headOfForm? e.headForm = some (e.sequence, e.timestamp, e.source) := by
  have timestamp : required (some (toJson e.timestamp)) = some e.timestamp :=
    Timestamp.read he.timestamp
  have number : (nat e.sequence).natBelow? UInt64.size = some e.sequence :=
    natBelow?_nat he.sequence
  unfold headOfForm? headForm
  refine (read_fields ["sequence", "timestamp", "source"]
    [nat e.sequence, toJson e.timestamp, toJson e.source] (by decide) rfl _).trans ?_
  simp [timestamp, number]

theorem plain_headForm (e : Event) : e.headForm.Plain := by
  refine plain_obj (List.forall_mem_cons.2 ⟨plain_integer false e.sequence, ?_⟩)
  exact List.forall_mem_cons.2 ⟨e.timestamp.plain, by simp⟩

theorem read (he : e.Exact) : ofJson? (toJson e) = some e := by
  have head := headOfForm?_headForm he
  have whole := he.whole
  obtain ⟨sequence, timestamp, source, notice⟩ := e
  cases notice with
  | hub n =>
    refine (read_fields ["metadata", "event"] [headForm _, toJson n] (by decide) rfl _).trans ?_
    simp [head, ofHead]
  | manager h n =>
    have notice : required (some (toJson n)) = some n :=
      ManagerNotice.read fun p t same => whole h p t (same ▸ rfl)
    refine (read_fields ["metadata", "manager", "event"] [headForm _, toJson h, toJson n]
      (by decide) rfl _).trans ?_
    simp [head, notice, ofHead]
  | wallet p n =>
    refine (read_fields ["metadata", "wallet", "event"] [headForm _, toJson p, toJson n]
      (by decide) rfl _).trans ?_
    simp [head, ofHead]
  | transfer p n =>
    refine (read_fields ["metadata", "transfer", "event"] [headForm _, toJson p, toJson n]
      (by decide) rfl _).trans ?_
    simp [head, ofHead]

theorem plain (he : e.Exact) : (toJson e).Plain := by
  have whole := he.whole
  have head := plain_headForm e
  obtain ⟨sequence, timestamp, source, notice⟩ := e
  cases notice with
  | hub n => exact plain_taggedFields _ (by simp [head])
  | manager h n =>
    have notice := ManagerNotice.plain fun p t same => whole h p t (same ▸ rfl)
    exact plain_taggedFields _ (by simp [head, notice])
  | wallet p n => exact plain_taggedFields _ (by simp [head])
  | transfer p n => exact plain_taggedFields _ (by simp [head])

/-- **Round trip.** Every event, but the progress of a sync, is read back from its one line and from
its several lines; and so are addresses and hashes, which no event holds. -/
theorem round_trip :
    (∀ e : Event, e.Exact →
      ofJsonText? e.compactJson = some e ∧ ofJsonText? e.prettyJson = some e) ∧
    (∀ a : Address, Returns a) ∧ ∀ h : TransferHash, Returns h :=
  ⟨fun _ he => returns_of_read (read he) (plain he), returns_lawful, returns_lawful⟩

/-- The last event that can be numbered, at the last moment that a clock shows: a transfer that paid
the greatest fee failed, for a reason in quotation marks, backslashes and control characters. -/
def extreme : Event :=
  ⟨UInt64.size - 1, ⟨9223372036854775807, 999999999⟩, "a \"hub\" \\ \x00\x1f\t\r\n é 𝄞",
    .transfer ⟨⟨.utxo, 0⟩, ⟨.account, 18446744073709551615⟩, ⟨.utxo, 1⟩⟩
      (.changed (.included ⟨18446744073709551615, 0, 7, ⟨.saturate Word256.size, "", 255⟩⟩)
        (.failed ⟨.dropped, some "\\u0022\"\x7f"⟩))⟩

/-- A connection is lost at the beginning of time, and the engine has no words for it. -/
def wordless : Event :=
  ⟨0, ⟨0, 0⟩, "", .manager ⟨.account, 0x2000⟩
    (.changed .connected (.disconnected (.posix (-2147483648) none)))⟩

theorem exact_extreme : extreme.Exact :=
  ⟨by decide, ⟨by decide, by decide⟩, fun _ _ _ same => by cases same⟩

theorem exact_wordless : wordless.Exact :=
  ⟨by decide, ⟨by decide, by decide⟩, fun _ _ _ same => by cases same⟩

theorem round_trip_extreme :
    (extreme.Exact ∧ ofJsonText? extreme.compactJson = some extreme ∧
      ofJsonText? extreme.prettyJson = some extreme) ∧
    wordless.Exact ∧ ofJsonText? wordless.compactJson = some wordless ∧
      ofJsonText? wordless.prettyJson = some wordless :=
  ⟨⟨exact_extreme, round_trip.1 extreme exact_extreme⟩,
    exact_wordless, round_trip.1 wordless exact_wordless⟩

end Event
end WalletHub
