import WalletHub.Text.Numeral

/-!
# JSON values

Values keep what their text says and no more: members of an object stay in order, duplicates
included, and numbers keep their digits. `Token` is the step between text and value; `Json.tokens`
flattens a value, and `Json.ofTokens?` builds the value back with a stack of open containers, so
neither needs a depth limit. `ofTokens?_tokens` says that building gives back the value.
-/
namespace WalletHub

/-- A number as it is written: a whole number, or one with a point or an exponent. -/
inductive Json.Number where
  | integer (negative : Bool) (magnitude : Nat)
  /-- `digits` times ten to the `exponent`. -/
  | decimal (negative : Bool) (digits : Nat) (exponent : Int)
  deriving DecidableEq, Repr

inductive Json where
  | null
  | bool (b : Bool)
  | num (n : Json.Number)
  | str (s : String)
  | arr (items : List Json)
  | obj (members : List (String × Json))
  /-- A text or object with half a surrogate pair in it: correct syntax that no reader takes. -/
  | unreadable

namespace Json

inductive Token where
  | openArr | closeArr | openObj | closeObj | comma | colon
  | atom (v : Json)
  | text (s : Option String)

/-- A natural number. -/
def nat (n : Nat) : Json := .num (.integer false n)

/-- A whole number. -/
def int (i : Int) : Json := .num (.integer (decide (i < 0)) i.natAbs)

/-- The text of a string that has one, and otherwise a value that no reader takes. -/
def ofText : Option String → Json
  | some s => .str s
  | none => .unreadable

mutual

/-- The tokens of a value. -/
def tokens : Json → List Token
  | .str s => [.text (some s)]
  | .arr items => .openArr :: itemTokens items
  | .obj members => .openObj :: memberTokens members
  | .null => [.atom .null]
  | .bool b => [.atom (.bool b)]
  | .num n => [.atom (.num n)]
  | .unreadable => [.text none]

/-- The tokens of the items of an array, and the bracket that closes it. -/
def itemTokens : List Json → List Token
  | [] => [.closeArr]
  | v :: rest => tokens v ++ moreItemTokens rest

/-- The tokens behind an item of an array. -/
def moreItemTokens : List Json → List Token
  | [] => [.closeArr]
  | v :: rest => .comma :: (tokens v ++ moreItemTokens rest)

/-- The tokens of the members of an object, and the brace that closes it. -/
def memberTokens : List (String × Json) → List Token
  | [] => [.closeObj]
  | (k, v) :: rest => .text (some k) :: .colon :: (tokens v ++ moreMemberTokens rest)

/-- The tokens behind a member of an object. -/
def moreMemberTokens : List (String × Json) → List Token
  | [] => [.closeObj]
  | (k, v) :: rest => .comma :: .text (some k) :: .colon :: (tokens v ++ moreMemberTokens rest)

end

/-- A container that is still open, with what it holds so far, last first. An object keeps
whether all its keys are readable. -/
inductive Frame where
  | arr (items : List Json)
  | obj (readable : Bool) (members : List (String × Json)) (key : String)

/-- What may come next. -/
inductive Expect where
  | value
  /-- The first item of an array, or its end. -/
  | itemOrEnd
  /-- The first key of an object, or its end. -/
  | keyOrEnd
  | key (readable : Bool) (members : List (String × Json))
  | colon (readable : Bool) (members : List (String × Json)) (key : String)
  /-- A comma or the end of the innermost container. -/
  | more
  | done (v : Json)

/-- The state of building: open containers, innermost first, and what may come next. -/
structure Building where
  frames : List Frame
  expect : Expect

namespace Building

def start : Building := ⟨[], .value⟩

/-- The state after a complete value. -/
def close (v : Json) : List Frame → Building
  | [] => ⟨[], .done v⟩
  | .arr items :: fs => ⟨.arr (v :: items) :: fs, .more⟩
  | .obj ok members k :: fs => ⟨.obj ok ((k, v) :: members) k :: fs, .more⟩

/-- The state after a token where a value may stand. -/
def value (fs : List Frame) : Token → Option Building
  | .atom v => some (close v fs)
  | .text s => some (close (ofText s) fs)
  | .openArr => some ⟨.arr [] :: fs, .itemOrEnd⟩
  | .openObj => some ⟨fs, .keyOrEnd⟩
  | _ => none

/-- The state after a key. -/
def key (fs : List Frame) (ok : Bool) (members : List (String × Json)) (s : Option String) :
    Building :=
  ⟨fs, .colon (ok && s.isSome) members (s.getD "")⟩

/-- An object of these members, last first. -/
def object (ok : Bool) (members : List (String × Json)) : Json :=
  if ok then .obj members.reverse else .unreadable

/-- The state after one more token; none if it cannot stand there. -/
def step (b : Building) (t : Token) : Option Building :=
  match b.expect, t with
  | .value, t => value b.frames t
  | .itemOrEnd, .closeArr =>
    match b.frames with
    | .arr items :: fs => some (close (.arr items.reverse) fs)
    | _ => none
  | .itemOrEnd, t => value b.frames t
  | .keyOrEnd, .closeObj => some (close (.obj []) b.frames)
  | .keyOrEnd, .text s => some (key b.frames true [] s)
  | .key ok members, .text s => some (key b.frames ok members s)
  | .colon ok members k, .colon => some ⟨.obj ok members k :: b.frames, .value⟩
  | .more, .comma =>
    match b.frames with
    | .arr items :: fs => some ⟨.arr items :: fs, .value⟩
    | .obj ok members _ :: fs => some ⟨fs, .key ok members⟩
    | [] => none
  | .more, .closeArr =>
    match b.frames with
    | .arr items :: fs => some (close (.arr items.reverse) fs)
    | _ => none
  | .more, .closeObj =>
    match b.frames with
    | .obj ok members _ :: fs => some (close (object ok members) fs)
    | _ => none
  | _, _ => none

/-- The state after a row of tokens. -/
def run (b : Building) : List Token → Option Building
  | [] => some b
  | t :: ts => (step b t).bind (run · ts)

theorem run_append (b : Building) (xs ys : List Token) :
    run b (xs ++ ys) = (run b xs).bind (run · ys) := by
  induction xs generalizing b with
  | nil => rfl
  | cons t ts ih =>
    simp only [List.cons_append, run]
    cases step b t with
    | none => rfl
    | some b' => simpa using ih b'

@[simp] theorem run_cons (b : Building) (t : Token) (ts : List Token) :
    b.run (t :: ts) = (b.step t).bind (run · ts) := rfl

mutual

theorem run_tokens : ∀ (v : Json) (fs : List Frame) (ts : List Token),
    (⟨fs, .value⟩ : Building).run (v.tokens ++ ts) = (close v fs).run ts
  | .null, _, _ | .bool _, _, _ | .num _, _, _ | .str _, _, _ | .unreadable, _, _ => by
    simp [tokens, step, value, ofText]
  | .arr [], fs, ts => by simp [tokens, itemTokens, step, value]
  | .arr (v :: rest), fs, ts => by
    have h : (⟨.arr [] :: fs, .itemOrEnd⟩ : Building).run (v.tokens ++ (moreItemTokens rest ++ ts))
        = (⟨.arr [] :: fs, .value⟩ : Building).run (v.tokens ++ (moreItemTokens rest ++ ts)) := by
      cases v <;> simp [tokens, step]
    simp only [tokens, itemTokens, List.cons_append, run_cons, step, value, Option.bind_some,
      List.append_assoc]
    rw [h, run_tokens v, close, run_moreItemTokens rest]
    simp
  | .obj [], fs, ts => by simp [tokens, memberTokens, step, value]
  | .obj ((k, v) :: rest), fs, ts => by
    simp only [tokens, memberTokens, List.cons_append, run_cons, step, value, Option.bind_some,
      key, List.append_assoc, Option.isSome_some, Bool.and_true, Option.getD_some]
    rw [run_tokens v, close, run_moreMemberTokens rest]
    simp

theorem run_moreItemTokens : ∀ (items acc : List Json) (fs : List Frame) (ts : List Token),
    (⟨.arr acc :: fs, .more⟩ : Building).run (moreItemTokens items ++ ts)
      = (close (.arr (acc.reverse ++ items)) fs).run ts
  | [], acc, fs, ts => by simp [moreItemTokens, step]
  | v :: rest, acc, fs, ts => by
    simp only [moreItemTokens, List.cons_append, run_cons, step, Option.bind_some,
      List.append_assoc]
    rw [run_tokens v, close, run_moreItemTokens rest]
    simp

theorem run_moreMemberTokens : ∀ (members acc : List (String × Json)) (k : String)
    (fs : List Frame) (ts : List Token),
    (⟨.obj true acc k :: fs, .more⟩ : Building).run (moreMemberTokens members ++ ts)
      = (close (.obj (acc.reverse ++ members)) fs).run ts
  | [], acc, k, fs, ts => by simp [moreMemberTokens, step, object]
  | (k', v) :: rest, acc, k, fs, ts => by
    simp only [moreMemberTokens, List.cons_append, run_cons, step, Option.bind_some,
      key, List.append_assoc, Option.isSome_some, Bool.and_true, Option.getD_some]
    rw [run_tokens v, close, run_moreMemberTokens rest]
    simp

end

end Building

/-- The value whose tokens these are. -/
def ofTokens? (ts : List Token) : Option Json :=
  match Building.start.run ts with
  | some ⟨[], .done v⟩ => some v
  | _ => none

theorem ofTokens?_tokens (v : Json) : ofTokens? v.tokens = some v := by
  have h := Building.run_tokens v [] []
  simp only [List.append_nil, Building.close, Building.run] at h
  simp [ofTokens?, Building.start, h]

end Json
end WalletHub
