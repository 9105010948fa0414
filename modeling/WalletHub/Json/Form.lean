import WalletHub.Json.Basic

/-!
# Values with a JSON form

A type with a JSON form has a writer and a reader. A structure is an object of its fields, or an
array of them in order; fields that are not known are passed over, and a field given twice is
refused. A constructor is its name, or an object with its name as the only key.
-/
namespace WalletHub

/-- Types whose values are written to JSON and read from it. -/
class JsonForm (α : Type) where
  toJson : α → Json
  ofJson? : Json → Option α

export JsonForm (toJson ofJson?)

namespace Json

/-- The fields with these names, in this order: from an object, where one may be missing, or from
an array, where none may. -/
def fields? (names : List String) : Json → Option (List (Option Json))
  | .obj members =>
    if names.all fun n => (members.filter fun m => m.1 == n).length ≤ 1 then
      some (names.map fun n => members.lookup n)
    else none
  | .arr items => if items.length = names.length then some (items.map some) else none
  | _ => none

/-- The constructor a value names, with what it holds. -/
def variant? : Json → Option (String × Option Json)
  | .str s => some (s, none)
  | .obj [(name, v)] => some (name, some v)
  | _ => none

/-- A constructor that holds nothing may stand as a name or with a null. -/
def holdsNothing : Option Json → Bool
  | none => true
  | some .null => true
  | some _ => false

/-- Reads a constructor that holds nothing. -/
def unit {α : Type} (a : α) (content : Option Json) : Option α :=
  if holdsNothing content then some a else none

/-- Reads a field that has to be there. -/
def required {α : Type} [JsonForm α] (field : Option Json) : Option α := field.bind ofJson?

/-- Reads a field that may be missing or null. -/
def optional {α : Type} [JsonForm α] : Option Json → Option (Option α)
  | none | some .null => some none
  | some v => (ofJson? v).map some

/-- A constructor with its content. -/
def tagged (name : String) (content : Json) : Json := .obj [(name, content)]

/-- A constructor with fields. -/
def taggedFields (name : String) (members : List (String × Json)) : Json :=
  tagged name (.obj members)

/-- What there is, or null. -/
def orNull {α : Type} (f : α → Json) : Option α → Json
  | some a => f a
  | none => .null

/-- An array of texts. -/
def texts (xs : List String) : Json := .arr (xs.map .str)

/-- An array of numbers. -/
def nats (xs : List Nat) : Json := .arr (xs.map .nat)

/-- A field of an object. -/
def field? (v : Json) (name : String) : Option Json :=
  match v with
  | .obj members => members.lookup name
  | _ => none

/-- Reads a field of an object. -/
def get? {α : Type} [JsonForm α] (v : Json) (name : String) : Option α :=
  (v.field? name).bind ofJson?

/-- Reads a field of an object that may be missing or null. -/
def getOptional? {α : Type} [JsonForm α] (v : Json) (name : String) : Option (Option α) :=
  optional (v.field? name)

/-- Reads a field of an object that has a default. -/
def getOr? {α : Type} [JsonForm α] (v : Json) (name : String) (default : α) : Option α :=
  (v.getOptional? name).map (·.getD default)

/-- A whole number that is not negative. -/
def nat? : Json → Option Nat
  | .num (.integer false n) => some n
  | _ => none

/-- A whole number; minus zero is not one. -/
def int? : Json → Option Int
  | .num (.integer false n) => some n
  | .num (.integer true n) => if n = 0 then none else some (-n)
  | _ => none

/-- A whole number below a bound. -/
def natBelow? (bound : Nat) (v : Json) : Option Nat :=
  v.nat?.bind fun n => if n < bound then some n else none

end Json

instance : JsonForm Bool where
  toJson := .bool
  ofJson? | .bool b => some b | _ => none

instance : JsonForm String where
  toJson := .str
  ofJson? | .str s => some s | _ => none

instance : JsonForm UInt64 where
  toJson n := .nat n.toNat
  ofJson? v := (v.natBelow? UInt64.size).map UInt64.ofNat

instance : JsonForm UInt32 where
  toJson n := .nat n.toNat
  ofJson? v := (v.natBelow? UInt32.size).map UInt32.ofNat

instance : JsonForm UInt8 where
  toJson n := .nat n.toNat
  ofJson? v := (v.natBelow? UInt8.size).map UInt8.ofNat

instance : JsonForm Int32 where
  toJson n := .int n.toInt
  ofJson? v := v.int?.bind fun i =>
    if Int32.minValue.toInt ≤ i ∧ i ≤ Int32.maxValue.toInt then some (Int32.ofInt i) else none

instance {α : Type} [JsonForm α] : JsonForm (Option α) where
  toJson | none => .null | some a => toJson a
  ofJson? | .null => some none | v => (ofJson? v).map some

instance {α β : Type} [JsonForm α] [JsonForm β] : JsonForm (α × β) where
  toJson p := .arr [toJson p.1, toJson p.2]
  ofJson?
    | .arr [a, b] => (ofJson? a).bind fun a => (ofJson? b).map fun b => (a, b)
    | _ => none

instance {α : Type} [JsonForm α] : JsonForm (List α) where
  toJson as := .arr (as.map toJson)
  ofJson? | .arr items => items.mapM ofJson? | _ => none

instance {n : Nat} : JsonForm (Vector UInt8 n) where
  toJson v := toJson v.toList
  ofJson? v := (ofJson? v : Option (List UInt8)).bind fun bytes =>
    if h : bytes.toArray.size = n then some ⟨bytes.toArray, h⟩ else none

end WalletHub
