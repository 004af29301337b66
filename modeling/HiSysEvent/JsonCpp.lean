import HiSysEvent.Wire

/-!
# The JSON library

Records are read with jsoncpp, which is not part of the repository. A `JsonCpp` is what the code
calls of it, and `Documented` is what its documentation says of these calls. A conversion that
throws is `none`.

`JsonCpp.reference` meets `Documented` for any table of texts.
-/

namespace HiSysEvent

open Wire

/-- `Json::ValueType`. -/
inductive JsonCpp.ValueType
  | nullValue
  | intValue
  | uintValue
  | realValue
  | stringValue
  | booleanValue
  | arrayValue
  | objectValue
  deriving DecidableEq

/-- The end of a parse. It throws if the text is nested beyond the stack limit. -/
inductive Parsed (Value : Type)
  | accepted (root : Value)
  | refused
  | throws

/-- The calls of jsoncpp that the records need. -/
structure JsonCpp where
  Value : Type
  Double : Type
  /-- `static_cast<double>`. -/
  toDouble : ℤ → Double
  /-- `d >= e` is `le e d`. -/
  le : Double → Double → Bool
  /-- `parse` of a reader with the features of `strictMode`. -/
  parse : Bytes → Parsed Value
  type : Value → JsonCpp.ValueType
  isNull : Value → Bool
  isBool : Value → Bool
  isInt64 : Value → Bool
  isUInt64 : Value → Bool
  isDouble : Value → Bool
  isNumeric : Value → Bool
  isString : Value → Bool
  isArray : Value → Bool
  isObject : Value → Bool
  asInt64 : Value → Option Int64
  asUInt64 : Value → Option UInt64
  asDouble : Value → Option Double
  asString : Value → Option Bytes
  size : Value → UInt32
  /-- `operator[](ArrayIndex)`. -/
  index : Value → ℕ → Value
  isMember : Value → Bytes → Bool
  /-- `operator[](const String&)`. -/
  get : Value → Bytes → Value
  getMemberNames : Value → List Bytes
  /-- `Json::Value(Json::ValueType::nullValue)`. -/
  null : Value

namespace JsonCpp

variable (json : JsonCpp)

abbrev minInt64 : ℤ := -2 ^ 63
abbrev maxInt64 : ℤ := 2 ^ 63 - 1
abbrev maxUInt64 : ℤ := 2 ^ 64 - 1

/-- `InValidRange`. -/
def inValidRange (d : json.Double) (min max : ℤ) : Bool :=
  json.le (json.toDouble min) d && json.le d (json.toDouble max)

/-- The elements of an array. -/
def elements (v : json.Value) : List json.Value :=
  (List.range (json.size v).toNat).map (json.index v)

/-- What the documentation says. A number of which `isInt64` holds has a value that an `int64_t`
can hold, and a conversion does not throw for what it is defined for. -/
structure Documented : Prop where
  isNull_iff : ∀ v, json.isNull v ↔ json.type v = .nullValue
  isBool_iff : ∀ v, json.isBool v ↔ json.type v = .booleanValue
  isArray_iff : ∀ v, json.isArray v ↔ json.type v = .arrayValue
  isObject_iff : ∀ v, json.isObject v ↔ json.type v = .objectValue
  isInt64_real : ∀ v d, json.isInt64 v → json.type v = .realValue → json.asDouble v = some d →
    json.inValidRange d minInt64 maxInt64
  isUInt64_real : ∀ v d, json.isUInt64 v → json.type v = .realValue → json.asDouble v = some d →
    json.inValidRange d 0 maxUInt64
  asInt64 : ∀ v, json.isInt64 v ∨ json.isNull v ∨ json.isBool v → (json.asInt64 v).isSome
  asUInt64 : ∀ v, json.isUInt64 v ∨ json.isNull v ∨ json.isBool v → (json.asUInt64 v).isSome
  asDouble : ∀ v, json.isDouble v ∨ json.isNull v ∨ json.isBool v → (json.asDouble v).isSome
  asDouble_real : ∀ v, json.type v = .realValue → (json.asDouble v).isSome
  asString : ∀ v, json.isNull v ∨ json.isBool v ∨ json.isNumeric v ∨ json.isString v →
    (json.asString v).isSome

/-! ## A reference -/

/-- Values without fractions, the members of an object in the order of their keys. -/
inductive Reference
  | null
  | boolean (b : Bool)
  | int (n : Int64)
  | string (s : Bytes)
  | array (items : List Reference)
  | object (members : List (Bytes × Reference))

namespace Reference

/-- The type of a value. -/
def type : Reference → ValueType
  | null => .nullValue
  | boolean _ => .booleanValue
  | int _ => .intValue
  | string _ => .stringValue
  | array _ => .arrayValue
  | object _ => .objectValue

/-- A boolean counts as a number. -/
def asInt64 : Reference → Option Int64
  | null => some 0
  | boolean b => some (if b then 1 else 0)
  | int n => some n
  | _ => none

/-- An integer that is not negative. -/
def isUInt64 : Reference → Bool
  | int n => 0 ≤ n
  | _ => false

/-- A boolean counts as a number. -/
def asUInt64 : Reference → Option UInt64
  | null => some 0
  | boolean b => some (if b then 1 else 0)
  | int n => if 0 ≤ n then some n.toUInt64 else none
  | _ => none

/-- Booleans and numbers are printed. -/
def asString : Reference → Option Bytes
  | null => some []
  | boolean b => some (toString b).toUTF8.data.toList
  | int n => some (toString n.toInt).toUTF8.data.toList
  | string s => some s
  | _ => none

/-- The number of elements or members. -/
def size : Reference → ℕ
  | array items => items.length
  | object members => members.length
  | _ => 0

/-- An element, or null. -/
def index : Reference → ℕ → Reference
  | array items, i => items.getD i null
  | _, _ => null

/-- The members in order. -/
def members : Reference → List (Bytes × Reference)
  | object members => members
  | _ => []

end Reference

/-- The texts of the table are accepted, and no others. -/
def reference (texts : List (Bytes × Reference)) : JsonCpp where
  Value := Reference
  Double := ℤ
  toDouble := id
  le d e := decide (d ≤ e)
  parse text := (texts.lookup text).elim .refused .accepted
  type := Reference.type
  isNull v := v.type = .nullValue
  isBool v := v.type = .booleanValue
  isInt64 v := v.type = .intValue
  isUInt64 := Reference.isUInt64
  isDouble v := v.type = .intValue
  isNumeric v := v.type = .intValue
  isString v := v.type = .stringValue
  isArray v := v.type = .arrayValue
  isObject v := v.type = .objectValue
  asInt64 := Reference.asInt64
  asUInt64 := Reference.asUInt64
  asDouble v := v.asInt64.map Int64.toInt
  asString := Reference.asString
  size v := UInt32.ofNat v.size
  index := Reference.index
  isMember v key := (v.members.lookup key).isSome
  get v key := (v.members.lookup key).getD .null
  getMemberNames v := v.members.map Prod.fst
  null := .null

theorem documented_reference (texts : List (Bytes × Reference)) :
    (reference texts).Documented where
  isNull_iff v := decide_eq_true_iff
  isBool_iff v := decide_eq_true_iff
  isArray_iff v := decide_eq_true_iff
  isObject_iff v := decide_eq_true_iff
  isInt64_real v d _ htype := by cases v <;> cases htype
  isUInt64_real v d _ htype := by cases v <;> cases htype
  asInt64 v h := by cases v <;> simp_all [reference, Reference.type, Reference.asInt64]
  asUInt64 v h := by
    cases v <;> simp_all [reference, Reference.type, Reference.asUInt64, Reference.isUInt64]
  asDouble v h := by cases v <;> simp_all [reference, Reference.type, Reference.asInt64]
  asDouble_real v htype := by cases v <;> cases htype
  asString v h := by cases v <;> simp_all [reference, Reference.type, Reference.asString]

end JsonCpp

end HiSysEvent
