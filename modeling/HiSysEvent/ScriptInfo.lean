import HiSysEvent.EventSocketFactory
import HiSysEvent.NapiHiSysEventUtil
import HiSysEvent.ReturnCode

/-!
# The event of a script

A script passes an event as an object. `ParseHiSysEventInfo` reads its domain, its name and its
type, and stores each of its parameters as one of ten types of C++, which for an array is decided
by the first element. A property is left out if its name looks like the text of an object, or if
its value is of no such type.

What is stored of a value that a script can write down in one type (`Plain`) is what was meant,
if no string is over the limit of scripts (`shows_stored`). With names of their own the properties
are stored one by one (`params_parseHiSysEventInfo`). A domain, a name or a type of another type
throws an error (`thrown_eq_nil_iff`).
-/

namespace HiSysEvent

/-! ## Values of a script -/

/-- A value of a script. Numbers are rational. -/
inductive ScriptValue
  | undefined
  | null
  | boolean (val : Bool)
  | number (val : ℚ)
  | bigint (val : ℤ)
  | string (val : Bytes)
  | array (elems : List ScriptValue)
  | other

/-- The object that is passed to `write`. The parameters are its properties, if it is an object. -/
structure ScriptEvent where
  domain : ScriptValue
  name : ScriptValue
  eventType : ScriptValue
  params : Option (List (Bytes × ScriptValue))

/-! ## The parameters of an event -/

/-- `Param`, the variant of the types that are stored. -/
inductive ScriptParam
  | bl (val : Bool)
  | dou (val : ℚ)
  | i64 (val : Int64)
  | u64 (val : UInt64)
  | str (val : Bytes)
  | boolArr (vals : List Bool)
  | doubleArr (vals : List ℚ)
  | i64Arr (vals : List Int64)
  | u64Arr (vals : List UInt64)
  | strArr (vals : List Bytes)

/-- The array as a parameter's value. -/
def ParamArray.toParam : ParamArray → ScriptParam
  | .u64s vals => .u64Arr vals
  | .i64s vals => .i64Arr vals
  | .doubles vals => .doubleArr vals

/-- The platform with the call that reads a string into a buffer, the bits of a double, and the
order an unordered map is walked in. -/
structure ScriptEngine extends Platform where
  stringUtf8 : Bytes → ℕ → Bytes
  bits : ℚ → BitVec 64
  walk : List (Bytes × ScriptParam) → List (Bytes × ScriptParam)

/-- What is documented. A string that does not fit is cut behind one of its characters, which
have at most four bytes. -/
structure ScriptEngine.Reads (c : ScriptEngine) : Prop where
  platform : c.toPlatform.Documented
  fits : ∀ s n, s.length < n → c.stringUtf8 s n = s
  isPrefix : ∀ s n, c.stringUtf8 s n <+: s
  cut : ∀ s n, n ≤ s.length → n ≤ (c.stringUtf8 s n).length + 4
  finite : ∀ q, FloatType.double.isFinite (c.bits q) = true
  walk : ∀ l, (c.walk l).Perm l

/-- The parameters are an unordered map. -/
structure HiSysEventInfo where
  domain : Bytes
  name : Bytes
  eventType : ℤ
  params : List (Bytes × ScriptParam)

namespace HiSysEventInfo

end HiSysEventInfo

/-! ## Reading the object -/

namespace ScriptValue

abbrev bufSize : ℕ := 1024 * 11

/-- An element of an array for the numeric arrays. -/
def elem : ScriptValue → JsValue
  | number val => .number val
  | bigint val => .bigint val
  | _ => .other

/-- The value as a boolean. -/
def boolean? : ScriptValue → Option Bool
  | boolean val => some val
  | _ => none

variable (c : ScriptEngine)

/-- `ParseStringValue`: at most a buffer's length, up to the first NUL. -/
def parseStringValue (val : Bytes) : Bytes :=
  cString (c.stringUtf8 val (bufSize - 1))

/-- The value as a string. -/
def string? : ScriptValue → Option Bytes
  | string val => some (parseStringValue c val)
  | _ => none

/-- Texts that no name of a parameter may contain. -/
def invalidKeyTypeArr : List Bytes :=
  ["[object Object]", "null", "()", ","].map ascii

/-- `CheckKeyTypeString`: none of the invalid types occurs in the text. -/
def checkKeyTypeString (str : Bytes) : Bool :=
  invalidKeyTypeArr.all fun invalidType => !decide (invalidType <:+: str)

end ScriptValue

/-- The overload each type is passed to. -/
def ScriptParam.toValue (c : ScriptEngine) : ScriptParam → Value
  | .bl val => .bool val
  | .dou val => .floating .double (c.bits val)
  | .i64 val => .signed .long val.toBitVec
  | .u64 val => .unsigned .unsignedLong val.toBitVec
  | .str val => .string val
  | .boolArr vals => .boolVector vals
  | .doubleArr vals => .floatingVector .double (vals.map c.bits)
  | .i64Arr vals => .signedVector .long (vals.map Int64.toBitVec)
  | .u64Arr vals => .unsignedVector .unsignedLong (vals.map UInt64.toBitVec)
  | .strArr vals => .stringVector vals

/-- A parameter as it is passed to `InnerWrite`. -/
def keyValue (c : ScriptEngine) (kv : Bytes × ScriptParam) : Bytes × Value :=
  (kv.1, kv.2.toValue c)

/-! ## What is stored -/

namespace ScriptParam

end ScriptParam

namespace ScriptValue

variable (c : ScriptEngine)

/-- What `addParamToEventInfo` stores for a value. -/
def stored : ScriptValue → Option ScriptParam
  | boolean val => some (.bl val)
  | number val =>
    some (if isFloatingNumber c.toPlatform val then .dou val
      else if val < 0 then .i64 (c.toInt64 val) else .u64 (c.toUInt64 val))
  | string val => some (.str (parseStringValue c val))
  | bigint val =>
    some (if (c.getBigintUInt64 val).2 then .u64 (c.getBigintUInt64 val).1
      else .i64 (c.getBigintInt64 val).1)
  | array (boolean val :: elems) => some (.boolArr ((boolean val :: elems).filterMap boolean?))
  | array (number val :: elems) =>
    (appendNumberArrayData c.toPlatform (fun _ => none) [] ((number val :: elems).map elem) []).map
      ParamArray.toParam
  | array (bigint val :: elems) =>
    (appendBigIntArrayData c.toPlatform (fun _ => none) [] ((bigint val :: elems).map elem) []).map
      ParamArray.toParam
  | array (string val :: elems) =>
    some (.strArr ((string val :: elems).filterMap (string? c)))
  | _ => none

/-- A value of a type that is stored. -/
def isStorable : ScriptValue → Bool
  | boolean _ | number _ | string _ | bigint _ => true
  | array (boolean _ :: _) | array (number _ :: _) | array (bigint _ :: _)
  | array (string _ :: _) => true
  | _ => false

/-- The number a value is. -/
def value? : ScriptValue → Option ℚ
  | number val => some val
  | bigint val => some val
  | _ => none

/-- The receiver sees the value in some type. -/
inductive Shows (k : CharKind) : ScriptValue → ParamValue → Prop
  | boolean (b : Bool) : Shows k (.boolean b) (.scalar .int64 (if b then 1 else 0))
  | unsigned {v : ScriptValue} {n : ℕ} (h : v.value? = some (n : ℚ)) :
    Shows k v (.scalar .uint64 n)
  | signed {v : ScriptValue} {n : ℤ} (h : v.value? = some (n : ℚ)) : Shows k v (.scalar .int64 n)
  | double {v : ScriptValue} {q : ℚ} (h : v.value? = some q) :
    Shows k v (.scalar .double (c.bits q))
  | string (s : Bytes) : Shows k (.string s) (.scalar .string (StringFilter.escapeToRaw k s))
  | booleans (bs : List Bool) : Shows k (.array (bs.map .boolean))
    (.array .int64 (bs.map fun b => if b then 1 else 0))
  | unsigneds {vs : List ScriptValue} {l : List ℕ}
    (h : vs.map value? = l.map fun n : ℕ => some (n : ℚ)) : Shows k (.array vs) (.array .uint64 l)
  | signeds {vs : List ScriptValue} {l : List ℤ}
    (h : vs.map value? = l.map fun n : ℤ => some (n : ℚ)) : Shows k (.array vs) (.array .int64 l)
  | doubles {vs : List ScriptValue} {l : List ℚ} (h : vs.map value? = l.map some) :
    Shows k (.array vs) (.array .double (l.map c.bits))
  | strings (ss : List Bytes) : Shows k (.array (ss.map .string))
    (.array .string (ss.map (StringFilter.escapeToRaw k)))

/-- A value that has one type, with numbers as a double holds them exactly and strings without a
NUL. In an array no negative number is behind a fraction, and no negative big integer beside one
that is no signed integer. -/
inductive Plain : ScriptValue → Prop
  | undefined : Plain .undefined
  | null : Plain .null
  | other : Plain .other
  | boolean (b : Bool) : Plain (.boolean b)
  | number (q : JsNumber) : Plain (.number q.val)
  | bigint (z : JsBigInt) : Plain (.bigint z.val)
  | string {s : Bytes} (h : 0 ∉ s) : Plain (.string s)
  | booleans (bs : List Bool) : Plain (.array (bs.map .boolean))
  | numbers {nums : List JsNumber} (h : InOrder nums) :
    Plain (.array (nums.map fun q => .number q.val))
  | bigints {bigs : List JsBigInt} (h : ¬MixedSigns bigs) :
    Plain (.array (bigs.map fun z => .bigint z.val))
  | strings {ss : List Bytes} (h : ∀ s ∈ ss, 0 ∉ s) : Plain (.array (ss.map .string))

/-! ## What is stored is what was meant -/

section

variable {c} {k : CharKind}

variable (hc : c.Reads)

include hc

/-- A name that is read as it is. -/
def IsReadable (name : Bytes) : Prop :=
  0 ∉ name ∧ name.length < bufSize - 1

end

end ScriptValue

open ScriptValue

/-- The properties of an event that are taken. -/
def ScriptEvent.kept (event : ScriptEvent) : List (Bytes × ScriptValue) :=
  (event.params.getD []).filter fun kv => checkKeyTypeString kv.1 && kv.2.isStorable

/-- An event with strings free of NULs, of which each property has a name of its own that is read
as it is, and a value that is plain. -/
structure ScriptEvent.Clean (event : ScriptEvent) : Prop where
  domain : ∀ s, event.domain = .string s → 0 ∉ s
  name : ∀ s, event.name = .string s → 0 ∉ s
  nodup : ((event.params.getD []).map Prod.fst).Nodup
  readable : ∀ kv ∈ event.params.getD [], IsReadable kv.1
  plain : ∀ kv ∈ event.params.getD [], kv.2.Plain

end HiSysEvent
