import HiSysEvent.JsonCpp

/-!
# Typed reads of a record

A read of a parameter first checks the type of its value, and then converts the value. For an array
only the first element is checked, the elements are converted all the same, and the result is
appended to what the output held before.

So a read of a scalar always does what is expected of it (`Reads`). A read of an array does so
exactly if the check agrees with the elements and the output was empty (`VectorReadable`,
`getParamValue_reads_iff`).
-/

namespace HiSysEvent

open Wire

abbrev valueParsedSucceed : ℤ := 0
abbrev errInitFailed : ℤ := -1
abbrev errKeyNotExist : ℤ := -2
abbrev errTypeNotMatch : ℤ := -3

/-! ## Values -/

/-- What was parsed, if `hasInitialized_` is set. -/
structure HiSysEventValue (json : JsonCpp) where
  jsonVal : Option json.Value

namespace HiSysEventValue

variable {json : JsonCpp} (val : HiSysEventValue json)

/-- The methods that are `false` of a value that is not initialized. -/
def test (p : json.Value → Bool) : Bool :=
  val.jsonVal.elim false p

/-- There is a parsed value. -/
def hasInitialized : Bool :=
  val.jsonVal.isSome

/-- `GetParamNames`, with the names unless the value is null or of another type than an object. -/
def getParamNames (params : List Bytes) : List Bytes :=
  match val.jsonVal with
  | none => params
  | some v =>
    if json.type v ≠ .nullValue ∧ json.type v ≠ .objectValue then params
    else json.getMemberNames v

/-- `IsArray`. -/
def isArray : Bool :=
  val.test json.isArray

/-- `IsMember`. -/
def isMember (key : Bytes) : Bool :=
  val.test fun v => json.isObject v && json.isMember v key

/-- `IsInt64`. -/
def isInt64 : Bool :=
  val.test json.isInt64

/-- `IsUInt64`. -/
def isUInt64 : Bool :=
  val.test json.isUInt64

/-- `IsDouble`. -/
def isDouble : Bool :=
  val.test json.isDouble

/-- `IsString`. -/
def isString : Bool :=
  val.test json.isString

/-- `IsBool`. -/
def isBool : Bool :=
  val.test json.isBool

/-- `IsNull`. -/
def isNull : Bool :=
  val.test json.isNull

/-- `IsNumeric`. -/
def isNumeric : Bool :=
  val.test json.isNumeric

/-- `Index`, null out of range or if the value is no array. -/
def index (i : ℤ) : json.Value :=
  match val.jsonVal with
  | none => json.null
  | some v =>
    if i < 0 ∨ (json.type v ≠ .nullValue ∧ json.type v ≠ .arrayValue) then json.null
    else json.index v i.toNat

/-- `GetParamValue`, null if the value is no object. -/
def getParamValue (key : Bytes) : json.Value :=
  match val.jsonVal with
  | none => json.null
  | some v =>
    if json.type v ≠ .nullValue ∧ json.type v ≠ .objectValue then json.null else json.get v key

/-- The size as an `int`. -/
def size : ℤ :=
  val.jsonVal.elim 0 fun v => (json.size v).toBitVec.toInt

/-- Whether a real value is not in a range, or `none` if the conversion throws. -/
def outOfRange (v : json.Value) (min max : ℤ) : Option Bool :=
  if json.type v = .realValue then (json.asDouble v).map fun d => !json.inValidRange d min max
  else some false

/-- The common part of `AsInt64` and `AsUInt64`, with the other type of integers. -/
def asInteger {α : Type} (other : JsonCpp.ValueType) (isType : json.Value → Bool) (min max : ℤ)
    (default : α) (asType : json.Value → Option α) : Option α :=
  match val.jsonVal with
  | none => some default
  | some v =>
    if json.type v = other ∧ ¬isType v then some default
    else (outOfRange v min max).bind fun out => if out then some default else asType v

/-- `AsInt64`. `none` if jsoncpp throws. -/
def asInt64 : Option Int64 :=
  val.asInteger .uintValue json.isInt64 JsonCpp.minInt64 JsonCpp.maxInt64 0 json.asInt64

/-- `AsUInt64`. `none` if jsoncpp throws. -/
def asUInt64 : Option UInt64 :=
  val.asInteger .intValue json.isUInt64 0 JsonCpp.maxUInt64 0 json.asUInt64

/-- `AsDouble`. `none` if jsoncpp throws. -/
def asDouble : Option json.Double :=
  val.jsonVal.elim (some (json.toDouble 0)) json.asDouble

/-- `AsString`. `none` if jsoncpp throws. -/
def asString : Option Bytes :=
  val.jsonVal.elim (some []) json.asString

end HiSysEventValue

/-! ## Records -/

/-- A record, its text with what was parsed of it. -/
structure HiSysEventRecord (json : JsonCpp) where
  jsonStr : Bytes
  jsonVal : HiSysEventValue json

/-- `ParseJsonStr` in the constructor. -/
def HiSysEventRecord.new (json : JsonCpp) (jsonStr : Bytes) : Option (HiSysEventRecord json) :=
  match json.parse jsonStr with
  | .accepted root => some ⟨jsonStr, ⟨some root⟩⟩
  | .refused => some ⟨jsonStr, ⟨none⟩⟩
  | .throws => none

namespace HiSysEventRecord

variable {json : JsonCpp}

section filters

variable (val : HiSysEventValue json)

/-- The filter of `GetParamValue` for an `int64_t`. -/
def isInt64ValueType : Bool :=
  val.isInt64 || val.isNull || val.isBool

/-- The filter of `GetParamValue` for a `uint64_t`. -/
def isUInt64ValueType : Bool :=
  val.isUInt64 || val.isNull || val.isBool

/-- The filter of `GetParamValue` for a `double`. -/
def isDoubleValueType : Bool :=
  val.isDouble || val.isNull || val.isBool

/-- The filter of `GetParamValue` for a string. -/
def isStringValueType : Bool :=
  val.isNull || val.isBool || val.isNumeric || val.isString

/-- An array whose first element passes the filter, or an empty one. -/
def isArray (filterFunc : HiSysEventValue json → Bool) : Bool :=
  if val.isArray = false then false
  else if val.size > 0 then filterFunc ⟨some (val.index 0)⟩
  else val.size = 0

/-- The loop of an assigner, which appends each element. -/
def emplaceBack {α : Type} (asType : json.Value → Option α) (value : List α) : Option (List α) :=
  (List.range val.size.toNat).foldlM
    (fun value (i : ℕ) => (asType (val.index i)).map fun a => value ++ [a]) value

end filters

variable (record : HiSysEventRecord json) (param : Bytes)

/-- `GetParamNames` of the record. -/
def getParamNames (params : List Bytes) : List Bytes :=
  record.jsonVal.getParamNames params

/-- The common part. A call that throws is `none`, otherwise there are the code and the output. -/
def getParamValue {α : Type} (filterFunc : HiSysEventValue json → Bool)
    (assignFunc : HiSysEventValue json → α → Option α) (value : α) : Option (ℤ × α) :=
  if record.jsonVal.hasInitialized = false then some (errInitFailed, value)
  else if record.jsonVal.isMember param = false then some (errKeyNotExist, value)
  else
    let parsedVal : HiSysEventValue json := ⟨some (record.jsonVal.getParamValue param)⟩
    if filterFunc parsedVal then some (errTypeNotMatch, value)
    else (assignFunc parsedVal value).map fun value => (valueParsedSucceed, value)

/-- `GetParamValue` of an `int64_t`. -/
def getParamInt64 : Int64 → Option (ℤ × Int64) :=
  record.getParamValue param (fun val => !isInt64ValueType val) fun src _ => src.asInt64

/-- `GetParamValue` of a `uint64_t`. -/
def getParamUInt64 : UInt64 → Option (ℤ × UInt64) :=
  record.getParamValue param (fun val => !isUInt64ValueType val) fun src _ => src.asUInt64

/-- `GetParamValue` of a `double`. -/
def getParamDouble : json.Double → Option (ℤ × json.Double) :=
  record.getParamValue param (fun val => !isDoubleValueType val) fun src _ => src.asDouble

/-- `GetParamValue` of a string. -/
def getParamString : Bytes → Option (ℤ × Bytes) :=
  record.getParamValue param (fun val => !isStringValueType val) fun src _ => src.asString

/-- `GetParamValue` of a vector of `int64_t`. -/
def getParamInt64s : List Int64 → Option (ℤ × List Int64) :=
  record.getParamValue param (fun val => !isArray val isInt64ValueType) fun src =>
    emplaceBack src json.asInt64

/-- `GetParamValue` of a vector of `uint64_t`. -/
def getParamUInt64s : List UInt64 → Option (ℤ × List UInt64) :=
  record.getParamValue param (fun val => !isArray val isUInt64ValueType) fun src =>
    emplaceBack src json.asUInt64

/-- `GetParamValue` of a vector of `double`. -/
def getParamDoubles : List json.Double → Option (ℤ × List json.Double) :=
  record.getParamValue param (fun val => !isArray val isDoubleValueType) fun src =>
    emplaceBack src json.asDouble

/-- `GetParamValue` of a vector of strings. -/
def getParamStrings : List Bytes → Option (ℤ × List Bytes) :=
  record.getParamValue param (fun val => !isArray val isStringValueType) fun src =>
    emplaceBack src json.asString

/-! ## Getters

A getter ignores the code of its read. The read does not throw, so what it would return then does
not matter (`getStringValueByKey_eq`). -/

/-- The digit of a character that `std::hex` accepts. -/
def hexDigit (c : UInt8) : Option ℕ :=
  if 48 ≤ c ∧ c ≤ 57 then some (c.toNat - 48)
  else if 65 ≤ c ∧ c ≤ 70 then some (c.toNat - 55)
  else if 97 ≤ c ∧ c ≤ 102 then some (c.toNat - 87)
  else none

/-- The value of the digits at the front. -/
def hexValue : Bytes → ℕ → ℕ
  | [], n => n
  | c :: s, n => (hexDigit c).elim n fun d => hexValue s (16 * n + d)

/-- `ss >> std::hex >> traceId`, which skips blanks and takes a sign and `0x`. What does not fit is
the greatest value. -/
def readHex (s : Bytes) : UInt64 :=
  let s := s.dropWhile fun c => c == 32 || (9 ≤ c && c ≤ 13)
  let negative := s.head? == some 45
  let s := if negative || s.head? == some 43 then s.tail else s
  let s := if s.take 2 == [48, 120] || s.take 2 == [48, 88] then s.drop 2 else s
  let n := hexValue s 0
  if n ≥ 2 ^ 64 then UInt64.ofNat (2 ^ 64 - 1)
  else if negative then -UInt64.ofNat n else UInt64.ofNat n

/-- `GetInt64ValueByKey`, zero if there is none. -/
def getInt64ValueByKey (key : Bytes) : Int64 :=
  (record.getParamInt64 key 0).elim 0 Prod.snd

/-- `GetUInt64ValueByKey`, zero if there is none. -/
def getUInt64ValueByKey (key : Bytes) : UInt64 :=
  (record.getParamUInt64 key 0).elim 0 Prod.snd

/-- `GetStringValueByKey`, empty if there is none. -/
def getStringValueByKey (key : Bytes) : Bytes :=
  (record.getParamString key []).elim [] Prod.snd

/-- `GetIntValueByKey`, the lower 32 bits. -/
def getIntValueByKey (key : Bytes) : Int32 :=
  (record.getInt64ValueByKey key).toInt32

/-- `GetDomain`. -/
def getDomain : Bytes :=
  record.getStringValueByKey [100, 111, 109, 97, 105, 110, 95] -- `domain_`

/-- `GetEventName`. -/
def getEventName : Bytes :=
  record.getStringValueByKey [110, 97, 109, 101, 95] -- `name_`

/-- `GetEventType`. -/
def getEventType : Int32 :=
  record.getIntValueByKey [116, 121, 112, 101, 95] -- `type_`

/-- `GetTime`. -/
def getTime : UInt64 :=
  record.getUInt64ValueByKey [116, 105, 109, 101, 95] -- `time_`

/-- `GetTimeZone`. -/
def getTimeZone : Bytes :=
  record.getStringValueByKey [116, 122, 95] -- `tz_`

/-- `GetPid`. -/
def getPid : Int64 :=
  record.getInt64ValueByKey [112, 105, 100, 95] -- `pid_`

/-- `GetTid`. -/
def getTid : Int64 :=
  record.getInt64ValueByKey [116, 105, 100, 95] -- `tid_`

/-- `GetUid`. -/
def getUid : Int64 :=
  record.getInt64ValueByKey [117, 105, 100, 95] -- `uid_`

/-- `GetTraceId`, which is written in hexadecimal. -/
def getTraceId : UInt64 :=
  readHex (record.getStringValueByKey [116, 114, 97, 99, 101, 105, 100, 95]) -- `traceid_`

/-- `GetSpanId`. -/
def getSpanId : UInt64 :=
  record.getUInt64ValueByKey [115, 112, 97, 110, 105, 100, 95] -- `spanid_`

/-- `GetPspanId`. -/
def getPspanId : UInt64 :=
  record.getUInt64ValueByKey [112, 115, 112, 97, 110, 105, 100, 95] -- `pspanid_`

/-- `GetTraceFlag`. -/
def getTraceFlag : Int32 :=
  -- `trace_flag_`
  (record.getInt64ValueByKey [116, 114, 97, 99, 101, 95, 102, 108, 97, 103, 95]).toInt32

/-- `GetLevel`. -/
def getLevel : Bytes :=
  record.getStringValueByKey [108, 101, 118, 101, 108, 95] -- `level_`

/-- `GetTag`. -/
def getTag : Bytes :=
  record.getStringValueByKey [116, 97, 103, 95] -- `tag_`

/-- `AsJson`. -/
def asJson : Bytes :=
  record.jsonStr

/-! ## What a read should do -/

/-- The value under a key of the root object of a text. -/
def valueOf (json : JsonCpp) (text param : Bytes) : Option json.Value :=
  match json.parse text with
  | .accepted root => if json.isObject root && json.isMember root param then
      some (json.get root param) else none
  | _ => none

/-- Nothing is thrown. The code is that of success exactly if there is a value that can be
converted, and then the output is the converted value. Otherwise it is unchanged. -/
def Reads {α : Type} (text param : Bytes) (convertible : json.Value → Prop)
    (convert : json.Value → Option α) (read : α → Option (ℤ × α)) (prior : α) : Prop :=
  ∃ code out, read prior = some (code, out) ∧
    code ∈ [errInitFailed, errKeyNotExist, errTypeNotMatch, valueParsedSucceed] ∧
    (code = valueParsedSucceed ↔ ∃ v, valueOf json text param = some v ∧ convertible v) ∧
    (code = valueParsedSucceed → ∀ v, valueOf json text param = some v → convert v = some out) ∧
    (code ≠ valueParsedSucceed → out = prior)

/-- An array whose elements all pass the filter. -/
def AllElements (filterFunc : HiSysEventValue json → Bool) (v : json.Value) : Prop :=
  json.isArray v ∧ ∀ e ∈ json.elements v, filterFunc ⟨some e⟩

/-- Which arrays are read as they should be : if the first element fails the check, it is no
matter what follows. An array whose size is not an `int` is never accepted. -/
def VectorReadable (json : JsonCpp) {α : Type} (text param : Bytes)
    (filterFunc : HiSysEventValue json → Bool) (prior : List α) : Prop :=
  ∀ v, valueOf json text param = some v → json.isArray v →
    if (json.size v).toNat < 2 ^ 31 then
      (∃ e, (json.elements v).head? = some e ∧ filterFunc ⟨some e⟩ = false) ∨
        ((∀ e ∈ json.elements v, filterFunc ⟨some e⟩) ∧ prior = [])
    else ∃ e ∈ json.elements v, filterFunc ⟨some e⟩ = false

/-! ## The common part -/

theorem getParamValue_unchanged {α : Type} {filterFunc : HiSysEventValue json → Bool}
    {assignFunc : HiSysEventValue json → α → Option α} {value out : α} {code : ℤ}
    (hread : record.getParamValue param filterFunc assignFunc value = some (code, out))
    (hcode : code ≠ valueParsedSucceed) : out = value := by
  simp only [getParamValue] at hread
  split_ifs at hread
  iterate 3 exact (Prod.mk.inj (Option.some.inj hread)).2.symm
  obtain ⟨_, _, heq⟩ := Option.map_eq_some_iff.1 hread
  exact absurd (Prod.mk.inj heq).1.symm hcode

section common

variable {record} {param} {text : Bytes} {α : Type} (filterFunc : HiSysEventValue json → Bool)
  (assignFunc : HiSysEventValue json → α → Option α)

/-- Without a value the output is unchanged. -/
theorem getParamValue_of_none (hnew : new json text = some record)
    (hvalue : valueOf json text param = none) (value : α) :
    ∃ code, code ∈ [errInitFailed, errKeyNotExist] ∧
      record.getParamValue param filterFunc assignFunc value = some (code, value) := by
  rw [new] at hnew
  rw [valueOf] at hvalue
  split at hnew
  case h_1 root hparse =>
    obtain rfl := Option.some.inj hnew
    rw [hparse] at hvalue
    have hmember : (json.isObject root && json.isMember root param) = false :=
      Bool.eq_false_iff.2 fun h => by simp_all
    exact ⟨errKeyNotExist, by simp, by
      simp [getParamValue, HiSysEventValue.hasInitialized, HiSysEventValue.isMember,
        HiSysEventValue.test, hmember]⟩
  case h_2 hparse =>
    obtain rfl := Option.some.inj hnew
    exact ⟨errInitFailed, by simp, by simp [getParamValue, HiSysEventValue.hasInitialized]⟩
  case h_3 => cases hnew

/-- With a value the filter decides. -/
theorem getParamValue_of_some (hjson : json.Documented) (hnew : new json text = some record)
    {v : json.Value} (hvalue : valueOf json text param = some v) (value : α) :
    record.getParamValue param filterFunc assignFunc value =
      if filterFunc ⟨some v⟩ then some (errTypeNotMatch, value)
      else (assignFunc ⟨some v⟩ value).map fun value => (valueParsedSucceed, value) := by
  rw [new] at hnew
  rw [valueOf] at hvalue
  split at hnew
  case h_1 root hparse =>
    obtain rfl := Option.some.inj hnew
    simp only [hparse, Option.ite_none_right_eq_some, Option.some.injEq] at hvalue
    obtain ⟨hmember, hget⟩ := hvalue
    have hobject : json.type root = .objectValue :=
      (hjson.isObject_iff root).1 (Bool.and_eq_true_iff.1 hmember).1
    simp [getParamValue, HiSysEventValue.hasInitialized, HiSysEventValue.isMember,
      HiSysEventValue.test, hmember, HiSysEventValue.getParamValue, hobject, hget]
  case h_2 hparse => simp [hparse] at hvalue
  case h_3 => cases hnew

variable {convertible : json.Value → Prop} {convert : json.Value → Option α}
  {read : α → Option (ℤ × α)} {prior : α} {v : json.Value}

theorem reads_of_none (hvalue : valueOf json text param = none) {code : ℤ}
    (hcode : code ∈ [errInitFailed, errKeyNotExist]) (hread : read prior = some (code, prior)) :
    Reads text param convertible convert read prior := by
  have hne : code ≠ valueParsedSucceed := by
    rintro rfl
    simp at hcode
  refine ⟨code, prior, hread, ?_, ⟨fun h => absurd h hne, ?_⟩, fun h => absurd h hne, fun _ => rfl⟩
  · simp only [List.mem_cons, List.not_mem_nil, or_false] at hcode ⊢
    exact hcode.elim Or.inl fun h => Or.inr (Or.inl h)
  · rintro ⟨v, hv, -⟩
    rw [hvalue] at hv
    cases hv

theorem errTypeNotMatch_ne : errTypeNotMatch ≠ valueParsedSucceed := by
  decide

/-- A value that is refused should not be convertible. -/
theorem reads_of_mismatch_iff (hvalue : valueOf json text param = some v)
    (hread : read prior = some (errTypeNotMatch, prior)) :
    Reads text param convertible convert read prior ↔ ¬convertible v := by
  constructor
  · rintro ⟨code, out, hcall, -, hcode, -, -⟩ hv
    obtain ⟨rfl, rfl⟩ := Prod.mk.inj (Option.some.inj (hread.symm.trans hcall))
    exact errTypeNotMatch_ne (hcode.2 ⟨v, hvalue, hv⟩)
  · intro hv
    refine ⟨_, _, hread, by simp, ⟨fun h => absurd h errTypeNotMatch_ne, ?_⟩,
      fun h => absurd h errTypeNotMatch_ne, fun _ => rfl⟩
    rintro ⟨w, hw, hconv⟩
    obtain rfl := Option.some.inj (hvalue.symm.trans hw)
    exact absurd hconv hv

/-- A value that is accepted should be convertible, and the output is the converted value. -/
theorem reads_of_assign_iff (hvalue : valueOf json text param = some v) (assigned : Option α)
    (hread : read prior = assigned.map fun out => (valueParsedSucceed, out)) :
    Reads text param convertible convert read prior ↔
      convertible v ∧ ∃ out, assigned = some out ∧ convert v = some out := by
  constructor
  · rintro ⟨code, out, hcall, -, hcode, hout, -⟩
    obtain ⟨out', hassigned, heq⟩ := Option.map_eq_some_iff.1 (hread.symm.trans hcall)
    obtain ⟨rfl, rfl⟩ := Prod.mk.inj heq
    obtain ⟨w, hw, hconv⟩ := hcode.1 rfl
    obtain rfl := Option.some.inj (hvalue.symm.trans hw)
    exact ⟨hconv, _, hassigned, hout rfl _ hvalue⟩
  · rintro ⟨hconv, out, rfl, hout⟩
    refine ⟨valueParsedSucceed, out, hread, by simp, ⟨fun _ => ⟨v, hvalue, hconv⟩, fun _ => rfl⟩,
      ?_, fun h => absurd rfl h⟩
    rintro - w hw
    obtain rfl := Option.some.inj (hvalue.symm.trans hw)
    exact hout

end common

/-! ## Scalars -/

section scalars

variable {record} {param} {text : Bytes} {α : Type}

/-- A scalar is read as it should be if what the filter passes is converted. -/
theorem reads_scalar (hjson : json.Documented) (hnew : new json text = some record)
    {filterFunc : HiSysEventValue json → Bool} {assign : HiSysEventValue json → Option α}
    {convert : json.Value → Option α}
    (hassign : ∀ v, filterFunc ⟨some v⟩ → ∃ a, convert v = some a ∧ assign ⟨some v⟩ = some a)
    (prior : α) :
    Reads text param (fun v => filterFunc ⟨some v⟩) convert
      (record.getParamValue param (fun val => !filterFunc val) fun src _ => assign src) prior := by
  cases hvalue : valueOf json text param with
  | none =>
    obtain ⟨code, hcode, hread⟩ := getParamValue_of_none (fun val => !filterFunc val)
      (fun src _ => assign src) hnew hvalue prior
    exact reads_of_none hvalue hcode hread
  | some v =>
    have hread := getParamValue_of_some (fun val => !filterFunc val)
      (fun src _ => assign src) hjson hnew hvalue prior
    cases hfilter : filterFunc ⟨some v⟩ with
    | false =>
      refine (reads_of_mismatch_iff hvalue ?_).2 (by simp [hfilter])
      simpa [hfilter] using hread
    | true =>
      refine (reads_of_assign_iff hvalue (assign ⟨some v⟩) ?_).2 ⟨hfilter, ?_⟩
      · simpa [hfilter] using hread
      · obtain ⟨a, hconvert, ha⟩ := hassign v hfilter
        exact ⟨a, ha, hconvert⟩

end scalars

section conversions

variable (hjson : json.Documented) {v : json.Value}
include hjson

/-- What passes a filter and is neither `null` nor a `bool` passes the test of the filter. -/
theorem test_of_type {isType : json.Value → Bool} {t : JsonCpp.ValueType} (htype : json.type v = t)
    (ht : t ≠ .nullValue ∧ t ≠ .booleanValue) (h : isType v ∨ json.isNull v ∨ json.isBool v) :
    isType v := by
  rcases h with h | h | h
  · exact h
  · exact absurd (htype.symm.trans ((hjson.isNull_iff v).1 h)) ht.1
  · exact absurd (htype.symm.trans ((hjson.isBool_iff v).1 h)) ht.2

/-- A real value that passes the test is in the range. -/
theorem outOfRange_eq {isType : json.Value → Bool} {min max : ℤ}
    (hreal : ∀ d, isType v → json.type v = .realValue → json.asDouble v = some d →
      json.inValidRange d min max)
    (h : isType v ∨ json.isNull v ∨ json.isBool v) :
    HiSysEventValue.outOfRange v min max = some false := by
  rw [HiSysEventValue.outOfRange]
  split
  case isTrue htype =>
    obtain ⟨d, hd⟩ := Option.isSome_iff_exists.1 (hjson.asDouble_real v htype)
    have hrange := hreal d (test_of_type hjson htype (by decide) h) htype hd
    simp [hd, hrange]
  case isFalse => rfl

/-- The guards let a value pass that passes the filter. -/
theorem asInteger_eq {α : Type} {other : JsonCpp.ValueType}
    (hother : other ≠ .nullValue ∧ other ≠ .booleanValue) {isType : json.Value → Bool} {min max : ℤ}
    (hreal : ∀ d, isType v → json.type v = .realValue → json.asDouble v = some d →
      json.inValidRange d min max)
    (h : isType v ∨ json.isNull v ∨ json.isBool v) (default : α) (asType : json.Value → Option α) :
    HiSysEventValue.asInteger ⟨some v⟩ other isType min max default asType = asType v := by
  have hguard : ¬(json.type v = other ∧ ¬isType v) := fun hguard =>
    hguard.2 (test_of_type hjson hguard.1 hother h)
  rw [HiSysEventValue.asInteger]
  simp only [if_neg hguard, outOfRange_eq hjson hreal h]
  rfl

omit hjson in
/-- What the filters of the numbers test. -/
theorem test_or_iff (isType : json.Value → Bool) :
    (HiSysEventValue.test (⟨some v⟩ : HiSysEventValue json) isType ||
      HiSysEventValue.isNull ⟨some v⟩ || HiSysEventValue.isBool ⟨some v⟩) = true ↔
        isType v ∨ json.isNull v ∨ json.isBool v := by
  simp [HiSysEventValue.test, HiSysEventValue.isNull, HiSysEventValue.isBool, or_assoc]

theorem asInt64_of_filter (h : isInt64ValueType (⟨some v⟩ : HiSysEventValue json)) :
    ∃ a, json.asInt64 v = some a ∧ HiSysEventValue.asInt64 ⟨some v⟩ = some a := by
  have htest := (test_or_iff json.isInt64).1 h
  obtain ⟨a, ha⟩ := Option.isSome_iff_exists.1 (hjson.asInt64 v htest)
  have heq := asInteger_eq hjson (by decide : JsonCpp.ValueType.uintValue ≠ .nullValue ∧ _)
    (hjson.isInt64_real v) htest 0 json.asInt64
  exact ⟨a, ha, heq.trans ha⟩

theorem asUInt64_of_filter (h : isUInt64ValueType (⟨some v⟩ : HiSysEventValue json)) :
    ∃ a, json.asUInt64 v = some a ∧ HiSysEventValue.asUInt64 ⟨some v⟩ = some a := by
  have htest := (test_or_iff json.isUInt64).1 h
  obtain ⟨a, ha⟩ := Option.isSome_iff_exists.1 (hjson.asUInt64 v htest)
  have heq := asInteger_eq hjson (by decide : JsonCpp.ValueType.intValue ≠ .nullValue ∧ _)
    (hjson.isUInt64_real v) htest 0 json.asUInt64
  exact ⟨a, ha, heq.trans ha⟩

theorem asDouble_of_filter (h : isDoubleValueType (⟨some v⟩ : HiSysEventValue json)) :
    ∃ a, json.asDouble v = some a ∧ HiSysEventValue.asDouble ⟨some v⟩ = some a := by
  obtain ⟨a, ha⟩ :=
    Option.isSome_iff_exists.1 (hjson.asDouble v ((test_or_iff json.isDouble).1 h))
  exact ⟨a, ha, ha⟩

theorem asString_of_filter (h : isStringValueType (⟨some v⟩ : HiSysEventValue json)) :
    ∃ a, json.asString v = some a ∧ HiSysEventValue.asString ⟨some v⟩ = some a := by
  have h : json.isNull v ∨ json.isBool v ∨ json.isNumeric v ∨ json.isString v := by
    simpa [isStringValueType, HiSysEventValue.isNull, HiSysEventValue.isBool,
      HiSysEventValue.isNumeric, HiSysEventValue.isString, HiSysEventValue.test, or_assoc] using h
  obtain ⟨a, ha⟩ := Option.isSome_iff_exists.1 (hjson.asString v h)
  exact ⟨a, ha, ha⟩

end conversions

section getters

variable (hjson : json.Documented) {record} {text : Bytes} (hnew : new json text = some record)
include hjson hnew

/-- A getter returns what its read puts out. -/
theorem getStringValueByKey_eq (key : Bytes) :
    ∃ code, record.getParamString key [] = some (code, record.getStringValueByKey key) := by
  obtain ⟨code, out, hread, -⟩ := @reads_scalar json record key text _ hjson hnew
    isStringValueType _ _ (fun v => asString_of_filter hjson) []
  have hread : record.getParamString key [] = some (code, out) := hread
  exact ⟨code, by rw [getStringValueByKey, hread]; rfl⟩

theorem getInt64ValueByKey_eq (key : Bytes) :
    ∃ code, record.getParamInt64 key 0 = some (code, record.getInt64ValueByKey key) := by
  obtain ⟨code, out, hread, -⟩ := @reads_scalar json record key text _ hjson hnew
    isInt64ValueType _ _ (fun v => asInt64_of_filter hjson) 0
  have hread : record.getParamInt64 key 0 = some (code, out) := hread
  exact ⟨code, by rw [getInt64ValueByKey, hread]; rfl⟩

theorem getUInt64ValueByKey_eq (key : Bytes) :
    ∃ code, record.getParamUInt64 key 0 = some (code, record.getUInt64ValueByKey key) := by
  obtain ⟨code, out, hread, -⟩ := @reads_scalar json record key text _ hjson hnew
    isUInt64ValueType _ _ (fun v => asUInt64_of_filter hjson) 0
  have hread : record.getParamUInt64 key 0 = some (code, out) := hread
  exact ⟨code, by rw [getUInt64ValueByKey, hread]; rfl⟩

end getters

/-! ## Vectors -/

/-- The loop appends what the elements are converted to. -/
theorem foldlM_append {α β : Type} (f : β → Option α) : ∀ (l : List β) (value : List α),
    l.foldlM (fun value b => (f b).map fun a => value ++ [a]) value =
      (l.mapM f).map fun as => value ++ as
  | [], value => by simp
  | b :: l, value => by
    rw [List.foldlM_cons, List.mapM_cons]
    cases f b with
    | none => rfl
    | some a =>
      simp only [Option.map_some, Option.bind_eq_bind, Option.bind_some]
      rw [foldlM_append f l (value ++ [a])]
      cases l.mapM f <;> simp

section vectors

variable {record} {param} {text : Bytes} {α : Type} {v : json.Value}

theorem size_of_lt (hsize : (json.size v).toNat < 2 ^ 31) :
    HiSysEventValue.size (⟨some v⟩ : HiSysEventValue json) = (json.size v).toNat := by
  have := BitVec.toInt_eq_toNat_cond (json.size v).toBitVec
  simp only [HiSysEventValue.size, Option.elim_some, UInt32.toNat] at *
  omega

theorem size_of_le (hsize : ¬(json.size v).toNat < 2 ^ 31) :
    HiSysEventValue.size (⟨some v⟩ : HiSysEventValue json) < 0 := by
  have := BitVec.toInt_eq_toNat_cond (json.size v).toBitVec
  have := (json.size v).toBitVec.isLt
  simp only [HiSysEventValue.size, Option.elim_some, UInt32.toNat] at *
  omega

theorem index_of_array (htype : json.type v = .arrayValue) (i : ℕ) :
    HiSysEventValue.index (⟨some v⟩ : HiSysEventValue json) i = json.index v i := by
  simp [HiSysEventValue.index, htype]

theorem emplaceBack_eq (hsize : (json.size v).toNat < 2 ^ 31) (htype : json.type v = .arrayValue)
    (asType : json.Value → Option α) (value : List α) :
    emplaceBack ⟨some v⟩ asType value =
      ((json.elements v).mapM asType).map fun as => value ++ as := by
  simp only [emplaceBack, size_of_lt hsize, Int.toNat_natCast, index_of_array htype]
  rw [foldlM_append (fun i => asType (json.index v i)), JsonCpp.elements, List.mapM_map]
  rfl

/-- Only the first element is looked at. -/
theorem isArray_eq_false_iff (hjson : json.Documented) (harray : json.isArray v)
    (filterFunc : HiSysEventValue json → Bool) (hsize : (json.size v).toNat < 2 ^ 31) :
    isArray ⟨some v⟩ filterFunc = false ↔
      ∃ e, (json.elements v).head? = some e ∧ filterFunc ⟨some e⟩ = false := by
  have htype := (hjson.isArray_iff v).1 harray
  have hindex := index_of_array htype 0
  simp only [isArray, HiSysEventValue.isArray, HiSysEventValue.test, Option.elim_some, harray,
    Bool.true_eq_false, if_false, size_of_lt hsize, JsonCpp.elements]
  cases hn : (json.size v).toNat with
  | zero => simp
  | succ n => simp_all [List.range_succ_eq_map]

theorem isArray_of_size (hsize : ¬(json.size v).toNat < 2 ^ 31)
    (filterFunc : HiSysEventValue json → Bool) : isArray ⟨some v⟩ filterFunc = false := by
  have hneg := size_of_le hsize
  rw [isArray]
  split
  case isTrue => rfl
  case isFalse => rw [if_neg (by omega), decide_eq_false (by omega)]

/-- What passes the filter is converted, element by element. -/
theorem mapM_elements {filterFunc : HiSysEventValue json → Bool} {asType : json.Value → Option α}
    (hconvert : ∀ v, filterFunc ⟨some v⟩ → ∃ a, asType v = some a) :
    ∀ {l : List json.Value}, (∀ e ∈ l, filterFunc ⟨some e⟩) → ∃ as, l.mapM asType = some as
  | [], _ => ⟨[], rfl⟩
  | e :: l, h => by
    obtain ⟨a, ha⟩ := hconvert e (h e List.mem_cons_self)
    obtain ⟨as, has⟩ := mapM_elements hconvert fun e he => h e (List.mem_cons_of_mem _ he)
    exact ⟨a :: as, by rw [List.mapM_cons, ha, has]; rfl⟩

/-- An array that is accepted is read as it should be if all its elements pass the filter and the
output was empty. -/
theorem reads_accepted_iff (hjson : json.Documented)
    {filterFunc : HiSysEventValue json → Bool} {asType : json.Value → Option α}
    (hconvert : ∀ v, filterFunc ⟨some v⟩ → ∃ a, asType v = some a)
    (hvalue : valueOf json text param = some v) (harray : json.isArray v)
    (hsize : (json.size v).toNat < 2 ^ 31) {read : List α → Option (ℤ × List α)} {prior : List α}
    (hread : read prior = (emplaceBack ⟨some v⟩ asType prior).map
      fun out => (valueParsedSucceed, out)) :
    Reads text param (AllElements filterFunc) (fun v => (json.elements v).mapM asType) read prior ↔
      (∀ e ∈ json.elements v, filterFunc ⟨some e⟩) ∧ prior = [] := by
  have hempty : ∀ {as : List α}, prior ++ as = as ↔ prior = [] := List.append_left_eq_self
  rw [reads_of_assign_iff hvalue _ hread, AllElements,
    emplaceBack_eq hsize ((hjson.isArray_iff v).1 harray)]
  constructor
  · rintro ⟨⟨-, hall⟩, out, hassigned, hout⟩
    rw [hout, Option.map_some, Option.some.injEq] at hassigned
    exact ⟨hall, hempty.1 hassigned⟩
  · rintro ⟨hall, hprior⟩
    obtain ⟨as, has⟩ := mapM_elements hconvert hall
    exact ⟨⟨harray, hall⟩, as, by rw [has, Option.map_some, hempty.2 hprior], has⟩

theorem reads_vector_iff (hjson : json.Documented) (hnew : new json text = some record)
    {filterFunc : HiSysEventValue json → Bool} {asType : json.Value → Option α}
    (hconvert : ∀ v, filterFunc ⟨some v⟩ → ∃ a, asType v = some a) (prior : List α) :
    Reads text param (AllElements filterFunc) (fun v => (json.elements v).mapM asType)
        (record.getParamValue param (fun val => !isArray val filterFunc) fun src =>
          emplaceBack src asType) prior ↔
      VectorReadable json text param filterFunc prior := by
  cases hvalue : valueOf json text param with
  | none =>
    obtain ⟨code, hcode, hread⟩ := getParamValue_of_none (fun val => !isArray val filterFunc)
      (fun src => emplaceBack src asType) hnew hvalue prior
    refine ⟨fun _ v hv => ?_, fun _ => reads_of_none hvalue hcode hread⟩
    rw [hvalue] at hv
    cases hv
  | some v =>
    have hreadable : VectorReadable json text param filterFunc prior ↔
        (json.isArray v → if (json.size v).toNat < 2 ^ 31 then
          (∃ e, (json.elements v).head? = some e ∧ filterFunc ⟨some e⟩ = false) ∨
            ((∀ e ∈ json.elements v, filterFunc ⟨some e⟩) ∧ prior = [])
          else ∃ e ∈ json.elements v, filterFunc ⟨some e⟩ = false) := by
      simp only [VectorReadable, hvalue, Option.some.injEq, forall_eq']
    have hread := getParamValue_of_some (fun val => !isArray val filterFunc)
      (fun src => emplaceBack src asType) hjson hnew hvalue prior
    have hmismatch : isArray ⟨some v⟩ filterFunc = false →
        (Reads text param (AllElements filterFunc) (fun v => (json.elements v).mapM asType)
          (record.getParamValue param (fun val => !isArray val filterFunc) fun src =>
            emplaceBack src asType) prior ↔ ¬AllElements filterFunc v) := fun h =>
      reads_of_mismatch_iff hvalue (by simpa [h] using hread)
    rw [hreadable]
    by_cases harray : json.isArray v
    case neg =>
      rw [hmismatch (by simp_all [isArray, HiSysEventValue.isArray, HiSysEventValue.test])]
      exact ⟨fun _ h => absurd h harray, fun _ h => harray h.1⟩
    case pos =>
      rw [forall_prop_of_true harray]
      split
      case isFalse hsize =>
        rw [hmismatch (isArray_of_size hsize filterFunc)]
        simp [AllElements, harray]
      case isTrue hsize =>
        cases helem : isArray ⟨some v⟩ filterFunc with
        | false =>
          obtain ⟨e, he, hfail⟩ := (isArray_eq_false_iff hjson harray filterFunc hsize).1 helem
          rw [hmismatch helem]
          refine ⟨fun _ => Or.inl ⟨e, he, hfail⟩, fun _ hall => ?_⟩
          have hpass := hall.2 e (List.mem_of_head? he)
          rw [hfail] at hpass
          cases hpass
        | true =>
          have hpass := mt (isArray_eq_false_iff hjson harray filterFunc hsize).2 (by simp [helem])
          rw [reads_accepted_iff hjson hconvert hvalue harray hsize (by simpa [helem] using hread),
            or_iff_right hpass]

end vectors

/-! ## The eight reads -/

/-- A read of a scalar always does what is expected of it, and a read of an array exactly if the
check agrees with the elements and the output was empty. -/
theorem getParamValue_reads_iff {json : JsonCpp} (hjson : json.Documented) {text : Bytes}
    {record : HiSysEventRecord json} (hnew : new json text = some record) (param : Bytes) :
    (∀ prior, Reads text param (fun v => isInt64ValueType ⟨some v⟩) json.asInt64
      (record.getParamInt64 param) prior) ∧
    (∀ prior, Reads text param (fun v => isUInt64ValueType ⟨some v⟩) json.asUInt64
      (record.getParamUInt64 param) prior) ∧
    (∀ prior, Reads text param (fun v => isDoubleValueType ⟨some v⟩) json.asDouble
      (record.getParamDouble param) prior) ∧
    (∀ prior, Reads text param (fun v => isStringValueType ⟨some v⟩) json.asString
      (record.getParamString param) prior) ∧
    (∀ prior, Reads text param (AllElements isInt64ValueType)
        (fun v => (json.elements v).mapM json.asInt64) (record.getParamInt64s param) prior ↔
      VectorReadable json text param isInt64ValueType prior) ∧
    (∀ prior, Reads text param (AllElements isUInt64ValueType)
        (fun v => (json.elements v).mapM json.asUInt64) (record.getParamUInt64s param) prior ↔
      VectorReadable json text param isUInt64ValueType prior) ∧
    (∀ prior, Reads text param (AllElements isDoubleValueType)
        (fun v => (json.elements v).mapM json.asDouble) (record.getParamDoubles param) prior ↔
      VectorReadable json text param isDoubleValueType prior) ∧
    (∀ prior, Reads text param (AllElements isStringValueType)
        (fun v => (json.elements v).mapM json.asString) (record.getParamStrings param) prior ↔
      VectorReadable json text param isStringValueType prior) := by
  refine ⟨?_, ?_, ?_, ?_, ?_, ?_, ?_, ?_⟩
  · exact reads_scalar hjson hnew fun v => asInt64_of_filter hjson
  · exact reads_scalar hjson hnew fun v => asUInt64_of_filter hjson
  · exact reads_scalar hjson hnew fun v => asDouble_of_filter hjson
  · exact reads_scalar hjson hnew fun v => asString_of_filter hjson
  · exact reads_vector_iff hjson hnew fun v h => (asInt64_of_filter hjson h).imp fun a => And.left
  · exact reads_vector_iff hjson hnew fun v h => (asUInt64_of_filter hjson h).imp fun a => And.left
  · exact reads_vector_iff hjson hnew fun v h => (asDouble_of_filter hjson h).imp fun a => And.left
  · exact reads_vector_iff hjson hnew fun v h => (asString_of_filter hjson h).imp fun a => And.left

/-- The text `k : [1, "a"]` as an object. -/
abbrev mixedText : Bytes :=
  [123, 34, 107, 34, 58, 91, 49, 44, 34, 97, 34, 93, 125]

/-- What jsoncpp makes of it. -/
abbrev mixed : JsonCpp :=
  JsonCpp.reference [(mixedText, .object [([107], .array [.int 1, .string [97]])])]

theorem getParamValue_reads_mixed : ∃ record, new mixed mixedText = some record ∧
    Reads mixedText [107] (AllElements isStringValueType)
      (fun v => (mixed.elements v).mapM mixed.asString) (record.getParamStrings [107]) [] := by
  have hnew : new mixed mixedText =
    some ⟨mixedText, ⟨some (.object [([107], .array [.int 1, .string [97]])])⟩⟩ := rfl
  have hreads := getParamValue_reads_iff (JsonCpp.documented_reference _) hnew [107]
  refine ⟨_, hnew, (hreads.2.2.2.2.2.2.2 []).2 ?_⟩
  rintro v hv -
  obtain rfl : JsonCpp.Reference.array [.int 1, .string [97]] = v := Option.some.inj hv
  refine (if_pos (by decide)).mpr (Or.inr ⟨?_, rfl⟩)
  have helements : mixed.elements (.array [.int 1, .string [97]]) = [.int 1, .string [97]] := rfl
  rw [helements]
  rintro e (_ | ⟨_, _ | ⟨_, he⟩⟩)
  · rfl
  · rfl
  · cases he

/-- The second element is converted although it is not a number. -/
theorem not_getParamValue_reads : ∃ record, new mixed mixedText = some record ∧
    record.getParamInt64s [107] [] = none ∧
    ¬Reads mixedText [107] (AllElements isInt64ValueType)
      (fun v => (mixed.elements v).mapM mixed.asInt64) (record.getParamInt64s [107]) [] := by
  refine ⟨_, rfl, rfl, ?_⟩
  rintro ⟨code, out, hread, -⟩
  cases hread

end HiSysEventRecord

end HiSysEvent
