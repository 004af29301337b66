import HiSysEvent.EventBase

/-!
# Writing the parameters

The `InnerWrite` overloads of `HiSysEvent` check each parameter and append it. A
parameter with an invalid key, or after `maxParamNumber` others, is left out. A string
over `maxStringLength` and an array over `maxArraySize` set a warning. The return code is
a single cell : the last check that fails overwrites it.

Every overload does the same (`innerWriteValue_eq`) : leave the parameter out, or let the
codes of the checks of its value update the return code (`Value.checks`) and append it
(`Value.encoded`). So the block of an event holds `accepted` of its parameters
(`innerWrite_holds`), and the receiver reads exactly these back (`read_getEventRawData`).
-/

namespace HiSysEvent

open Wire Writer StringFilter

/-! ## Values -/

/-- The signed integer types of the overloads, with the width they are encoded at. A
`long` has the 64 bits of the LP64 targets. -/
inductive SignedType
  | char
  | short
  | int
  | long
  | longLong
  deriving DecidableEq

/-- The width that is encoded. -/
@[reducible] def SignedType.width : SignedType → IntWidth
  | .char => .bit8
  | .short => .bit16
  | .int => .bit32
  | .long => .bit64
  | .longLong => .bit64

/-- The unsigned types with an overload. -/
inductive UnsignedType
  | unsignedChar
  | unsignedShort
  | unsignedInt
  | unsignedLong
  | unsignedLongLong
  deriving DecidableEq

/-- The width that is encoded. -/
@[reducible] def UnsignedType.width : UnsignedType → IntWidth
  | .unsignedChar => .bit8
  | .unsignedShort => .bit16
  | .unsignedInt => .bit32
  | .unsignedLong => .bit64
  | .unsignedLongLong => .bit64

/-- A value of one of the overloads. A `charPtr` is the memory it points to. -/
inductive Value
  | bool (b : Bool)
  | signed (t : SignedType) (val : BitVec t.width.bits)
  | unsigned (t : UnsignedType) (val : BitVec t.width.bits)
  | floating (t : FloatType) (val : BitVec t.bits)
  | string (s : Bytes)
  | charPtr (mem : Bytes)
  | boolVector (bs : List Bool)
  | signedVector (t : SignedType) (vals : List (BitVec t.width.bits))
  | unsignedVector (t : UnsignedType) (vals : List (BitVec t.width.bits))
  | floatingVector (t : FloatType) (vals : List (BitVec t.bits))
  | stringVector (ss : List Bytes)

/-- The object representation of a `bool`. -/
def boolByte (b : Bool) : BitVec IntWidth.bit8.bits :=
  if b then 1 else 0

/-! ## Checks -/

/-- `CheckKey`. -/
def checkKey (k : CharKind) (key : Bytes) : ℤ :=
  if !isValidName k key maxParamNameLength then errKeyNameInvalid else success

/-- `CheckValue`. -/
def checkValue (value : Bytes) : ℤ :=
  if value.length > maxStringLength then errValueLengthTooLong else success

/-- `CheckArraySize`. -/
def checkArraySize (size : ℕ) : ℤ :=
  if size > maxArraySize then errArrayTooMuch else success

/-- `IsError`. -/
def isError (e : EventBase) : Bool :=
  e.retCode < success

/-- `IsWarnAndUpdate`, which sets the return code. -/
def isWarnAndUpdate (retCode : ℤ) (e : EventBase) : Bool × EventBase :=
  if retCode ≠ success then (true, { e with retCode := retCode }) else (false, e)

/-- `UpdateAndCheckKeyNumIsOver`. -/
def updateAndCheckKeyNumIsOver (e : EventBase) : Bool × EventBase :=
  if e.paramCnt ≥ maxParamNumber then (true, { e with retCode := errKeyNumberTooMuch })
  else (false, e)

/-- `CheckParamValidity`. -/
def checkParamValidity (k : CharKind) (e : EventBase) (key : Bytes) : Bool × EventBase :=
  match isWarnAndUpdate (checkKey k key) e with
  | (true, e) => (false, e)
  | (false, e) =>
    match updateAndCheckKeyNumIsOver e with
    | (true, e) => (false, e)
    | (false, e) => (true, e)

/-- An empty array is appended here, as one of `bool`. -/
def checkArrayParamsValidity (k : CharKind) (s : EventBase × Alloc) (key : Bytes) (size : ℕ) :
    Bool × EventBase × Alloc :=
  match checkParamValidity k s.1 key with
  | (false, e) => (false, e, s.2)
  | (true, e) =>
    if size = 0 then
      (false, e.appendParam (signedVarintEncodedArrayParam key (w := .bit8) []) s.2)
    else (true, (isWarnAndUpdate (checkArraySize size) e).2, s.2)

/-! ## The overloads -/

section Overloads

variable (k : CharKind) (key : Bytes) (s : EventBase × Alloc)

/-- The overload of a number. -/
def writeNumber (param : EncodedParam) : EventBase × Alloc :=
  match checkParamValidity k s.1 key with
  | (true, e) => e.appendParam param s.2
  | (false, e) => (e, s.2)

/-- The overload of a string. -/
def writeString (value : Bytes) : EventBase × Alloc :=
  match checkParamValidity k s.1 key with
  | (true, e) =>
    let e := (isWarnAndUpdate (checkValue value) e).2
    e.appendParam (stringEncodedParam key (escapeToRaw k value)) s.2
  | (false, e) => (e, s.2)

/-- The overload of a vector of `size` numbers. -/
def writeNumberVector (size : ℕ) (param : EncodedParam) : EventBase × Alloc :=
  match checkArrayParamsValidity k s key size with
  | (true, e, a) => e.appendParam param a
  | (false, s) => s

/-- The overload of a vector of strings. -/
def writeStringVector (values : List Bytes) : EventBase × Alloc :=
  match checkArrayParamsValidity k s key values.length with
  | (true, e, a) =>
    let e := values.foldl (fun e item => (isWarnAndUpdate (checkValue item) e).2) e
    e.appendParam (stringEncodedArrayParam key (values.map (escapeToRaw k))) a
  | (false, s) => s

/-- `InnerWrite` of one key and value. -/
def innerWriteValue : Value → EventBase × Alloc
  | .bool b => writeNumber k key s (signedVarintEncodedParam key (boolByte b))
  | .signed _ val => writeNumber k key s (signedVarintEncodedParam key val)
  | .unsigned _ val => writeNumber k key s (unsignedVarintEncodedParam key val)
  | .floating _ val => writeNumber k key s (floatingNumberEncodedParam key val)
  | .string value => writeString k key s value
  | .charPtr mem => writeString k key s (cString mem)
  | .boolVector bs =>
    writeNumberVector k key s bs.length (signedVarintEncodedArrayParam key (bs.map boolByte))
  | .signedVector _ vals =>
    writeNumberVector k key s vals.length (signedVarintEncodedArrayParam key vals)
  | .unsignedVector _ vals =>
    writeNumberVector k key s vals.length (unsignedVarintEncodedArrayParam key vals)
  | .floatingVector _ vals =>
    writeNumberVector k key s vals.length (floatingNumberEncodedArrayParam key vals)
  | .stringVector values => writeStringVector k key s values

end Overloads

/-- `InnerWrite` of the keys and values. -/
def innerWrite (k : CharKind) : List (Bytes × Value) → EventBase × Alloc → EventBase × Alloc
  | [], s => s
  | (key, value) :: keyValues, s => innerWrite k keyValues (innerWriteValue k key s value)

/-- `InnerWrite` of an event, up to `SendSysEvent`. It stops at the first error. -/
def prepare (k : CharKind) (p : Process) (domain eventName : Bytes) (type : ℤ)
    (timeStamp : UInt64) (fill : EventBase × Alloc → EventBase × Alloc) (a : Alloc) :
    EventBase × Alloc :=
  let e := EventBase.new k domain eventName type timeStamp
  if isError e then (e, a)
  else
    let s := e.writebaseInfo p a
    if isError s.1 then s else fill s

/-! ## What an overload does -/

/-- A check that fails overwrites the return code. -/
def updateRetCode (retCode code : ℤ) : ℤ :=
  if code ≠ success then code else retCode

namespace Value

/-- The codes of the checks of a value whose key was accepted, in order. -/
def checks : Value → List ℤ
  | bool _ | signed _ _ | unsigned _ _ | floating _ _ => []
  | string s => [checkValue s]
  | charPtr mem => [checkValue (cString mem)]
  | boolVector bs => [checkArraySize bs.length]
  | signedVector _ vals => [checkArraySize vals.length]
  | unsignedVector _ vals => [checkArraySize vals.length]
  | floatingVector _ vals => [checkArraySize vals.length]
  | stringVector ss => checkArraySize ss.length :: ss.map checkValue

/-- An empty vector is encoded as one of `bool`. -/
def encodedVector (key : Bytes) (size : ℕ) (param : EncodedParam) : EncodedParam :=
  if size = 0 then signedVarintEncodedArrayParam key (w := .bit8) [] else param

/-- The parameter appended for a value. -/
def encoded (k : CharKind) (key : Bytes) : Value → EncodedParam
  | bool b => signedVarintEncodedParam key (boolByte b)
  | signed _ val => signedVarintEncodedParam key val
  | unsigned _ val => unsignedVarintEncodedParam key val
  | floating _ val => floatingNumberEncodedParam key val
  | string s => stringEncodedParam key (escapeToRaw k s)
  | charPtr mem => stringEncodedParam key (escapeToRaw k (cString mem))
  | boolVector bs =>
    encodedVector key bs.length (signedVarintEncodedArrayParam key (bs.map boolByte))
  | signedVector _ vals => encodedVector key vals.length (signedVarintEncodedArrayParam key vals)
  | unsignedVector _ vals =>
    encodedVector key vals.length (unsignedVarintEncodedArrayParam key vals)
  | floatingVector _ vals =>
    encodedVector key vals.length (floatingNumberEncodedArrayParam key vals)
  | stringVector ss =>
    encodedVector key ss.length (stringEncodedArrayParam key (ss.map (escapeToRaw k)))

end Value

/-- Leave the parameter out, or update the return code and append it. -/
def writeParam (k : CharKind) (key : Bytes) (s : EventBase × Alloc) (checks : List ℤ)
    (param : EncodedParam) : EventBase × Alloc :=
  if isValidName k key maxParamNameLength = false then
    ({ s.1 with retCode := errKeyNameInvalid }, s.2)
  else if s.1.paramCnt ≥ maxParamNumber then ({ s.1 with retCode := errKeyNumberTooMuch }, s.2)
  else EventBase.appendParam { s.1 with retCode := checks.foldl updateRetCode s.1.retCode }
    param s.2

section Spec

variable (k : CharKind) (key : Bytes) (s : EventBase × Alloc)

theorem isWarnAndUpdate_snd (code : ℤ) (e : EventBase) :
    (isWarnAndUpdate code e).2 = { e with retCode := updateRetCode e.retCode code } := by
  unfold isWarnAndUpdate updateRetCode
  split_ifs <;> rfl

theorem foldl_isWarnAndUpdate : ∀ (values : List Bytes) (e : EventBase),
    values.foldl (fun e item => (isWarnAndUpdate (checkValue item) e).2) e =
      { e with retCode := (values.map checkValue).foldl updateRetCode e.retCode }
  | [], _ => rfl
  | v :: values, e => by
    rw [List.foldl_cons, isWarnAndUpdate_snd, foldl_isWarnAndUpdate values]
    rfl

theorem checkParamValidity_eq (e : EventBase) :
    checkParamValidity k e key =
      if isValidName k key maxParamNameLength = false then
        (false, { e with retCode := errKeyNameInvalid })
      else if e.paramCnt ≥ maxParamNumber then
        (false, { e with retCode := errKeyNumberTooMuch })
      else (true, e) := by
  unfold checkParamValidity isWarnAndUpdate checkKey updateAndCheckKeyNumIsOver
  cases isValidName k key maxParamNameLength
  · rfl
  · by_cases h : e.paramCnt ≥ maxParamNumber <;> simp [h]

theorem writeNumber_eq (param : EncodedParam) :
    writeNumber k key s param = writeParam k key s [] param := by
  unfold writeNumber writeParam
  rw [checkParamValidity_eq]
  split_ifs <;> rfl

theorem writeString_eq (value : Bytes) :
    writeString k key s value =
      writeParam k key s [checkValue value] (stringEncodedParam key (escapeToRaw k value)) := by
  unfold writeString writeParam
  rw [checkParamValidity_eq]
  split_ifs
  · rfl
  · rfl
  · simp only [isWarnAndUpdate_snd, List.foldl_cons, List.foldl_nil]

theorem checkArrayParamsValidity_eq (size : ℕ) :
    checkArrayParamsValidity k s key size =
      if isValidName k key maxParamNameLength = false then
        (false, { s.1 with retCode := errKeyNameInvalid }, s.2)
      else if s.1.paramCnt ≥ maxParamNumber then
        (false, { s.1 with retCode := errKeyNumberTooMuch }, s.2)
      else if size = 0 then
        (false, s.1.appendParam (signedVarintEncodedArrayParam key (w := .bit8) []) s.2)
      else (true, { s.1 with
        retCode := updateRetCode s.1.retCode (checkArraySize size) }, s.2) := by
  unfold checkArrayParamsValidity
  rw [checkParamValidity_eq]
  by_cases h1 : isValidName k key maxParamNameLength = false
  · simp only [if_pos h1]
  · by_cases h2 : s.1.paramCnt ≥ maxParamNumber
    · simp only [if_neg h1, if_pos h2]
    · simp only [if_neg h1, if_neg h2, isWarnAndUpdate_snd]

theorem writeNumberVector_eq (size : ℕ) (param : EncodedParam) :
    writeNumberVector k key s size param =
      writeParam k key s [checkArraySize size] (Value.encodedVector key size param) := by
  unfold writeNumberVector writeParam Value.encodedVector
  rw [checkArrayParamsValidity_eq]
  by_cases h0 : size = 0
  · subst h0
    split_ifs <;> rfl
  · simp only [if_neg h0, List.foldl_cons, List.foldl_nil]
    split_ifs <;> rfl

theorem writeStringVector_eq (values : List Bytes) :
    writeStringVector k key s values =
      writeParam k key s (checkArraySize values.length :: values.map checkValue)
        (Value.encodedVector key values.length
          (stringEncodedArrayParam key (values.map (escapeToRaw k)))) := by
  unfold writeStringVector writeParam Value.encodedVector
  rw [checkArrayParamsValidity_eq]
  by_cases h0 : values.length = 0
  · rw [List.length_eq_zero_iff.1 h0]
    split_ifs <;> rfl
  · simp only [if_neg h0, List.foldl_cons]
    split_ifs
    · rfl
    · rfl
    · simp only [foldl_isWarnAndUpdate]

/-- Every overload updates the return code and appends, or leaves the parameter out. -/
theorem innerWriteValue_eq : ∀ v : Value,
    innerWriteValue k key s v = writeParam k key s v.checks (v.encoded k key)
  | .bool _ | .signed _ _ | .unsigned _ _ | .floating _ _ => writeNumber_eq k key s _
  | .string _ | .charPtr _ => writeString_eq k key s _
  | .boolVector _ | .signedVector _ _ | .unsignedVector _ _ | .floatingVector _ _ =>
    writeNumberVector_eq k key s _ _
  | .stringVector _ => writeStringVector_eq k key s _

end Spec

/-! ## What an event holds -/

namespace Value

/-- An empty vector is normalised to one of `bool`. -/
def normaliseVector (t : ValueType) : List t.Item → ParamValue
  | [] => .array .int64 []
  | items => .array t (items.take maxArraySize)

/-- What the receiver reads for a value. -/
def normalise (k : CharKind) : Value → ParamValue
  | bool b => .scalar .int64 (if b then 1 else 0)
  | signed _ val => .scalar .int64 val.toInt
  | unsigned _ val => .scalar .uint64 val.toNat
  | floating t val => .scalar t.valueType (t.item (t.finiteOrZero val))
  | string s => .scalar .string (escapeToRaw k s)
  | charPtr mem => .scalar .string (escapeToRaw k (cString mem))
  | boolVector bs => normaliseVector .int64 (bs.map fun b => if b then 1 else 0)
  | signedVector _ vals => normaliseVector .int64 (vals.map BitVec.toInt)
  | unsignedVector _ vals => normaliseVector .uint64 (vals.map BitVec.toNat)
  | floatingVector t vals =>
    normaliseVector t.valueType (vals.map fun val => t.item (t.finiteOrZero val))
  | stringVector ss => normaliseVector .string (ss.map (escapeToRaw k))

theorem toInt_boolByte (b : Bool) : (boolByte b).toInt = if b then 1 else 0 := by
  cases b <;> rfl

theorem toParam_encodedVector {key : Bytes} {size : ℕ} {param : EncodedParam} {t : ValueType}
    {items : List t.Item} (hsize : size = items.length)
    (hparam : param.toParam = (key, .array t (items.take maxArraySize))) :
    (encodedVector key size param).toParam = (key, normaliseVector t items) := by
  subst hsize
  cases items with
  | nil => rfl
  | cons x xs => exact hparam

theorem toParam_encoded (k : CharKind) (key : Bytes) : ∀ v : Value,
    (v.encoded k key).toParam = (key, v.normalise k)
  | bool b => by
    rw [normalise, ← toInt_boolByte]
    rfl
  | signed _ _ | unsigned _ _ | floating _ _ | string _ | charPtr _ => rfl
  | boolVector bs => by
    refine toParam_encodedVector (by simp) ?_
    simp only [EncodedParam.toParam, signedVarintEncodedArrayParam, EncodedValue.toParamValue,
      List.map_take, List.map_map, Function.comp_def, toInt_boolByte]
  | signedVector _ vals => by
    refine toParam_encodedVector (by simp) ?_
    simp only [EncodedParam.toParam, signedVarintEncodedArrayParam, EncodedValue.toParamValue,
      List.map_take]
  | unsignedVector _ vals => by
    refine toParam_encodedVector (by simp) ?_
    simp only [EncodedParam.toParam, unsignedVarintEncodedArrayParam, EncodedValue.toParamValue,
      List.map_take]
  | floatingVector t vals => by
    refine toParam_encodedVector (by simp) ?_
    simp only [EncodedParam.toParam, floatingNumberEncodedArrayParam, EncodedValue.toParamValue,
      List.map_take, List.map_map, Function.comp_def]
  | stringVector ss => by
    refine toParam_encodedVector (by simp) ?_
    rfl

end Value

/-- The parameters an event keeps after `n` others, each as the receiver reads it. -/
def accepted (k : CharKind) : ℕ → List (Bytes × Value) → List Param
  | _, [] => []
  | n, (key, value) :: keyValues =>
    if isValidName k key maxParamNameLength = true ∧ n < maxParamNumber then
      (key, value.normalise k) :: accepted k (n + 1) keyValues
    else accepted k n keyValues

theorem length_accepted (k : CharKind) : ∀ (n : ℕ) (keyValues : List (Bytes × Value)),
    n ≤ maxParamNumber → n + (accepted k n keyValues).length ≤ maxParamNumber
  | n, [], h => by simpa [accepted] using h
  | n, (key, value) :: keyValues, h => by
    rw [accepted]
    split_ifs with hacc
    · have := length_accepted k (n + 1) keyValues hacc.2
      simp only [List.length_cons]
      omega
    · exact length_accepted k n keyValues h

/-- The return code after a parameter that follows `n` kept ones. -/
def retCodeAfter (k : CharKind) (n : ℕ) (retCode : ℤ) (key : Bytes) (v : Value) : ℤ :=
  if isValidName k key maxParamNameLength = false then errKeyNameInvalid
  else if n ≥ maxParamNumber then errKeyNumberTooMuch
  else v.checks.foldl updateRetCode retCode

theorem accepted_cons (k : CharKind) (n : ℕ) (kv : Bytes × Value) (kvs : List (Bytes × Value)) :
    accepted k n (kv :: kvs) =
      accepted k n [kv] ++ accepted k (n + (accepted k n [kv]).length) kvs := by
  obtain ⟨key, value⟩ := kv
  rw [accepted, accepted, accepted, accepted]
  split_ifs <;> rfl

/-- With every allocation granted, an overload keeps the parameter or leaves it out. -/
theorem innerWriteValue_holds (k : CharKind) (key : Bytes) {e : EventBase} {params : List Param}
    (h : e.Holds params) (v : Value) :
    ∃ e', innerWriteValue k key (e, Alloc.always) v = (e', Alloc.always) ∧
      e'.header = e.header ∧ e'.traceInfo = e.traceInfo ∧
      e'.retCode = retCodeAfter k params.length e.retCode key v ∧
      e'.Holds (params ++ accepted k params.length [(key, v)]) := by
  rw [innerWriteValue_eq, writeParam, retCodeAfter, accepted, accepted, h.paramCnt]
  cases hkey : isValidName k key maxParamNameLength with
  | false =>
    refine ⟨{ e with retCode := errKeyNameInvalid }, rfl, rfl, rfl, rfl, ?_⟩
    simpa [accepted] using h.setRetCode errKeyNameInvalid
  | true =>
    by_cases hcnt : params.length < maxParamNumber
    · obtain ⟨d, -, -, hd, -⟩ := h.raw
      obtain ⟨d', happ, hholds⟩ := EventBase.appendParam_granted
        (h.setRetCode (v.checks.foldl updateRetCode e.retCode)) hd (v.encoded k key)
        (granted_always _)
      rw [happ, v.toParam_encoded] at hholds
      simp only [Bool.true_eq_false, if_false, if_neg (Nat.not_le.2 hcnt), hcnt, and_true, if_true]
      exact ⟨_, happ, rfl, rfl, rfl, hholds⟩
    · refine ⟨{ e with retCode := errKeyNumberTooMuch }, ?_, rfl, rfl, ?_, ?_⟩
      · rw [if_neg (by simp), if_pos (Nat.not_lt.1 hcnt)]
      · rw [if_neg (by simp), if_pos (Nat.not_lt.1 hcnt)]
      · rw [if_neg fun hacc => hcnt hacc.2, accepted, List.append_nil]
        exact h.setRetCode errKeyNumberTooMuch

/-- With every allocation granted, the event holds the accepted parameters. -/
theorem innerWrite_holds (k : CharKind) :
    ∀ (keyValues : List (Bytes × Value)) {e : EventBase} {params : List Param}, e.Holds params →
      ∃ e', innerWrite k keyValues (e, Alloc.always) = (e', Alloc.always) ∧
        e'.header = e.header ∧ e'.traceInfo = e.traceInfo ∧
        e'.Holds (params ++ accepted k params.length keyValues)
  | [], e, params, h => ⟨e, rfl, rfl, rfl, by simpa [accepted] using h⟩
  | (key, v) :: keyValues, e, params, h => by
    obtain ⟨e₁, hw, hhd, htr, -, h₁⟩ := innerWriteValue_holds k key h v
    obtain ⟨e₂, hw₂, hhd₂, htr₂, h₂⟩ := innerWrite_holds k keyValues h₁
    refine ⟨e₂, by rw [innerWrite, hw, hw₂], hhd₂.trans hhd, htr₂.trans htr, ?_⟩
    rwa [List.append_assoc, List.length_append, ← accepted_cons] at h₂

/-! ## The receiver reads the event back -/

theorem isError_eq_true {e : EventBase} : isError e = true ↔ e.retCode < 0 :=
  decide_eq_true_iff

/-- With valid names and every allocation granted, the event is filled. -/
theorem prepare_eq {k : CharKind} {domain eventName : Bytes}
    (hd : isValidName k domain maxDomainLength = true)
    (hn : isValidName k eventName maxEventNameLength = true) (p : Process) (type : ℤ)
    (timeStamp : UInt64) (fill : EventBase × Alloc → EventBase × Alloc) :
    ∃ e, prepare k p domain eventName type timeStamp fill Alloc.always = fill (e, Alloc.always) ∧
      e.Holds [] ∧ e.retCode = 0 ∧
      e.header = ((EventBase.new k domain eventName type timeStamp).setProcess p).header ∧
      e.traceInfo = ((EventBase.new k domain eventName type timeStamp).setProcess p).traceInfo := by
  have hst := EventBase.new_started hd hn type timeStamp
  obtain ⟨ha, hret⟩ := (EventBase.new k domain eventName type timeStamp).writebaseInfo_always p
  have hw := EventBase.writebaseInfo_cases hst.paramCnt p Alloc.always
  unfold prepare
  generalize EventBase.new k domain eventName type timeStamp = e at *
  rw [hst.retCode] at hret
  rcases hw with herr | ⟨d, offset, hw, hholds⟩
  · rw [hret] at herr
    exact absurd herr (by decide)
  · have he : isError e = false := by simp [isError, hst.retCode]
    have hw' : isError (e.writebaseInfo p Alloc.always).1 = false := by simp [isError, hret]
    refine ⟨(e.writebaseInfo p Alloc.always).1, ?_, hholds, hret, by rw [hw], by rw [hw]⟩
    simp only [he, hw', Bool.false_eq_true, if_false]
    exact congrArg fill (Prod.ext rfl ha)

/-- The fields of the header say what the caller and the process gave. -/
structure HeaderOf (p : Process) (domain eventName : Bytes) (type : ℤ) (timeStamp : UInt64)
    (h : HiSysEventHeader) : Prop where
  domain : cString h.domain.1 = domain
  name : cString h.name.1 = eventName
  timestamp : h.timestamp = timeStamp
  type : h.type.toNat + 1 = type
  timeZone : h.timeZone.toNat = parseTimeZone p.timezone
  uid : h.uid = p.uid
  pid : h.pid = p.pid
  tid : h.tid = p.tid
  id : h.id = 0
  isTraceOpened : h.isTraceOpened = 1 ↔ p.hitraceId.isSome

theorem headerOf_setProcess {e : EventBase} {domain eventName : Bytes} {type : ℤ}
    {timeStamp : UInt64} (h : e.Started domain eventName type timeStamp) (hd : 0 ∉ domain)
    (hn : 0 ∉ eventName) (h1 : 1 ≤ type) (h4 : type ≤ 4) (p : Process) :
    HeaderOf p domain eventName type timeStamp (e.setProcess p).header where
  domain := (congrArg cString h.domain).trans (cString_pad hd _)
  name := (congrArg cString h.name).trans (cString_pad hn _)
  timestamp := h.timestamp
  type := by
    have htype : (e.setProcess p).header.type = BitVec.ofInt 2 (type - 1) := h.type
    rw [htype, BitVec.toNat_ofInt]
    omega
  timeZone := UInt8.toNat_ofNat_of_lt' (lt_trans (parseTimeZone_lt p.timezone) (by decide))
  uid := rfl
  pid := rfl
  tid := rfl
  id := h.id
  isTraceOpened := by
    have := h.isTraceOpened
    cases hid : p.hitraceId <;> simp [EventBase.setProcess, hid, this]

/-- With every allocation granted, the finished raw data is the block of the accepted
parameters under the header and the trace of the process. -/
theorem getEventRawData_prepare {k : CharKind} {domain eventName : Bytes}
    (hd : isValidName k domain maxDomainLength = true)
    (hn : isValidName k eventName maxEventNameLength = true) (p : Process) (type : ℤ)
    (timeStamp : UInt64) (keyValues : List (Bytes × Value)) :
    ∃ d e, ((prepare k p domain eventName type timeStamp (innerWrite k keyValues)
        Alloc.always).1.getEventRawData Alloc.always).1 = some d ∧
      d.content = (EventBase.block e (accepted k 0 keyValues)).encode ∧
      e.header = ((EventBase.new k domain eventName type timeStamp).setProcess p).header ∧
      e.trace = p.hitraceId := by
  have hst := EventBase.new_started hd hn type timeStamp
  obtain ⟨e, hprep, hholds, -, hhd, htr⟩ :=
    prepare_eq hd hn p type timeStamp (innerWrite k keyValues)
  obtain ⟨e', hw, hhd', htr', hholds'⟩ := innerWrite_holds k keyValues hholds
  obtain ⟨d, hget, -, hcont, -⟩ := EventBase.getEventRawData_holds hholds' Alloc.always
  refine ⟨d, e', by rw [hprep, hw, hget], hcont, hhd'.trans hhd, ?_⟩
  rw [← EventBase.trace_setProcess hst.isTraceOpened p, EventBase.trace, EventBase.trace,
    hhd', hhd, htr', htr]

/-- The receiver reads back the header, the trace section and the accepted parameters, and
nothing is left over. -/
theorem read_getEventRawData {k : CharKind} {domain eventName : Bytes}
    (hd : isValidName k domain maxDomainLength = true)
    (hn : isValidName k eventName maxEventNameLength = true) (p : Process) {type : ℤ}
    (h1 : 1 ≤ type) (h4 : type ≤ 4) (timeStamp : UInt64) (keyValues : List (Bytes × Value)) :
    ∃ d header, ((prepare k p domain eventName type timeStamp (innerWrite k keyValues)
        Alloc.always).1.getEventRawData Alloc.always).1 = some d ∧
      EventBlock.read.run d.content =
        some (⟨d.content.length % 2 ^ 32, header, p.hitraceId, accepted k 0 keyValues⟩, []) ∧
      HeaderOf p domain eventName type timeStamp header := by
  obtain ⟨d, e, hget, hcont, hhd, htr⟩ :=
    getEventRawData_prepare hd hn p type timeStamp keyValues
  have hcnt : (accepted k 0 keyValues).length < 2 ^ 32 := by
    have := length_accepted k 0 keyValues (Nat.zero_le _)
    exact lt_of_le_of_lt (by omega) (show maxParamNumber < 2 ^ 32 by decide)
  have hblock : e.block (accepted k 0 keyValues) =
      ⟨d.content.length % 2 ^ 32, e.header, p.hitraceId, accepted k 0 keyValues⟩ := by
    rw [hcont, EventBase.length_encode_block, EventBase.block, htr]
  have hread := EventBlock.reads_read (e.block_wellFormed hcnt) []
  rw [List.append_nil, ← hcont, hblock] at hread
  refine ⟨d, e.header, hget, hread, ?_⟩
  rw [hhd]
  exact headerOf_setProcess (EventBase.new_started hd hn type timeStamp)
    (not_mem_zero_of_isValidName hd) (not_mem_zero_of_isValidName hn) h1 h4 p

/-- An event with a signed number under a valid key and one under an invalid key. -/
theorem read_getEventRawData_int :
    ∃ d header, ((prepare .signed ⟨0, 1, 2, 3, none⟩ [65] [66] 1 7
        (innerWrite .signed [([67], .signed .int 5), ([], .bool true)])
        Alloc.always).1.getEventRawData Alloc.always).1 = some d ∧
      EventBlock.read.run d.content =
        some (⟨d.content.length % 2 ^ 32, header, none, [([67], .scalar .int64 5)]⟩, []) ∧
      HeaderOf ⟨0, 1, 2, 3, none⟩ [65] [66] 1 7 header :=
  read_getEventRawData (k := .signed) (by decide) (by decide) ⟨0, 1, 2, 3, none⟩ (by decide)
    (by decide) 7 [([67], .signed .int 5), ([], .bool true)]

end HiSysEvent
