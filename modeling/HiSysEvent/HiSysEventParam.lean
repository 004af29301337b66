import HiSysEvent.InnerWrite

/-!
# The parameters of the C interface

A `HiSysEventParam` is a name, a type code and a union. `AppendParam` dispatches on the
code through a table of 25 functions (`appendFuncs`), with null pointers and unknown codes
left out as invalid values.

Read as one of the C++ types (`toCxx`), a parameter is appended as the C++ overload of that type
does it (`appendParam_eq`).
-/

namespace HiSysEvent

abbrev maxLengthOfParamName : ℕ := 49

/-- The memory behind an array pointer, as arrays of each item type. -/
structure ArrayMemory where
  bools : ℕ → Bool
  ints : (w : IntWidth) → ℕ → BitVec w.bits
  floats : (t : FloatType) → ℕ → BitVec t.bits
  strings : ℕ → Option Bytes

/-- The union, as each member reads it. A pointer is null or the memory it points to. -/
structure HiSysEventParamValue where
  b : Bool
  i8 : BitVec 8
  ui8 : BitVec 8
  i16 : BitVec 16
  ui16 : BitVec 16
  i32 : BitVec 32
  ui32 : BitVec 32
  i64 : BitVec 64
  ui64 : BitVec 64
  f : BitVec 32
  d : BitVec 64
  s : Option Bytes
  array : Option ArrayMemory

/-- The codes `t` of `HiSysEventParamType` : 0 is invalid, 1 to 12 are the numbers and the
string, 13 to 24 the arrays of these in the same order. -/
structure HiSysEventParam where
  name : CharArray maxLengthOfParamName
  t : ℕ
  v : HiSysEventParamValue
  arraySize : ℕ

namespace HiSysEventParam

/-- `std::string(param.name)`. -/
def key (param : HiSysEventParam) : Bytes :=
  cString param.name.1

/-- `std::vector<T>(array, array + arraySize)`. -/
def items {α : Type} (param : HiSysEventParam) (array : ℕ → α) : List α :=
  (List.range param.arraySize).map array

end HiSysEventParam

/-! ## The append functions -/

section Append

variable (k : CharKind) (param : HiSysEventParam) (s : EventBase × Alloc)

/-- A parameter without a value only sets the return code. -/
def appendInvalidParam : EventBase × Alloc :=
  ({ s.1 with retCode := errValueInvalid }, s.2)

/-- The append function of a signed integer. -/
def appendSigned {w : IntWidth} (val : BitVec w.bits) : EventBase × Alloc :=
  writeNumber k param.key s (signedVarintEncodedParam param.key val)

/-- The append function of an unsigned integer. -/
def appendUnsigned {w : IntWidth} (val : BitVec w.bits) : EventBase × Alloc :=
  writeNumber k param.key s (unsignedVarintEncodedParam param.key val)

/-- The append function of a floating number. -/
def appendFloating {t : FloatType} (val : BitVec t.bits) : EventBase × Alloc :=
  writeNumber k param.key s (floatingNumberEncodedParam param.key val)

/-- `AppendBoolParam`. -/
def appendBoolParam := appendSigned k param s (w := .bit8) (boolByte param.v.b)
/-- `AppendInt8Param`. -/
def appendInt8Param := appendSigned k param s (w := .bit8) param.v.i8
/-- `AppendUint8Param`. -/
def appendUint8Param := appendUnsigned k param s (w := .bit8) param.v.ui8
/-- `AppendInt16Param`. -/
def appendInt16Param := appendSigned k param s (w := .bit16) param.v.i16
/-- `AppendUint16Param`. -/
def appendUint16Param := appendUnsigned k param s (w := .bit16) param.v.ui16
/-- `AppendInt32Param`. -/
def appendInt32Param := appendSigned k param s (w := .bit32) param.v.i32
/-- `AppendUint32Param`. -/
def appendUint32Param := appendUnsigned k param s (w := .bit32) param.v.ui32
/-- `AppendInt64Param`. -/
def appendInt64Param := appendSigned k param s (w := .bit64) param.v.i64
/-- `AppendUint64Param`. -/
def appendUint64Param := appendUnsigned k param s (w := .bit64) param.v.ui64
/-- `AppendFloatParam`. -/
def appendFloatParam := appendFloating k param s (t := .float) param.v.f
/-- `AppendDoubleParam`. -/
def appendDoubleParam := appendFloating k param s (t := .double) param.v.d

/-- `AppendStringParam`, of a pointer that may be null. -/
def appendStringParam : EventBase × Alloc :=
  match param.v.s with
  | none => appendInvalidParam s
  | some mem => writeString k param.key s (cString mem)

/-- The append function of an array of numbers. -/
def appendNumberArray {α : Type} (read : ArrayMemory → ℕ → α)
    (encode : List α → EncodedParam) : EventBase × Alloc :=
  match param.v.array with
  | none => appendInvalidParam s
  | some array =>
    let value := param.items (read array)
    writeNumberVector k param.key s value.length (encode value)

/-- The append function of an array of signed integers. -/
def appendSignedArray (w : IntWidth) : EventBase × Alloc :=
  appendNumberArray k param s (fun array => array.ints w) (signedVarintEncodedArrayParam param.key)

/-- The append function of an array of unsigned integers. -/
def appendUnsignedArray (w : IntWidth) : EventBase × Alloc :=
  appendNumberArray k param s (fun array => array.ints w)
    (unsignedVarintEncodedArrayParam param.key)

/-- The append function of an array of floating numbers. -/
def appendFloatingArray (t : FloatType) : EventBase × Alloc :=
  appendNumberArray k param s (fun array => array.floats t)
    (floatingNumberEncodedArrayParam param.key)

/-- `AppendBoolArrayParam`. -/
def appendBoolArrayParam :=
  appendNumberArray k param s ArrayMemory.bools fun value =>
    signedVarintEncodedArrayParam param.key (value.map boolByte)

/-- `AppendInt8ArrayParam`. -/
def appendInt8ArrayParam := appendSignedArray k param s .bit8
/-- `AppendUint8ArrayParam`. -/
def appendUint8ArrayParam := appendUnsignedArray k param s .bit8
/-- `AppendInt16ArrayParam`. -/
def appendInt16ArrayParam := appendSignedArray k param s .bit16
/-- `AppendUint16ArrayParam`. -/
def appendUint16ArrayParam := appendUnsignedArray k param s .bit16
/-- `AppendInt32ArrayParam`. -/
def appendInt32ArrayParam := appendSignedArray k param s .bit32
/-- `AppendUint32ArrayParam`. -/
def appendUint32ArrayParam := appendUnsignedArray k param s .bit32
/-- `AppendInt64ArrayParam`. -/
def appendInt64ArrayParam := appendSignedArray k param s .bit64
/-- `AppendUint64ArrayParam`. -/
def appendUint64ArrayParam := appendUnsignedArray k param s .bit64
/-- `AppendFloatArrayParam`. -/
def appendFloatArrayParam := appendFloatingArray k param s .float
/-- `AppendDoubleArrayParam`. -/
def appendDoubleArrayParam := appendFloatingArray k param s .double

/-- `AppendStringArrayParam`, of pointers that may be null. -/
def appendStringArrayParam : EventBase × Alloc :=
  match param.v.array with
  | none => appendInvalidParam s
  | some array =>
    -- the first null item makes the whole array invalid
    match (param.items array.strings).mapM id with
    | none => appendInvalidParam s
    | some value => writeStringVector k param.key s (value.map cString)

end Append

/-- The table of `AppendParam`. -/
def appendFuncs (k : CharKind) :
    List (HiSysEventParam → EventBase × Alloc → EventBase × Alloc) :=
  [fun _ => appendInvalidParam, appendBoolParam k, appendInt8Param k, appendUint8Param k,
    appendInt16Param k, appendUint16Param k, appendInt32Param k, appendUint32Param k,
    appendInt64Param k, appendUint64Param k, appendFloatParam k, appendDoubleParam k,
    appendStringParam k, appendBoolArrayParam k, appendInt8ArrayParam k, appendUint8ArrayParam k,
    appendInt16ArrayParam k, appendUint16ArrayParam k, appendInt32ArrayParam k,
    appendUint32ArrayParam k, appendInt64ArrayParam k, appendUint64ArrayParam k,
    appendFloatArrayParam k, appendDoubleArrayParam k, appendStringArrayParam k]

/-- `AppendParam`, by the type of the parameter. -/
def appendParam (k : CharKind) (param : HiSysEventParam) (s : EventBase × Alloc) :
    EventBase × Alloc :=
  match (appendFuncs k)[param.t]? with
  | some appendFunc => appendFunc param s
  | none => ({ s.1 with retCode := errValueInvalid }, s.2)

/-- `InnerWrite` of the C parameters, which may be a null pointer. -/
def innerWriteParams (k : CharKind) (params : Option (List HiSysEventParam))
    (s : EventBase × Alloc) : EventBase × Alloc :=
  (params.getD []).foldl (fun s param => appendParam k param s) s

/-! ## The C++ value of a parameter -/

namespace HiSysEventParam

/-- The value of the matching C++ type, if the code and the pointers are valid. -/
def value? (param : HiSysEventParam) : Option Value :=
  match param.t with
  | 1 => some (.bool param.v.b)
  | 2 => some (.signed .char param.v.i8)
  | 3 => some (.unsigned .unsignedChar param.v.ui8)
  | 4 => some (.signed .short param.v.i16)
  | 5 => some (.unsigned .unsignedShort param.v.ui16)
  | 6 => some (.signed .int param.v.i32)
  | 7 => some (.unsigned .unsignedInt param.v.ui32)
  | 8 => some (.signed .long param.v.i64)
  | 9 => some (.unsigned .unsignedLong param.v.ui64)
  | 10 => some (.floating .float param.v.f)
  | 11 => some (.floating .double param.v.d)
  | 12 => param.v.s.map fun mem => .string (cString mem)
  | 13 => param.v.array.map fun array => .boolVector (param.items array.bools)
  | 14 => param.v.array.map fun array => .signedVector .char (param.items (array.ints .bit8))
  | 15 => param.v.array.map fun array =>
    .unsignedVector .unsignedChar (param.items (array.ints .bit8))
  | 16 => param.v.array.map fun array => .signedVector .short (param.items (array.ints .bit16))
  | 17 => param.v.array.map fun array =>
    .unsignedVector .unsignedShort (param.items (array.ints .bit16))
  | 18 => param.v.array.map fun array => .signedVector .int (param.items (array.ints .bit32))
  | 19 => param.v.array.map fun array =>
    .unsignedVector .unsignedInt (param.items (array.ints .bit32))
  | 20 => param.v.array.map fun array => .signedVector .long (param.items (array.ints .bit64))
  | 21 => param.v.array.map fun array =>
    .unsignedVector .unsignedLong (param.items (array.ints .bit64))
  | 22 => param.v.array.map fun array =>
    .floatingVector .float (param.items (array.floats .float))
  | 23 => param.v.array.map fun array =>
    .floatingVector .double (param.items (array.floats .double))
  | 24 => param.v.array.bind fun array =>
    ((param.items array.strings).mapM id).map fun value => .stringVector (value.map cString)
  | _ => none

/-- The key and the value a C++ caller passes. -/
def toCxx (param : HiSysEventParam) : Option (Bytes × Value) :=
  param.value?.map fun value => (param.key, value)

end HiSysEventParam

theorem appendNumberArray_eq (k : CharKind) (param : HiSysEventParam) (s : EventBase × Alloc)
    {α : Type} {read : ArrayMemory → ℕ → α} {encode : List α → EncodedParam}
    (value : List α → Value) (h : ∀ items, innerWriteValue k param.key s (value items) =
      writeNumberVector k param.key s items.length (encode items)) :
    appendNumberArray k param s read encode =
      match (param.v.array.map fun array => value (param.items (read array))).map
        fun value => (param.key, value) with
      | none => appendInvalidParam s
      | some (key, value) => innerWriteValue k key s value := by
  unfold appendNumberArray
  cases param.v.array with
  | none => rfl
  | some array => exact (h _).symm

theorem appendBoolArrayParam_eq (k : CharKind) (param : HiSysEventParam)
    (s : EventBase × Alloc) :
    appendBoolArrayParam k param s =
      match (param.v.array.map fun array => Value.boolVector (param.items array.bools)).map
        fun value => (param.key, value) with
      | none => appendInvalidParam s
      | some (key, value) => innerWriteValue k key s value :=
  appendNumberArray_eq k param s .boolVector fun _ => rfl

theorem appendStringParam_eq (k : CharKind) (param : HiSysEventParam) (s : EventBase × Alloc) :
    appendStringParam k param s =
      match (param.v.s.map fun mem => Value.string (cString mem)).map
        fun value => (param.key, value) with
      | none => appendInvalidParam s
      | some (key, value) => innerWriteValue k key s value := by
  unfold appendStringParam
  cases param.v.s <;> rfl

theorem appendStringArrayParam_eq (k : CharKind) (param : HiSysEventParam)
    (s : EventBase × Alloc) :
    appendStringArrayParam k param s =
      match (param.v.array.bind fun array => ((param.items array.strings).mapM id).map
        fun value => Value.stringVector (value.map cString)).map
          fun value => (param.key, value) with
      | none => appendInvalidParam s
      | some (key, value) => innerWriteValue k key s value := by
  unfold appendStringArrayParam
  cases param.v.array with
  | none => rfl
  | some array =>
    simp only [Option.bind_some]
    cases (param.items array.strings).mapM id <;> rfl

/-- A parameter of the C interface is left out, or appended by the overload of its value. -/
theorem appendParam_eq (k : CharKind) (s : EventBase × Alloc) : ∀ param : HiSysEventParam,
    appendParam k param s =
      match param.toCxx with
      | none => appendInvalidParam s
      | some (key, value) => innerWriteValue k key s value
  | ⟨_, 0, _, _⟩ | ⟨_, 1, _, _⟩ | ⟨_, 2, _, _⟩ | ⟨_, 3, _, _⟩ | ⟨_, 4, _, _⟩ | ⟨_, 5, _, _⟩
  | ⟨_, 6, _, _⟩ | ⟨_, 7, _, _⟩ | ⟨_, 8, _, _⟩ | ⟨_, 9, _, _⟩ | ⟨_, 10, _, _⟩
  | ⟨_, 11, _, _⟩ => rfl
  | ⟨_, 12, _, _⟩ => appendStringParam_eq k _ s
  | ⟨_, 13, _, _⟩ => appendBoolArrayParam_eq k _ s
  | ⟨_, 14, _, _⟩ => appendNumberArray_eq k _ s (.signedVector .char) fun _ => rfl
  | ⟨_, 15, _, _⟩ => appendNumberArray_eq k _ s (.unsignedVector .unsignedChar) fun _ => rfl
  | ⟨_, 16, _, _⟩ => appendNumberArray_eq k _ s (.signedVector .short) fun _ => rfl
  | ⟨_, 17, _, _⟩ => appendNumberArray_eq k _ s (.unsignedVector .unsignedShort) fun _ => rfl
  | ⟨_, 18, _, _⟩ => appendNumberArray_eq k _ s (.signedVector .int) fun _ => rfl
  | ⟨_, 19, _, _⟩ => appendNumberArray_eq k _ s (.unsignedVector .unsignedInt) fun _ => rfl
  | ⟨_, 20, _, _⟩ => appendNumberArray_eq k _ s (.signedVector .long) fun _ => rfl
  | ⟨_, 21, _, _⟩ => appendNumberArray_eq k _ s (.unsignedVector .unsignedLong) fun _ => rfl
  | ⟨_, 22, _, _⟩ => appendNumberArray_eq k _ s (.floatingVector .float) fun _ => rfl
  | ⟨_, 23, _, _⟩ => appendNumberArray_eq k _ s (.floatingVector .double) fun _ => rfl
  | ⟨_, 24, _, _⟩ => appendStringArrayParam_eq k _ s
  | ⟨_, _ + 25, _, _⟩ => rfl

/-! ## Parameters of both interfaces -/

/-- One type for the overloads that do the same. -/
def Value.canonical : Value → Value
  | .charPtr mem => .string (cString mem)
  | .signed .longLong val => .signed .long val
  | .unsigned .unsignedLongLong val => .unsigned .unsignedLong val
  | .signedVector .longLong vals => .signedVector .long vals
  | .unsignedVector .unsignedLongLong vals => .unsignedVector .unsignedLong vals
  | v => v

theorem innerWriteValue_canonical (k : CharKind) (key : Bytes) (s : EventBase × Alloc) :
    ∀ v : Value, innerWriteValue k key s v.canonical = innerWriteValue k key s v
  | .signed t _ | .signedVector t _ => by cases t <;> rfl
  | .unsigned t _ | .unsignedVector t _ => by cases t <;> rfl
  | .bool _ | .floating _ _ | .string _ | .charPtr _ | .boolVector _ | .floatingVector _ _
  | .stringVector _ => rfl

/-- A parameter of the C interface and a key with a value of C++ that say the same. -/
def HiSysEventParam.Matches (param : HiSysEventParam) (keyValue : Bytes × Value) : Prop :=
  0 ∈ param.name.1 ∧ param.toCxx = some (keyValue.1, keyValue.2.canonical)

/-- The C parameters are written as the C++ values that match them. -/
theorem innerWriteParams_eq (k : CharKind) {params : List HiSysEventParam}
    {keyValues : List (Bytes × Value)}
    (h : List.Forall₂ HiSysEventParam.Matches params keyValues) (s : EventBase × Alloc) :
    innerWriteParams k (some params) s = innerWrite k keyValues s := by
  induction h generalizing s with
  | nil => rfl
  | @cons param keyValue params keyValues hmatch _ ih =>
    obtain ⟨key, value⟩ := keyValue
    have hparam : appendParam k param s = innerWriteValue k key s value := by
      rw [appendParam_eq, hmatch.2]
      exact innerWriteValue_canonical k key s value
    rw [innerWrite, ← hparam]
    exact ih _

end HiSysEvent
