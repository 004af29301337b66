import HiSysEvent.BlockFormat
import HiSysEvent.RawDataEncoder

/-!
# Encoded parameters

The subclasses of `EncodedParam` : unsigned and signed integers of four widths, floating
numbers, strings, and arrays of these. Their constructors cut an array to its first
`maxArraySize` items and replace a number that is not finite by zero; `encode` writes the
key, the type byte and the value.

`encode` appends the pieces of the parameter one by one (`EncodedParam.encode_eq`), and
together they are the parameter in the format of a block (`EncodedParam.flatten_pieces`).
-/

namespace HiSysEvent

open Wire Writer RawDataEncoder

/-! ## Number types -/

/-- The widths of the integer types. A `bool` is its object representation, one byte. -/
inductive IntWidth
  | bit8
  | bit16
  | bit32
  | bit64
  deriving DecidableEq

/-- The number of bits. -/
@[reducible] def IntWidth.bits : IntWidth → ℕ
  | .bit8 => 8
  | .bit16 => 16
  | .bit32 => 32
  | .bit64 => 64

theorem IntWidth.bits_le (w : IntWidth) : w.bits ≤ 64 := by
  cases w <;> decide

/-- `float` and `double`. -/
inductive FloatType
  | float
  | double
  deriving DecidableEq

namespace FloatType

/-- The number of bits. -/
@[reducible] def bits : FloatType → ℕ
  | .float => 32
  | .double => 64

/-- `sizeof(T)`. -/
def size : FloatType → ℕ
  | .float => 4
  | .double => 8

/-- `std::isfinite` : not all bits of the exponent are set. -/
def isFinite : (t : FloatType) → BitVec t.bits → Bool
  | .float, b => b.toNat / 2 ^ 23 % 2 ^ 8 != 255
  | .double, b => b.toNat / 2 ^ 52 % 2 ^ 11 != 2047

/-- `std::isfinite(val) ? val : 0.0`. -/
def finiteOrZero (t : FloatType) (val : BitVec t.bits) : BitVec t.bits :=
  if t.isFinite val then val else 0

/-- The type in the block. -/
@[reducible] def valueType : FloatType → ValueType
  | .float => .float
  | .double => .double

/-- The bits as an item of that type. -/
def item : (t : FloatType) → BitVec t.bits → t.valueType.Item
  | .float, b => b
  | .double, b => b

end FloatType

/-! ## The subclasses -/

/-- The subclass of a parameter with its `val_` or `vals_`. -/
inductive EncodedValue
  | unsignedVarint (w : IntWidth) (val : BitVec w.bits)
  | unsignedVarintArray (w : IntWidth) (vals : List (BitVec w.bits))
  | signedVarint (w : IntWidth) (val : BitVec w.bits)
  | signedVarintArray (w : IntWidth) (vals : List (BitVec w.bits))
  | floatingNumber (t : FloatType) (val : BitVec t.bits)
  | floatingNumberArray (t : FloatType) (vals : List (BitVec t.bits))
  | string (val : Bytes)
  | stringArray (vals : List Bytes)

/-- A key with an encoded value. -/
structure EncodedParam where
  key : Bytes
  value : EncodedValue

section Constructors

variable (key : Bytes) {w : IntWidth} {t : FloatType}

/-- `UnsignedVarintEncodedParam`. -/
def unsignedVarintEncodedParam (val : BitVec w.bits) : EncodedParam :=
  ⟨key, .unsignedVarint w val⟩

/-- `UnsignedVarintEncodedArrayParam`, which keeps 100 items at most. -/
def unsignedVarintEncodedArrayParam (vals : List (BitVec w.bits)) : EncodedParam :=
  ⟨key, .unsignedVarintArray w (vals.take maxArraySize)⟩

/-- `SignedVarintEncodedParam`. -/
def signedVarintEncodedParam (val : BitVec w.bits) : EncodedParam :=
  ⟨key, .signedVarint w val⟩

/-- `SignedVarintEncodedArrayParam`, which keeps 100 items at most. -/
def signedVarintEncodedArrayParam (vals : List (BitVec w.bits)) : EncodedParam :=
  ⟨key, .signedVarintArray w (vals.take maxArraySize)⟩

/-- `FloatingNumberEncodedParam`. A number that is not finite becomes zero. -/
def floatingNumberEncodedParam (val : BitVec t.bits) : EncodedParam :=
  ⟨key, .floatingNumber t (t.finiteOrZero val)⟩

/-- `FloatingNumberEncodedArrayParam`, which keeps 100 items at most. -/
def floatingNumberEncodedArrayParam (vals : List (BitVec t.bits)) : EncodedParam :=
  ⟨key, .floatingNumberArray t ((vals.take maxArraySize).map t.finiteOrZero)⟩

/-- `StringEncodedParam`. -/
def stringEncodedParam (val : Bytes) : EncodedParam :=
  ⟨key, .string val⟩

/-- `StringEncodedArrayParam`, which keeps 100 items at most. -/
def stringEncodedArrayParam (vals : List Bytes) : EncodedParam :=
  ⟨key, .stringArray (vals.take maxArraySize)⟩

end Constructors

/-! ## Encoding -/

namespace EncodedValue

/-- `EncodeValueType`, the byte of the type. -/
def encodeValueType : EncodedValue → Writer
  | unsignedVarint _ _ => valueTypeEncoded false .uint64 0
  | unsignedVarintArray _ _ => valueTypeEncoded true .uint64 0
  | signedVarint _ _ => valueTypeEncoded false .int64 0
  | signedVarintArray _ _ => valueTypeEncoded true .int64 0
  | floatingNumber t _ => valueTypeEncoded false t.valueType 0
  | floatingNumberArray t _ => valueTypeEncoded true t.valueType 0
  | string _ => valueTypeEncoded false .string 0
  | stringArray _ => valueTypeEncoded true .string 0

/-- The count of an array, then its items while no append fails. -/
def encodeItems {α : Type} (enc : α → Writer) (vals : List α) : Writer :=
  vals.foldl (fun ret item => ret.andThen (enc item))
    (unsignedVarintEncoded .lengthDelimited vals.length)

/-- `EncodeValue`, the bytes behind the type. -/
def encodeValue : EncodedValue → Writer
  | unsignedVarint _ val => unsignedVarintEncoded .varint val.toNat
  | unsignedVarintArray _ vals =>
    encodeItems (fun item => unsignedVarintEncoded .varint item.toNat) vals
  | signedVarint _ val => signedVarintEncoded .varint val
  | signedVarintArray _ vals => encodeItems (signedVarintEncoded .varint) vals
  | floatingNumber t val => floatingNumberEncoded t.size (le t.size val.toNat)
  | floatingNumberArray t vals =>
    encodeItems (fun item => floatingNumberEncoded t.size (le t.size item.toNat)) vals
  | string val => stringValueEncoded val
  | stringArray vals => encodeItems stringValueEncoded vals

end EncodedValue

namespace EncodedParam

/-- `EncodeKey`. -/
def encodeKey (p : EncodedParam) : Writer :=
  stringValueEncoded p.key

/-- `Encode`, which ends at the first piece that fails. -/
def encode (p : EncodedParam) : Writer :=
  p.encodeKey.andThen (p.value.encodeValueType.andThen p.value.encodeValue)

end EncodedParam

/-! ## What the parameter says -/

namespace EncodedValue

/-- The value in the format of a block. -/
def toParamValue : EncodedValue → ParamValue
  | unsignedVarint _ val => .scalar .uint64 val.toNat
  | unsignedVarintArray _ vals => .array .uint64 (vals.map BitVec.toNat)
  | signedVarint _ val => .scalar .int64 val.toInt
  | signedVarintArray _ vals => .array .int64 (vals.map BitVec.toInt)
  | floatingNumber t val => .scalar t.valueType (t.item val)
  | floatingNumberArray t vals => .array t.valueType (vals.map t.item)
  | string val => .scalar .string val
  | stringArray vals => .array .string vals

/-- The pieces of an array, from those of its items. -/
def itemPieces {α : Type} (pieces : α → List Bytes) (vals : List α) : List Bytes :=
  varintPieces .lengthDelimited vals.length ++ vals.flatMap pieces

/-- The byte strings `encodeValue` appends, in order. -/
def pieces : EncodedValue → List Bytes
  | unsignedVarint _ val => varintPieces .varint val.toNat
  | unsignedVarintArray _ vals => itemPieces (fun item => varintPieces .varint item.toNat) vals
  | signedVarint _ val => varintPieces .varint (zigzag val.toInt)
  | signedVarintArray _ vals =>
    itemPieces (fun item => varintPieces .varint (zigzag item.toInt)) vals
  | floatingNumber t val => varintPieces .lengthDelimited t.size ++ [le t.size val.toNat]
  | floatingNumberArray t vals =>
    itemPieces (fun item => varintPieces .lengthDelimited t.size ++ [le t.size item.toNat]) vals
  | string val => varintPieces .lengthDelimited val.length ++ [val]
  | stringArray vals =>
    itemPieces (fun item => varintPieces .lengthDelimited item.length ++ [item]) vals

theorem signedVarintEncoded_eq (w : IntWidth) (val : BitVec w.bits) :
    signedVarintEncoded .varint val = appendAll (varintPieces .varint (zigzag val.toInt)) := by
  rw [signedVarintEncoded, unsignedVarintEncoded_eq, toNat_zigzagEncoded w.bits_le]

theorem encodeItems_eq {α : Type} {enc : α → Writer} {pieces : α → List Bytes}
    (h : ∀ x, enc x = appendAll (pieces x)) (vals : List α) :
    encodeItems enc vals = appendAll (itemPieces pieces vals) := by
  rw [encodeItems, unsignedVarintEncoded_eq, foldl_andThen h, itemPieces]

theorem encodeValue_eq : ∀ v : EncodedValue, v.encodeValue = appendAll v.pieces
  | unsignedVarint _ _ => unsignedVarintEncoded_eq _ _
  | unsignedVarintArray _ vals => encodeItems_eq (fun _ => unsignedVarintEncoded_eq _ _) vals
  | signedVarint w val => signedVarintEncoded_eq w val
  | signedVarintArray w vals => encodeItems_eq (signedVarintEncoded_eq w) vals
  | floatingNumber _ _ => floatingNumberEncoded_eq _ _
  | floatingNumberArray _ vals => encodeItems_eq (fun _ => floatingNumberEncoded_eq _ _) vals
  | string val => stringValueEncoded_eq val
  | stringArray vals => encodeItems_eq stringValueEncoded_eq vals

theorem valueTypeEncoded_eq (isArray : Bool) (t : ValueType) :
    valueTypeEncoded isArray t 0 =
      append [UInt8.ofNat ((if isArray then 1 else 0) + 2 * t.toNat)] := by
  cases isArray <;> cases t <;> rfl

theorem encodeValueType_eq (v : EncodedValue) :
    v.encodeValueType = append [v.toParamValue.typeByte] := by
  cases v <;> simp only [encodeValueType, valueTypeEncoded_eq, toParamValue,
    ParamValue.typeByte, if_true, Bool.false_eq_true, if_false, Nat.zero_add]

/-! ### The bytes of the pieces -/

theorem flatten_itemPieces {α : Type} {pieces : α → List Bytes} {t : ValueType} {item : α → t.Item}
    (h : ∀ x, (pieces x).flatten = t.encodeItem (item x)) (vals : List α) :
    (itemPieces pieces vals).flatten = (ParamValue.array t (vals.map item)).encode := by
  have hitems : (vals.flatMap pieces).flatten = (vals.map item).flatMap t.encodeItem := by
    rw [List.flatMap_map]
    induction vals with
    | nil => rfl
    | cons x xs ih => rw [List.flatMap_cons, List.flatten_append, ih, List.flatMap_cons, h]
  rw [itemPieces, List.flatten_append, flatten_varintPieces, hitems, ParamValue.encode,
    List.length_map]
  rfl

theorem flatten_numberPieces (t : FloatType) (val : BitVec t.bits) :
    (varintPieces .lengthDelimited t.size ++ [le t.size val.toNat]).flatten =
      t.valueType.encodeItem (t.item val) := by
  rw [List.flatten_append, flatten_varintPieces]
  cases t <;> simp [ValueType.encodeItem, FloatType.size, FloatType.item, EncodeType.toNat]

theorem flatten_stringPieces (val : Bytes) :
    (varintPieces .lengthDelimited val.length ++ [val]).flatten =
      ValueType.encodeItem .string val := by
  rw [List.flatten_append, flatten_varintPieces]
  simp [ValueType.encodeItem, EncodeType.toNat]

theorem flatten_pieces : ∀ v : EncodedValue, v.pieces.flatten = v.toParamValue.encode
  | unsignedVarint _ _ => flatten_varintPieces _ _
  | unsignedVarintArray _ vals =>
    flatten_itemPieces (t := .uint64) (fun _ => flatten_varintPieces _ _) vals
  | signedVarint _ _ => flatten_varintPieces _ _
  | signedVarintArray _ vals =>
    flatten_itemPieces (t := .int64) (fun _ => flatten_varintPieces _ _) vals
  | floatingNumber t val => flatten_numberPieces t val
  | floatingNumberArray t vals => flatten_itemPieces (flatten_numberPieces t) vals
  | string val => flatten_stringPieces val
  | stringArray vals => by
    have := @flatten_itemPieces _ _ .string id flatten_stringPieces vals
    rwa [List.map_id] at this

end EncodedValue

namespace EncodedParam

/-- The parameter in the format of a block. -/
def toParam (p : EncodedParam) : Param :=
  (p.key, p.value.toParamValue)

/-- The byte strings `encode` appends, in order. -/
def pieces (p : EncodedParam) : List Bytes :=
  (varintPieces .lengthDelimited p.key.length ++ [p.key]) ++
    ([p.value.toParamValue.typeByte] :: p.value.pieces)

theorem encode_eq (p : EncodedParam) : p.encode = appendAll p.pieces := by
  rw [encode, encodeKey, stringValueEncoded_eq, p.value.encodeValueType_eq,
    p.value.encodeValue_eq, pieces, appendAll_append (_ ++ [p.key])]
  rfl

theorem flatten_pieces (p : EncodedParam) : p.pieces.flatten = p.toParam.encode := by
  rw [pieces, List.flatten_append, EncodedValue.flatten_stringPieces, List.flatten_cons,
    p.value.flatten_pieces]
  simp [toParam, Param.encode, ValueType.encodeItem, le]

end EncodedParam

end HiSysEvent
