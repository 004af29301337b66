import HiSysEvent.RawDataBaseDef

/-!
# The format of an event block

What a block says, apart from how the writer builds it. A parameter is a key with a
value, a scalar or an array of items of one `ValueType`. A block is the size, the header,
the trace section if the header announces one, the number of parameters, and the
parameters.

`EventBlock.read` is the receiver : one pass from the left with no other input than the
bytes. It reads back every well-formed block (`EventBlock.reads_read`), so no length, tag
or count can be mistaken for another.
-/

namespace HiSysEvent

open Wire

/-! ## Items -/

/-- The items of each type. Floating numbers are their object representation. -/
@[reducible] def ValueType.Item : ValueType → Type
  | .int64 => ℤ
  | .uint64 => ℕ
  | .float => BitVec 32
  | .double => BitVec 64
  | .string => Bytes

namespace ValueType

/-- The bytes of an item. -/
def encodeItem : (t : ValueType) → t.Item → Bytes
  | .int64, n => tagged 0 (zigzag n)
  | .uint64, n => tagged 0 n
  | .float, b => tagged 1 4 ++ le 4 b.toNat
  | .double, b => tagged 1 8 ++ le 8 b.toNat
  | .string, s => tagged 1 s.length ++ s

/-- Read an item. -/
def readItem : (t : ValueType) → Reader t.Item
  | .int64 => unzigzag <$> readUnder 0
  | .uint64 => readUnder 0
  | .float => check (· == 4) (readUnder 1) >>= fun _ => BitVec.ofNat 32 <$> readLE 4
  | .double => check (· == 8) (readUnder 1) >>= fun _ => BitVec.ofNat 64 <$> readLE 8
  | .string => readUnder 1 >>= take

theorem reads_readItem : ∀ (t : ValueType) (x : t.Item), Reads t.readItem (t.encodeItem x) x
  | .int64, n => by
    have := (reads_readUnder 0 (by omega) (zigzag n)).map unzigzag
    rwa [unzigzag_zigzag] at this
  | .uint64, n => reads_readUnder 0 (by omega) n
  | .float, b => by
    have := ((reads_readUnder 1 (by omega) 4).check (p := (· == 4)) rfl).seq
      ((reads_readLE (n := 4) b.isLt).map (BitVec.ofNat 32))
    rwa [BitVec.ofNat_toNat, BitVec.setWidth_eq] at this
  | .double, b => by
    have := ((reads_readUnder 1 (by omega) 8).check (p := (· == 8)) rfl).seq
      ((reads_readLE (n := 8) b.isLt).map (BitVec.ofNat 64))
    rwa [BitVec.ofNat_toNat, BitVec.setWidth_eq] at this
  | .string, s => (reads_readUnder 1 (by omega) s.length).bind (reads_take rfl)

/-- The type of a number, if the encoders write it. -/
def ofNat? : ℕ → Option ValueType
  | 8 => some .int64
  | 9 => some .uint64
  | 10 => some .float
  | 11 => some .double
  | 12 => some .string
  | _ => none

theorem ofNat?_toNat (t : ValueType) : ofNat? t.toNat = some t := by
  cases t <;> rfl

end ValueType

/-! ## Values -/

/-- What a parameter says. -/
inductive ParamValue
  | scalar (t : ValueType) (item : t.Item)
  | array (t : ValueType) (items : List t.Item)

namespace ParamValue

/-- The byte before the value. -/
def typeByte : ParamValue → UInt8
  | scalar t _ => UInt8.ofNat (2 * t.toNat)
  | array t _ => UInt8.ofNat (1 + 2 * t.toNat)

/-- The bytes of a value, behind its type. -/
def encode : ParamValue → Bytes
  | scalar t item => t.encodeItem item
  | array t items => tagged 1 items.length ++ items.flatMap t.encodeItem

/-- The value under a type byte. -/
def readAs (isArray : Bool) (t : ValueType) : Reader ParamValue :=
  if isArray then readUnder 1 >>= fun n => array t <$> times t.readItem n
  else scalar t <$> t.readItem

/-- Read the type and the value. -/
def read : Reader ParamValue :=
  readLE 1 >>= fun b =>
    match ValueType.ofNat? (b / 2 % 16) with
    | some t => readAs (b % 2 == 1) t
    | none => failure

theorem reads_readAs (v : ParamValue) :
    ∃ isArray t, v.typeByte.toNat % 2 = (if isArray then 1 else 0) ∧
      v.typeByte.toNat / 2 % 16 = t.toNat ∧ Reads (readAs isArray t) v.encode v := by
  have htoNat : ∀ t : ValueType, t.toNat < 16 := fun t => by cases t <;> decide
  cases v with
  | scalar t item =>
    have := htoNat t
    refine ⟨false, t, ?_, ?_, (t.reads_readItem item).map (scalar t)⟩
    · rw [typeByte, UInt8.toNat_ofNat', if_neg Bool.false_ne_true]
      omega
    · rw [typeByte, UInt8.toNat_ofNat']
      omega
  | array t items =>
    have := htoNat t
    have hitems := (Reads.times items fun x _ => t.reads_readItem x).map (array t)
    rw [List.map_id'] at hitems
    refine ⟨true, t, ?_, ?_, (reads_readUnder 1 (by omega) items.length).bind hitems⟩
    · rw [typeByte, UInt8.toNat_ofNat', if_pos rfl]
      omega
    · rw [typeByte, UInt8.toNat_ofNat']
      omega

theorem reads_read (v : ParamValue) : Reads read (le 1 v.typeByte.toNat ++ v.encode) v := by
  obtain ⟨isArray, t, harr, ht, hread⟩ := reads_readAs v
  refine (reads_readLE v.typeByte.toNat_lt).bind ?_
  rw [ht, ValueType.ofNat?_toNat, harr]
  cases isArray <;> exact hread

end ParamValue

/-! ## Blocks -/

/-- A key with its value. -/
abbrev Param := Bytes × ParamValue

namespace Param

/-- The bytes of a parameter. -/
def encode (p : Param) : Bytes :=
  (tagged 1 p.1.length ++ p.1) ++ (le 1 p.2.typeByte.toNat ++ p.2.encode)

/-- Read the key and the value. -/
def read : Reader Param :=
  ValueType.readItem .string >>= fun key => Prod.mk key <$> ParamValue.read

theorem reads_read (p : Param) : Reads read p.encode p :=
  (ValueType.reads_readItem .string p.1).bind ((ParamValue.reads_read p.2).map (Prod.mk p.1))

end Param

/-- What the receiver reads from a block. -/
structure EventBlock where
  blockSize : ℕ
  header : HiSysEventHeader
  traceInfo : Option TraceInfo
  params : List Param

namespace EventBlock

/-- The header with the trace section it announces. -/
def encodeBase (header : HiSysEventHeader) (traceInfo : Option TraceInfo) : Bytes :=
  header.toBytes ++ (traceInfo.map TraceInfo.toBytes).getD []

/-- The bytes of a block. -/
def encode (b : EventBlock) : Bytes :=
  le 4 b.blockSize ++ (encodeBase b.header b.traceInfo ++
    (le 4 b.params.length ++ b.params.flatMap Param.encode))

/-- Read the trace, if the header says that there is one. -/
def readTrace (header : HiSysEventHeader) : Reader (Option TraceInfo) :=
  if header.isTraceOpened = 1 then some <$> TraceInfo.read else pure none

/-- The receiver. -/
def read : Reader EventBlock := do
  let blockSize ← readLE 4
  let header ← HiSysEventHeader.read
  let traceInfo ← readTrace header
  let paramCnt ← readLE 4
  let params ← times Param.read paramCnt
  pure ⟨blockSize, header, traceInfo, params⟩

/-- The header announces the trace section, and the numbers fit their fields. -/
structure WellFormed (b : EventBlock) : Prop where
  trace : b.traceInfo.isSome ↔ b.header.isTraceOpened = 1
  size : b.blockSize < 2 ^ 32
  count : b.params.length < 2 ^ 32

theorem reads_readTrace {header : HiSysEventHeader} {traceInfo : Option TraceInfo}
    (h : traceInfo.isSome ↔ header.isTraceOpened = 1) :
    Reads (readTrace header) ((traceInfo.map TraceInfo.toBytes).getD []) traceInfo := by
  unfold readTrace
  cases traceInfo with
  | none =>
    rw [if_neg (by simpa using h)]
    exact Reads.pure none
  | some t =>
    rw [if_pos (h.1 rfl)]
    exact (TraceInfo.reads_read t).map some

theorem reads_read {b : EventBlock} (h : b.WellFormed) : Reads read b.encode b := by
  have hparams := Reads.times b.params fun p _ => Param.reads_read p
  rw [List.map_id'] at hparams
  refine (reads_readLE h.size).bind ?_
  rw [encodeBase, List.append_assoc]
  refine (HiSysEventHeader.reads_read b.header).bind ((reads_readTrace h.trace).bind ?_)
  exact (reads_readLE h.count).bind hparams.bind_pure

end EventBlock

end HiSysEvent
