import HiSysEvent.RawData

/-!
# The packed structures of a block

The header, the trace section and the type byte of a parameter, with their bytes as
`#pragma pack(1)` and the little-endian targets lay them out, and the readers of these
bytes.
-/

namespace HiSysEvent

open Wire

/-! ## Character arrays -/

/-- `char[n]`. -/
abbrev CharArray (n : ℕ) := {bs : Bytes // bs.length = n}

namespace CharArray

/-- The zeroed array. -/
def zero (n : ℕ) : CharArray n :=
  ⟨List.replicate n 0, List.length_replicate⟩

/-- `memcpy_s(dest, n, src, src.length())`. -/
def copyFrom {n : ℕ} (dest : CharArray n) (src : Bytes) : Option (CharArray n) :=
  if h : src.length ≤ n then
    some ⟨overwrite dest.1 0 src, by rw [length_overwrite (Nat.zero_le _), dest.2]; omega⟩
  else none

theorem copyFrom_zero {n : ℕ} {src : Bytes} (h : src.length ≤ n) :
    ∃ a : CharArray n, (zero n).copyFrom src = some a ∧
      a.1 = src ++ List.replicate (n - src.length) 0 :=
  ⟨_, dif_pos h, by simp [zero, overwrite]⟩

/-- Take an array off the input. -/
def read (n : ℕ) : Reader (CharArray n) := fun input =>
  if h : n ≤ input.length then some (⟨input.take n, by simp [h]⟩, input.drop n) else none

theorem reads_read {n : ℕ} (a : CharArray n) : Reads (read n) a.1 a := by
  obtain ⟨bs, rfl⟩ := a
  intro rest
  simp [read, StateT.run]

end CharArray

/-! ## The header -/

/-- The header of a block, as it is packed. -/
structure HiSysEventHeader where
  domain : CharArray (maxDomainLength + 1)
  name : CharArray (maxEventNameLength + 1)
  timestamp : UInt64
  timeZone : UInt8
  uid : UInt32
  pid : UInt32
  tid : UInt32
  id : UInt64
  type : BitVec 2
  isTraceOpened : BitVec 1

namespace HiSysEventHeader

/-- `header_` before the constructor of `EventBase` fills it. -/
def zero : HiSysEventHeader :=
  ⟨CharArray.zero _, CharArray.zero _, 0, 0, 0, 0, 0, 0, 0, 0⟩

/-- The byte the two bit fields share. -/
def flags (h : HiSysEventHeader) : UInt8 :=
  UInt8.ofNat (h.type.toNat + 4 * h.isTraceOpened.toNat)

/-- The header's bytes. -/
def toBytes (h : HiSysEventHeader) : Bytes :=
  h.domain.1 ++ (h.name.1 ++ (le 8 h.timestamp.toNat ++ (le 1 h.timeZone.toNat ++
    (le 4 h.uid.toNat ++ (le 4 h.pid.toNat ++ (le 4 h.tid.toNat ++ (le 8 h.id.toNat ++
      le 1 h.flags.toNat)))))))

/-- `sizeof(struct HiSysEventHeader)`. -/
abbrev size : ℕ := 80

@[simp] theorem length_toBytes (h : HiSysEventHeader) : h.toBytes.length = size := by
  simp [toBytes, h.domain.2, h.name.2, maxDomainLength, maxEventNameLength]

/-- The header read back. -/
def read : Reader HiSysEventHeader := do
  let domain ← CharArray.read _
  let name ← CharArray.read _
  let timestamp ← readLE 8
  let timeZone ← readLE 1
  let uid ← readLE 4
  let pid ← readLE 4
  let tid ← readLE 4
  let id ← readLE 8
  let flags ← readLE 1
  pure {
    domain := domain
    name := name
    timestamp := UInt64.ofNat timestamp
    timeZone := UInt8.ofNat timeZone
    uid := UInt32.ofNat uid
    pid := UInt32.ofNat pid
    tid := UInt32.ofNat tid
    id := UInt64.ofNat id
    type := BitVec.ofNat 2 flags
    isTraceOpened := BitVec.ofNat 1 (flags / 4) }

theorem toNat_flags (h : HiSysEventHeader) :
    h.flags.toNat = h.type.toNat + 4 * h.isTraceOpened.toNat := by
  have := h.type.isLt
  have := h.isTraceOpened.isLt
  rw [flags, UInt8.toNat_ofNat']
  omega

theorem reads_read (h : HiSysEventHeader) : Reads read h.toBytes h := by
  have hty := h.type.isLt
  have htr := h.isTraceOpened.isLt
  have htype : BitVec.ofNat 2 h.flags.toNat = h.type := by
    apply BitVec.eq_of_toNat_eq
    rw [toNat_flags, BitVec.toNat_ofNat]
    omega
  have htrace : BitVec.ofNat 1 (h.flags.toNat / 4) = h.isTraceOpened := by
    apply BitVec.eq_of_toNat_eq
    rw [toNat_flags, BitVec.toNat_ofNat]
    omega
  have heq : h = {
      domain := h.domain, name := h.name
      timestamp := UInt64.ofNat h.timestamp.toNat, timeZone := UInt8.ofNat h.timeZone.toNat
      uid := UInt32.ofNat h.uid.toNat, pid := UInt32.ofNat h.pid.toNat
      tid := UInt32.ofNat h.tid.toNat, id := UInt64.ofNat h.id.toNat
      type := BitVec.ofNat 2 h.flags.toNat
      isTraceOpened := BitVec.ofNat 1 (h.flags.toNat / 4) } := by
    simp [htype, htrace]
  conv => arg 3; rw [heq]
  refine (CharArray.reads_read h.domain).bind ((CharArray.reads_read h.name).bind ?_)
  refine (reads_readLE h.timestamp.toNat_lt).bind ((reads_readLE h.timeZone.toNat_lt).bind ?_)
  refine (reads_readLE h.uid.toNat_lt).bind ((reads_readLE h.pid.toNat_lt).bind ?_)
  refine (reads_readLE h.tid.toNat_lt).bind ((reads_readLE h.id.toNat_lt).bind ?_)
  exact (reads_readLE h.flags.toNat_lt).bind_pure

end HiSysEventHeader

/-! ## The trace section -/

/-- The trace information behind the header. -/
structure TraceInfo where
  traceFlag : UInt8
  traceId : UInt64
  spanId : UInt32
  pSpanId : UInt32

namespace TraceInfo

/-- The trace information of an event outside any trace. -/
def zero : TraceInfo :=
  ⟨0, 0, 0, 0⟩

/-- The bytes of the trace information. -/
def toBytes (t : TraceInfo) : Bytes :=
  le 1 t.traceFlag.toNat ++ (le 8 t.traceId.toNat ++ (le 4 t.spanId.toNat ++
    le 4 t.pSpanId.toNat))

@[simp] theorem length_toBytes (t : TraceInfo) : t.toBytes.length = 17 := by
  simp [toBytes]

/-- The trace information read back. -/
def read : Reader TraceInfo := do
  let traceFlag ← readLE 1
  let traceId ← readLE 8
  let spanId ← readLE 4
  let pSpanId ← readLE 4
  pure ⟨UInt8.ofNat traceFlag, UInt64.ofNat traceId, UInt32.ofNat spanId, UInt32.ofNat pSpanId⟩

theorem reads_read (t : TraceInfo) : Reads read t.toBytes t := by
  have heq : t = ⟨UInt8.ofNat t.traceFlag.toNat, UInt64.ofNat t.traceId.toNat,
      UInt32.ofNat t.spanId.toNat, UInt32.ofNat t.pSpanId.toNat⟩ := by simp
  conv => arg 3; rw [heq]
  refine (reads_readLE t.traceFlag.toNat_lt).bind ((reads_readLE t.traceId.toNat_lt).bind ?_)
  exact (reads_readLE t.spanId.toNat_lt).bind (reads_readLE t.pSpanId.toNat_lt).bind_pure

end TraceInfo

/-! ## The type byte of a parameter -/

/-- The members of `ValueType` the encoders write. -/
inductive ValueType
  | int64
  | uint64
  | float
  | double
  | string
  deriving DecidableEq

/-- The type's number. -/
def ValueType.toNat : ValueType → ℕ
  | .int64 => 8
  | .uint64 => 9
  | .float => 10
  | .double => 11
  | .string => 12

/-- The two ways of encoding a value. -/
inductive EncodeType
  | varint
  | lengthDelimited
  deriving DecidableEq

/-- The encoding's number. -/
def EncodeType.toNat : EncodeType → ℕ
  | .varint => 0
  | .lengthDelimited => 1

/-- The byte in front of a parameter's value, as three bit fields. -/
structure ParamValueType where
  isArray : BitVec 1
  valueType : BitVec 4
  valueByteCnt : BitVec 3

/-- The bit fields in one byte, the lowest first. -/
def ParamValueType.toByte (t : ParamValueType) : UInt8 :=
  UInt8.ofNat (t.isArray.toNat + 2 * t.valueType.toNat + 32 * t.valueByteCnt.toNat)

/-! ## The time zone -/

/-- The index of `+0000`. -/
abbrev defaultTzPos : ℕ := 14

/-- The offsets of the table of time zones, in seconds. -/
def allTimeZones : List ℤ :=
  [3600, 7200, 10800, 11880, 14400, 18000, 21600,
    25200, 28800, 32400, 33480, 36000, 39600, 43200,
    0, -3600, -7200, -10800, -11880, -14400, 15480,
    -18000, -19080, -19620, -21600, -22680, -25200, -28800,
    -30420, -32400, -33480, -36000, -37080, -39600, -43200,
    -44820, -46800, -50400]

/-- The position of the offset `tz`, of `+0000` if it is not in the table. -/
def parseTimeZone (tz : ℤ) : ℕ :=
  (allTimeZones.findIdx? (· == tz)).getD defaultTzPos

theorem parseTimeZone_lt (tz : ℤ) : parseTimeZone tz < 38 := by
  unfold parseTimeZone
  cases h : allTimeZones.findIdx? (· == tz) with
  | none => decide
  | some i =>
    have := (List.findIdx?_eq_some_iff_findIdx_eq.1 h).1
    exact this

end HiSysEvent
