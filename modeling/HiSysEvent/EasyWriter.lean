import HiSysEvent.InnerWrite

/-!
# The easy writer

A second writer of events, in C, for processes that cannot afford the other : a buffer of
`eventBuffLen` bytes, an offset into it, and encoders that check the room left before
each write. It writes one string parameter under the key `DATA` and always sends the
whole buffer.

Its functions are translated on their own, with their own header structure, time zone
table and varint. With enough room each encoder writes the format of a block at the
offset (`EventBuffer.Fits`, `encodeStringValue_fits`), and the longest event fills the
buffer to the last byte. So the event is the block of the C++ writer but for the size
field, and the rest of the buffer stays zero (`easyEvent_eq_block`).
-/

namespace HiSysEvent

namespace Easy

open Wire StringFilter

/-! ## Definitions -/

abbrev eventBuffLen : ℕ := 1120
abbrev dataMaxLen : ℕ := 1024

abbrev errDomainInvalid : ℤ := -1
abbrev errNameInvalid : ℤ := -2
abbrev errTypeInvalid : ℤ := -3
abbrev errParamValueInvalid : ℤ := -4
abbrev errEventBufInvalid : ℤ := -5
abbrev errEncodeStrFailed : ℤ := -6
abbrev errEncodeValueTypeFailed : ℤ := -7
abbrev errMemOptFailed : ℤ := -8

/-- `strlen`. -/
def strlen (mem : Bytes) : ℕ :=
  (cString mem).length

/-- `MemoryCopy`, `none` on an error. -/
def memoryCopy (dest : Bytes) (off destLen : ℕ) (src : Bytes) (srcLen : ℕ) : Option Bytes :=
  if destLen < srcLen then none else some (overwrite dest off (src.take srcLen))

/-- An event buffer with the offset of the next write. -/
structure EventBuffer where
  data : Bytes
  offset : ℕ

namespace EventBuffer

/-- Store bytes at the offset and move it past them. -/
def put (b : EventBuffer) (bs : Bytes) : EventBuffer :=
  ⟨overwrite b.data b.offset bs, b.offset + bs.length⟩

/-- `(dataLen < *offset) || ((dataLen - *offset) < n)`. -/
def lacks (b : EventBuffer) (n : ℕ) : Prop :=
  b.data.length < b.offset ∨ b.data.length - b.offset < n

instance (b : EventBuffer) (n : ℕ) : Decidable (b.lacks n) :=
  inferInstanceAs (Decidable (_ ∨ _))

end EventBuffer

/-! ## The encoders -/

abbrev tagByteOffset : ℕ := 5
abbrev tagByteBound : ℕ := 1 <<< tagByteOffset
abbrev tagByteMask : ℕ := tagByteBound - 1
abbrev nonTagByteOffset : ℕ := 7
abbrev nonTagByteBound : ℕ := 1 <<< nonTagByteOffset
abbrev nonTagByteMask : ℕ := nonTagByteBound - 1
abbrev lengthDelimitedEncodeType : UInt8 := 1
abbrev varIntEncodeSuccess : ℤ := 0
abbrev varIntEncodeFail : ℤ := 1

/-- The type of the encoding, in the upper two bits of the first byte. -/
def encodeTag (encodeType : UInt8) : UInt8 :=
  encodeType <<< UInt8.ofNat (tagByteOffset + 1)

/-- The first byte of a number. -/
def varintTagByte (encodeType : UInt8) (u64Val : ℕ) : UInt8 :=
  encodeTag encodeType ||| (if u64Val < tagByteBound then 0 else UInt8.ofNat tagByteBound) |||
    UInt8.ofNat (u64Val &&& tagByteMask)

/-- A byte behind the first one. -/
def varintNonTagByte (u64Val : ℕ) : UInt8 :=
  (if u64Val < nonTagByteBound then 0 else UInt8.ofNat nonTagByteBound) |||
    UInt8.ofNat (u64Val &&& nonTagByteMask)

/-- The loop of `EncodeUnsignedVarint`. -/
def unsignedVarintLoop (b : EventBuffer) (u64Val : ℕ) : ℤ × EventBuffer :=
  if u64Val > 0 then
    if b.lacks 1 then (varIntEncodeFail, b)
    else unsignedVarintLoop (b.put [varintNonTagByte u64Val]) (u64Val >>> nonTagByteOffset)
  else (varIntEncodeSuccess, b)
termination_by u64Val
decreasing_by
  rw [Nat.shiftRight_eq_div_pow]
  exact Nat.div_lt_self (by omega) (by decide)

/-- `EncodeUnsignedVarint`. -/
def encodeUnsignedVarint (b : EventBuffer) (encodeType : UInt8) (u64Val : ℕ) : ℤ × EventBuffer :=
  if b.lacks 1 then (varIntEncodeFail, b)
  else unsignedVarintLoop (b.put [varintTagByte encodeType u64Val]) (u64Val >>> tagByteOffset)

/-- `EncodeValueType`. -/
def encodeValueType (b : EventBuffer) (valueType : ParamValueType) : ℤ × EventBuffer :=
  if b.lacks 1 then (errEncodeValueTypeFailed, b) else (success, b.put [valueType.toByte])

/-- `EncodeStringValue`. The content is a pointer to a C string, `none` if it is null. -/
def encodeStringValue (b : EventBuffer) (content : Option Bytes) : ℤ × EventBuffer :=
  match content with
  | none => (errEventBufInvalid, b)
  | some content =>
    let contentLen := strlen content
    let (ret, b) := encodeUnsignedVarint b lengthDelimitedEncodeType contentLen
    if ret ≠ varIntEncodeSuccess then (errEncodeStrFailed, b)
    else if b.lacks contentLen then (errEncodeStrFailed, b)
    else
      match memoryCopy b.data b.offset (b.data.length - b.offset) content contentLen with
      | none => (errMemOptFailed, b)
      | some data => (success, ⟨data, b.offset + contentLen⟩)

/-! ## The builder -/

abbrev strParamValueType : BitVec 4 := 12

/-- The header of the easy writer. -/
structure HiSysEventEasyHeader where
  domain : CharArray (maxDomainLength + 1)
  name : CharArray (maxEventNameLength + 1)
  timestamp : UInt64
  timeZone : UInt8
  uid : UInt32
  pid : UInt32
  tid : UInt32
  id : UInt64
  type : BitVec 2
  isTraceOpened : BitVec 1

namespace HiSysEventEasyHeader

/-- The header `MemoryInit` leaves. -/
def zero : HiSysEventEasyHeader :=
  ⟨CharArray.zero _, CharArray.zero _, 0, 0, 0, 0, 0, 0, 0, 0⟩

/-- The packed structure in memory. -/
def toBytes (h : HiSysEventEasyHeader) : Bytes :=
  h.domain.1 ++ (h.name.1 ++ (le 8 h.timestamp.toNat ++ (le 1 h.timeZone.toNat ++
    (le 4 h.uid.toNat ++ (le 4 h.pid.toNat ++ (le 4 h.tid.toNat ++ (le 8 h.id.toNat ++
      le 1 (h.type.toNat + 4 * h.isTraceOpened.toNat))))))))

/-- `sizeof(struct HiSysEventEasyHeader)`. -/
abbrev size : ℕ := 80

end HiSysEventEasyHeader

/-- `AppendHeader`. -/
def appendHeader (b : EventBuffer) (header : HiSysEventEasyHeader) : ℤ × EventBuffer :=
  if b.lacks HiSysEventEasyHeader.size then (errMemOptFailed, b)
  else (success, b.put header.toBytes)

/-- `AppendStringParam` of a key and a value that may be null. -/
def appendStringParam (b : EventBuffer) (key val : Option Bytes) : ℤ × EventBuffer :=
  match key, val with
  | none, _ => (errEventBufInvalid, b)
  | _, none => (errParamValueInvalid, b)
  | some key, some val =>
    if strlen val > dataMaxLen then (errParamValueInvalid, b)
    else
      let (ret, b) := encodeStringValue b (some key)
      if ret ≠ success then (ret, b)
      else
        let (ret, b) := encodeValueType b ⟨0, strParamValueType, 0⟩
        if ret ≠ success then (ret, b) else encodeStringValue b (some val)

/-! ## The event -/

/-- `DATA`. -/
def customizedParamKey : Bytes :=
  [68, 65, 84, 65]

abbrev invalidPid : ℤ := 0

/-- What the writer asks the process for : `gPid`, and the results of `GetRealPid` and of the
system calls. -/
structure EasyProcess where
  timestamp : UInt64
  timezone : ℤ
  gPid : ℤ
  realPid : ℤ
  getpid : ℤ
  tid : UInt32
  uid : UInt32

/-- `ALL_TIME_ZONES`. -/
def allTimeZones : List ℤ :=
  [3600, 7200, 10800, 11880, 14400, 18000, 21600,
    25200, 28800, 32400, 33480, 36000, 39600, 43200,
    0, -3600, -7200, -10800, -11880, -14400, 15480,
    -18000, -19080, -19620, -21600, -22680, -25200, -28800,
    -30420, -32400, -33480, -36000, -37080, -39600, -43200,
    -44820, -46800, -50400]

/-- `ParseTimeZone`, with the index 14 for a zone that is not listed. -/
def parseTimeZone (tz : ℤ) : UInt8 :=
  UInt8.ofNat ((allTimeZones.findIdx? (· == tz)).getD 14)

/-- `CheckEventType`, of the type cut to eight bits. -/
def checkEventType (eventType : UInt8) : ℤ :=
  if eventType < 1 ∨ eventType > 4 then errTypeInvalid else success

/-- The number stored in the header. -/
def EasyProcess.pid (p : EasyProcess) : UInt32 :=
  if p.gPid = invalidPid then
    UInt32.ofInt (if p.realPid ≠ invalidPid then p.realPid else p.getpid)
  else UInt32.ofInt p.gPid

/-- `InitEventHeader`, `none` if a name does not fit. -/
def initEventHeader (p : EasyProcess) (header : HiSysEventEasyHeader) (domain name : Bytes)
    (eventType : UInt8) : Option HiSysEventEasyHeader := do
  let domainChars ← header.domain.copyFrom (cString domain)
  let nameChars ← header.name.copyFrom (cString name)
  pure { header with
    domain := domainChars
    name := nameChars
    type := BitVec.ofNat 2 (eventType - 1).toNat
    timestamp := p.timestamp
    timeZone := parseTimeZone p.timezone
    pid := p.pid
    tid := p.tid
    uid := p.uid
    isTraceOpened := 0 }

/-- The buffer of zeros with the size written. -/
def startBuffer : EventBuffer :=
  EventBuffer.put ⟨List.replicate eventBuffLen 0, 0⟩ (le 4 eventBuffLen)

/-- `HiSysEventEasyWrite` up to the write to the socket. -/
def easyEvent (p : EasyProcess) (domain name : Option Bytes) (eventType : ℤ)
    (data : Option Bytes) : ℤ × EventBuffer :=
  match domain, name with
  | none, _ => (errDomainInvalid, startBuffer)
  | some domain, none =>
    if strlen domain > maxDomainLength then (errDomainInvalid, startBuffer)
    else (errNameInvalid, startBuffer)
  | some domain, some name =>
    if strlen domain > maxDomainLength then (errDomainInvalid, startBuffer)
    else if strlen name > maxEventNameLength then (errNameInvalid, startBuffer)
    else
      let ret := checkEventType (UInt8.ofInt eventType)
      if ret ≠ success then (ret, startBuffer)
      else
        match initEventHeader p .zero domain name (UInt8.ofInt eventType) with
        | none => (errMemOptFailed, startBuffer)
        | some header =>
          let (ret, b) := appendHeader startBuffer header
          if ret ≠ success then (ret, b)
          else if b.offset + 4 > eventBuffLen then (errEventBufInvalid, b)
          else appendStringParam (b.put (le 4 1)) (some customizedParamKey) data

/-- `HiSysEventEasyWrite` with the write to the socket. -/
def hiSysEventEasyWrite (write : Bytes → ℤ) (p : EasyProcess) (domain name : Option Bytes)
    (eventType : ℤ) (data : Option Bytes) : ℤ :=
  let (ret, b) := easyEvent p domain name eventType data
  if ret ≠ success then ret else write b.data

/-! ## Room -/

namespace EventBuffer

/-- There is room for `n` bytes at the offset. -/
def Fits (b : EventBuffer) (n : ℕ) : Prop :=
  b.offset + n ≤ b.data.length

theorem Fits.not_lacks {b : EventBuffer} {n : ℕ} (h : b.Fits n) : ¬b.lacks n := by
  unfold lacks Fits at *
  omega

theorem Fits.mono {b : EventBuffer} {m n : ℕ} (h : b.Fits n) (hmn : m ≤ n) : b.Fits m :=
  le_trans (Nat.add_le_add_left hmn _) h

theorem length_put {b : EventBuffer} {bs : Bytes} (h : b.Fits bs.length) :
    (b.put bs).data.length = b.data.length := by
  unfold Fits at h
  rw [put, length_overwrite (by omega)]
  omega

theorem Fits.put {b : EventBuffer} {bs : Bytes} {n : ℕ} (h : b.Fits (bs.length + n)) :
    (b.put bs).Fits n := by
  have hlen := length_put (h.mono (Nat.le_add_right _ n))
  have hoff : (b.put bs).offset = b.offset + bs.length := rfl
  unfold Fits at h ⊢
  omega

theorem put_put {b : EventBuffer} {xs ys : Bytes} (h : b.offset ≤ b.data.length) :
    (b.put xs).put ys = b.put (xs ++ ys) := by
  simp only [put, overwrite_overwrite h, List.length_append, Nat.add_assoc]

end EventBuffer

/-! ## With enough room the encoders write the format of a block -/

theorem varintTagByte_eq (type : EncodeType) (val : ℕ) :
    varintTagByte (UInt8.ofNat type.toNat) val = RawDataEncoder.tagByte type val :=
  rfl

theorem varintNonTagByte_eq (val : ℕ) : varintNonTagByte val = RawDataEncoder.nonTagByte val :=
  rfl

theorem unsignedVarintLoop_fits (val : ℕ) : ∀ {b : EventBuffer}, b.Fits (groups val).length →
    unsignedVarintLoop b val = (varIntEncodeSuccess, b.put (groups val)) := by
  induction val using Nat.strong_induction_on with
  | _ val ih =>
    intro b h
    rw [unsignedVarintLoop]
    rcases Nat.eq_zero_or_pos val with rfl | hpos
    · rw [if_neg (by omega), groups_zero]
      simp [EventBuffer.put, overwrite]
    · have hgroups := groups_pos hpos
      rw [← RawDataEncoder.nonTagByte_eq, ← varintNonTagByte_eq] at hgroups
      rw [hgroups, List.length_cons, Nat.add_comm] at h
      have h1 : b.Fits 1 := h.mono (Nat.le_add_right 1 _)
      rw [if_pos hpos, if_neg h1.not_lacks, Nat.shiftRight_eq_div_pow,
        ih _ (Nat.div_lt_self hpos (by decide)) (EventBuffer.Fits.put h),
        EventBuffer.put_put (le_trans (Nat.le_add_right _ 1) h1), hgroups]
      rfl

theorem encodeUnsignedVarint_fits {b : EventBuffer} (type : EncodeType) {val : ℕ}
    (h : b.Fits (tagged type.toNat val).length) :
    encodeUnsignedVarint b (UInt8.ofNat type.toNat) val =
      (varIntEncodeSuccess, b.put (tagged type.toNat val)) := by
  have htagged : tagged type.toNat val =
      varintTagByte (UInt8.ofNat type.toNat) val :: groups (val / 32) := by
    rw [varintTagByte_eq, RawDataEncoder.tagByte_eq]
    rfl
  rw [htagged, List.length_cons, Nat.add_comm] at h
  have h1 : b.Fits 1 := h.mono (Nat.le_add_right 1 _)
  rw [encodeUnsignedVarint, if_neg h1.not_lacks, Nat.shiftRight_eq_div_pow,
    unsignedVarintLoop_fits _ (EventBuffer.Fits.put h),
    EventBuffer.put_put (le_trans (Nat.le_add_right _ 1) h1), htagged]
  rfl

/-- The length of a string. -/
theorem encodeLength_fits {b : EventBuffer} {val : ℕ} (h : b.Fits (tagged 1 val).length) :
    encodeUnsignedVarint b lengthDelimitedEncodeType val =
      (varIntEncodeSuccess, b.put (tagged 1 val)) :=
  encodeUnsignedVarint_fits .lengthDelimited h

/-- A string in the format of a block. -/
theorem encodeStringValue_fits {b : EventBuffer} {content : Bytes}
    (h : b.Fits (ValueType.encodeItem .string (cString content)).length) :
    encodeStringValue b (some content) =
      (success, b.put (ValueType.encodeItem .string (cString content))) := by
  have hoff : b.offset ≤ b.data.length := le_trans (Nat.le_add_right _ _) h
  rw [ValueType.encodeItem, List.length_append] at h
  have h1 : b.Fits (tagged 1 (strlen content)).length := h.mono (Nat.le_add_right _ _)
  have h2 : (b.put (tagged 1 (strlen content))).Fits (strlen content) := EventBuffer.Fits.put h
  have htake : content.take (strlen content) = cString content :=
    List.prefix_iff_eq_take.1 (List.takeWhile_prefix _) |>.symm
  have hmem : ¬(b.put (tagged 1 (strlen content))).data.length -
      (b.put (tagged 1 (strlen content))).offset < strlen content := fun hlt =>
    h2.not_lacks (Or.inr hlt)
  simp only [encodeStringValue, encodeLength_fits h1, ne_eq, not_true_eq_false, if_false,
    if_neg h2.not_lacks, memoryCopy, if_neg hmem, htake]
  rw [ValueType.encodeItem, ← EventBuffer.put_put hoff]
  rfl

/-- The string parameter in the format of a block. -/
theorem appendStringParam_fits {b : EventBuffer} {key val : Bytes} (hval : strlen val ≤ dataMaxLen)
    (h : b.Fits (Param.encode (cString key, .scalar .string (cString val))).length) :
    appendStringParam b (some key) (some val) =
      (success, b.put (Param.encode (cString key, .scalar .string (cString val)))) := by
  have hoff : b.offset ≤ b.data.length := le_trans (Nat.le_add_right _ _) h
  have hparam : Param.encode (cString key, .scalar .string (cString val)) =
      ValueType.encodeItem .string (cString key) ++ ([24] ++
        ValueType.encodeItem .string (cString val)) := rfl
  rw [hparam, List.length_append] at h
  have h1 : b.Fits _ := h.mono (Nat.le_add_right _ _)
  have h2 := EventBuffer.Fits.put h
  rw [List.length_append] at h2
  have h3 : EventBuffer.Fits _ 1 := h2.mono (Nat.le_add_right _ _)
  have h4 := EventBuffer.Fits.put h2
  have htype : ParamValueType.toByte ⟨0, strParamValueType, 0⟩ = 24 := rfl
  simp only [appendStringParam, if_neg (Nat.not_lt.2 hval), encodeStringValue_fits h1, ne_eq,
    not_true_eq_false, if_false, encodeValueType, if_neg h3.not_lacks, htype,
    encodeStringValue_fits h4]
  rw [hparam, ← EventBuffer.put_put hoff, EventBuffer.put_put (le_trans (Nat.le_add_right _ _) h3)]

/-! ## The event is the block of the other writer -/

theorem length_toBytes (h : HiSysEventEasyHeader) :
    h.toBytes.length = HiSysEventEasyHeader.size := by
  simp only [HiSysEventEasyHeader.toBytes, List.length_append, h.domain.2, h.name.2, length_le,
    maxDomainLength, maxEventNameLength]

theorem parseTimeZone_eq (tz : ℤ) :
    parseTimeZone tz = UInt8.ofNat (HiSysEvent.parseTimeZone tz) :=
  rfl

/-- The longest event fills the buffer. -/
theorem length_event_le {data : Bytes} (h : data.length ≤ dataMaxLen) :
    4 + 80 + 4 + (Param.encode (customizedParamKey, .scalar .string data)).length ≤
      eventBuffLen := by
  have hkey : (tagged 1 customizedParamKey.length).length ≤ 1 := by
    exact length_tagged_le (n := 0) 1 (by decide)
  have hdata : (tagged 1 data.length).length ≤ 2 :=
    length_tagged_le (n := 1) 1 (lt_of_le_of_lt h (by decide))
  have h4 : customizedParamKey.length = 4 := rfl
  simp only [Param.encode, ParamValue.encode, ValueType.encodeItem, List.length_append, length_le]
  simp only [dataMaxLen, eventBuffLen] at *
  omega

/-- Both writers are asked about the same process at the same time. -/
structure SameProcess (ep : EasyProcess) (p : Process) : Prop where
  timezone : ep.timezone = p.timezone
  pid : ep.pid = p.pid
  tid : ep.tid = p.tid
  uid : ep.uid = p.uid
  hitraceId : p.hitraceId = none

theorem initEventHeader_eq {k : CharKind} {domain name : Bytes}
    (hd : isValidName k (cString domain) maxDomainLength = true)
    (hn : isValidName k (cString name) maxEventNameLength = true) {type : ℤ} (h1 : 1 ≤ type)
    (h4 : type ≤ 4) {ep : EasyProcess} {p : Process} (hp : SameProcess ep p) :
    ∃ header, initEventHeader ep .zero domain name (UInt8.ofInt type) = some header ∧
      header.toBytes = ((EventBase.new k (cString domain) (cString name) type
        ep.timestamp).setProcess p).header.toBytes := by
  have hst := EventBase.new_started hd hn type ep.timestamp
  obtain ⟨dc, hdc, hdcs⟩ := CharArray.copyFrom_zero (n := maxDomainLength + 1)
    (Nat.le_succ_of_le (length_of_isValidName hd).2)
  obtain ⟨nc, hnc, hncs⟩ := CharArray.copyFrom_zero (n := maxEventNameLength + 1)
    (Nat.le_succ_of_le (length_of_isValidName hn).2)
  generalize EventBase.new k (cString domain) (cString name) type ep.timestamp = e at *
  have htype : BitVec.ofNat 2 (UInt8.ofInt type - 1).toNat = BitVec.ofInt 2 (type - 1) := by
    obtain rfl | rfl | rfl | rfl : type = 1 ∨ type = 2 ∨ type = 3 ∨ type = 4 := by omega
    all_goals rfl
  have hopen : (e.setProcess p).header.isTraceOpened = 0 := by
    simp [EventBase.setProcess, hp.hitraceId, hst.isTraceOpened]
  have hinit : initEventHeader ep .zero domain name (UInt8.ofInt type) =
      some ⟨dc, nc, ep.timestamp, parseTimeZone ep.timezone, ep.uid, ep.pid, ep.tid, 0,
        BitVec.ofNat 2 (UInt8.ofInt type - 1).toNat, 0⟩ := by
    simp only [initEventHeader, HiSysEventEasyHeader.zero, hdc, hnc, Option.bind_eq_bind,
      Option.bind_some, Option.pure_def]
  refine ⟨_, hinit, ?_⟩
  rw [HiSysEventEasyHeader.toBytes, HiSysEventHeader.toBytes, HiSysEventHeader.toNat_flags, hopen]
  simp only [EventBase.setProcess, hdcs, hncs, htype, hst.domain, hst.name, hst.type,
    hst.timestamp, hst.id, hp.timezone, hp.pid, hp.tid, hp.uid, parseTimeZone_eq]

/-- What the easy writer puts into its buffer. -/
def eventBytes (header : HiSysEventEasyHeader) (data : Bytes) : Bytes :=
  le 4 eventBuffLen ++ (header.toBytes ++ (le 4 1 ++
    Param.encode (customizedParamKey, .scalar .string data)))

theorem length_eventBytes_le (header : HiSysEventEasyHeader) {data : Bytes}
    (h : data.length ≤ dataMaxLen) : (eventBytes header data).length ≤ eventBuffLen := by
  have := length_event_le h
  simp only [eventBytes, List.length_append, length_le, length_toBytes,
    HiSysEventEasyHeader.size] at this ⊢
  omega

/-- No step of the easy writer fails. -/
theorem easyEvent_eq {ep : EasyProcess} {domain name data : Bytes} {type : ℤ}
    {header : HiSysEventEasyHeader} (hd : strlen domain ≤ maxDomainLength)
    (hn : strlen name ≤ maxEventNameLength) (h1 : 1 ≤ type) (h4 : type ≤ 4)
    (hx : strlen data ≤ dataMaxLen)
    (hinit : initEventHeader ep .zero domain name (UInt8.ofInt type) = some header) :
    easyEvent ep (some domain) (some name) type (some data) =
      (success, EventBuffer.put ⟨List.replicate eventBuffLen 0, 0⟩
        (eventBytes header (cString data))) := by
  have htype : checkEventType (UInt8.ofInt type) = success := by
    obtain rfl | rfl | rfl | rfl : type = 1 ∨ type = 2 ∨ type = 3 ∨ type = 4 := by omega
    all_goals rfl
  have hzero : EventBuffer.Fits ⟨List.replicate eventBuffLen 0, 0⟩
      (eventBytes header (cString data)).length := by
    have := length_eventBytes_le header hx
    simpa [EventBuffer.Fits] using this
  have hoff : (startBuffer.put header.toBytes).offset = 84 := by
    simp [startBuffer, EventBuffer.put, length_toBytes, HiSysEventEasyHeader.size]
  rw [eventBytes, List.length_append] at hzero
  have hstart : startBuffer.Fits _ := EventBuffer.Fits.put hzero
  have hhd : startBuffer.Fits HiSysEventEasyHeader.size := hstart.mono (by simp [length_toBytes])
  rw [List.length_append] at hstart
  have hcnt : (startBuffer.put header.toBytes).Fits _ := EventBuffer.Fits.put hstart
  rw [List.length_append] at hcnt
  have hparam : EventBuffer.Fits ((startBuffer.put header.toBytes).put (le 4 1)) (Param.encode
      (cString customizedParamKey, .scalar .string (cString data))).length :=
    EventBuffer.Fits.put hcnt
  have hkey : cString customizedParamKey = customizedParamKey := rfl
  simp only [easyEvent, if_neg (Nat.not_lt.2 hd), if_neg (Nat.not_lt.2 hn), htype, hinit,
    appendHeader, if_neg hhd.not_lacks, ne_eq, not_true_eq_false, if_false, hoff,
    if_neg (show ¬84 + 4 > eventBuffLen by decide), appendStringParam_fits hx hparam, hkey]
  rw [EventBuffer.put_put (le_trans (Nat.le_add_right _ _) hcnt),
    EventBuffer.put_put (le_trans (Nat.le_add_right _ _) hstart), startBuffer,
    EventBuffer.put_put (Nat.zero_le _), eventBytes]

theorem put_zeros (bs : Bytes) :
    EventBuffer.put ⟨List.replicate eventBuffLen 0, 0⟩ bs =
      ⟨bs ++ List.replicate (eventBuffLen - bs.length) 0, bs.length⟩ := by
  simp [EventBuffer.put, overwrite]

/-- Up to the offset the buffer is the block `d` but for the size, then it is zero. -/
structure Agrees (b : EventBuffer) (d : RawData) : Prop where
  offset_le : b.offset ≤ eventBuffLen
  length_data : b.data.length = eventBuffLen
  blockSize : b.data.take 4 = le 4 eventBuffLen
  block : (b.data.take b.offset).drop 4 = d.content.drop 4
  zeros : b.data.drop b.offset = List.replicate (eventBuffLen - b.offset) 0

/-- No step of the easy writer fails, and but for the size its event is the block of the C++
writer. -/
theorem easyEvent_eq_block {k : CharKind} {domain name data : Bytes}
    (hd : isValidName k (cString domain) maxDomainLength = true)
    (hn : isValidName k (cString name) maxEventNameLength = true) {type : ℤ} (h1 : 1 ≤ type)
    (h4 : type ≤ 4) (hx : strlen data ≤ dataMaxLen)
    (hesc : escapeToRaw k (cString data) = cString data) {ep : EasyProcess} {p : Process}
    (hp : SameProcess ep p) :
    ∃ b d, easyEvent ep (some domain) (some name) type (some data) = (success, b) ∧
      ((prepare k p (cString domain) (cString name) type ep.timestamp
        (innerWrite k [(customizedParamKey, .string (cString data))])
        Alloc.always).1.getEventRawData Alloc.always).1 = some d ∧ Agrees b d := by
  obtain ⟨header, hinit, hbytes⟩ := initEventHeader_eq hd hn h1 h4 hp
  have heasy := easyEvent_eq (length_of_isValidName hd).2 (length_of_isValidName hn).2 h1 h4 hx hinit
  obtain ⟨d, e, hget, hcont, hhd, htr⟩ := getEventRawData_prepare hd hn p type ep.timestamp
    [(customizedParamKey, .string (cString data))]
  have hkey : isValidName k customizedParamKey maxParamNameLength = true := by
    cases k <;> decide
  have hacc : accepted k 0 [(customizedParamKey, .string (cString data))] =
      [(customizedParamKey, .scalar .string (cString data))] := by
    rw [accepted, if_pos ⟨hkey, by decide⟩, accepted, Value.normalise, hesc]
  have hdrop : (eventBytes header (cString data)).drop 4 = d.content.drop 4 := by
    rw [hcont, hacc, EventBlock.encode, eventBytes, List.drop_left' (length_le _ _),
      List.drop_left' (length_le _ _)]
    simp only [EventBase.block, EventBlock.encodeBase, hhd, htr, hp.hitraceId, ← hbytes]
    simp
  have hlen := length_eventBytes_le header hx
  rw [put_zeros] at heasy
  refine ⟨_, d, heasy, hget, hlen, ?_, ?_, ?_, ?_⟩
  · simp only [List.length_append, List.length_replicate]
    omega
  · rw [eventBytes, List.append_assoc]
    exact List.take_left' (length_le _ _)
  · simp only [List.take_left', hdrop]
  · exact List.drop_left' rfl

/-- A process that knows its pid from `/proc`. -/
theorem easyEvent_eq_block_realPid :
    ∃ b d, easyEvent ⟨7, 0, 0, 10, 1, 2, 3⟩ (some [65, 0]) (some [66, 0]) 1 (some [67, 0]) =
        (success, b) ∧
      ((prepare .unsigned ⟨0, 10, 2, 3, none⟩ [65] [66] 1 7
        (innerWrite .unsigned [(customizedParamKey, .string [67])])
        Alloc.always).1.getEventRawData Alloc.always).1 = some d ∧ Agrees b d :=
  @easyEvent_eq_block .unsigned [65, 0] [66, 0] [67, 0] (by decide) (by decide) 1 (by decide)
    (by decide) (by decide) (by decide) _ _ ⟨rfl, rfl, rfl, rfl, rfl⟩

end Easy

end HiSysEvent
