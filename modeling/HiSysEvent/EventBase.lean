import HiSysEvent.EncodedParam
import HiSysEvent.StringFilter

/-!
# The event under construction

`EventBase` collects the block of one event. The constructor checks the names and fills
the header, `writebaseInfo` appends an empty size field, the header, the trace section
and an empty count field, `appendParam` appends one parameter and counts it, and
`getEventRawData` writes the size and the count into their fields.

`EventBase.Holds` is the invariant between these calls : the raw data is the header part
and exactly the parameters counted. `writebaseInfo` without an error establishes it
(`writebaseInfo_holds`), an append with its allocations granted keeps it
(`appendParam_granted`), and `getEventRawData` then returns a block in the format of the
receiver (`getEventRawData_holds`).
-/

namespace HiSysEvent

open Wire Writer StringFilter

/-- What the writer asks the process for. The trace is `none` without a valid id. -/
structure Process where
  timezone : ℤ
  pid : UInt32
  tid : UInt32
  uid : UInt32
  hitraceId : Option TraceInfo

/-- An event while it is built. -/
structure EventBase where
  retCode : ℤ := 0
  paramCnt : ℕ := 0
  paramCntWroteOffset : ℕ := 0
  header : HiSysEventHeader := HiSysEventHeader.zero
  traceInfo : TraceInfo := TraceInfo.zero
  rawData : Option RawData := none

namespace EventBase

/-- The constructor. -/
def new (k : CharKind) (domain eventName : Bytes) (type : ℤ) (timeStamp : UInt64) : EventBase :=
  if !isValidName k domain maxDomainLength then { retCode := errDomainNameInvalid }
  else if !isValidName k eventName maxEventNameLength then { retCode := errEventNameInvalid }
  else
    let header := HiSysEventHeader.zero
    match header.domain.copyFrom domain with
    | none => { retCode := errRawDataWroteException }
    | some domainChars =>
      let header := { header with domain := domainChars }
      match header.name.copyFrom eventName with
      | none => { retCode := errRawDataWroteException, header := header }
      | some nameChars =>
        { header := { header with
            name := nameChars
            type := BitVec.ofInt 2 (type - 1)
            timestamp := timeStamp } }

/-- `AppendParam`. Nothing is counted when the encoding stops at a refused allocation. -/
def appendParam (e : EventBase) (param : EncodedParam) (a : Alloc) : EventBase × Alloc :=
  match e.rawData with
  | none => (e, a)
  | some d =>
    match param.encode (d, a) with
    | (true, d', a') => ({ e with rawData := some d', paramCnt := e.paramCnt + 1 }, a')
    | (false, d', a') => ({ e with rawData := some d' }, a')

/-- The header and the trace information `WritebaseInfo` takes from the process. -/
def setProcess (e : EventBase) (p : Process) : EventBase :=
  { e with
    header := { e.header with
      timeZone := UInt8.ofNat (parseTimeZone p.timezone)
      pid := p.pid
      tid := p.tid
      uid := p.uid
      isTraceOpened := if p.hitraceId.isSome then 1 else e.header.isTraceOpened }
    traceInfo := p.hitraceId.getD e.traceInfo }

/-- The appends of `WritebaseInfo` before the number of parameters. -/
def appendBase (e : EventBase) : Writer :=
  (append (le 4 0)).andThen ((append e.header.toBytes).andThen
    (if e.header.isTraceOpened = 1 then append e.traceInfo.toBytes else done))

/-- `WritebaseInfo`. -/
def writebaseInfo (e : EventBase) (p : Process) (a : Alloc) : EventBase × Alloc :=
  let e := e.setProcess p
  match e.appendBase (RawData.new a) with
  | (false, d, a) => ({ e with retCode := errRawDataWroteException, rawData := some d }, a)
  | (true, d, a) =>
    let e := { e with paramCntWroteOffset := d.len }
    match append (le 4 e.paramCnt) (d, a) with
    | (false, d, a) => ({ e with retCode := errRawDataWroteException, rawData := some d }, a)
    | (true, d, a) => ({ e with rawData := some d }, a)

/-- `GetEventRawData`, which puts the size of the block and the number of parameters in. -/
def getEventRawData (e : EventBase) (a : Alloc) : Option RawData × EventBase × Alloc :=
  match e.rawData with
  | none => (none, e, a)
  | some d =>
    let (_, d, a) := d.update (some (le 4 d.len)) 4 0 a
    let (_, d, a) := d.update (some (le 4 e.paramCnt)) 4 e.paramCntWroteOffset a
    (some d, { e with rawData := some d }, a)

/-! ## The header of a new event -/

/-- What the constructor leaves with valid names : a header with these and nothing else. -/
structure Started (e : EventBase) (domain eventName : Bytes) (type : ℤ) (timeStamp : UInt64) :
    Prop where
  retCode : e.retCode = 0
  paramCnt : e.paramCnt = 0
  domain : e.header.domain.1 =
    domain ++ List.replicate (maxDomainLength + 1 - domain.length) 0
  name : e.header.name.1 =
    eventName ++ List.replicate (maxEventNameLength + 1 - eventName.length) 0
  type : e.header.type = BitVec.ofInt 2 (type - 1)
  timestamp : e.header.timestamp = timeStamp
  id : e.header.id = 0
  isTraceOpened : e.header.isTraceOpened = 0

theorem new_started {k : CharKind} {domain eventName : Bytes}
    (hd : isValidName k domain maxDomainLength = true)
    (hn : isValidName k eventName maxEventNameLength = true) (type : ℤ) (timeStamp : UInt64) :
    (new k domain eventName type timeStamp).Started domain eventName type timeStamp := by
  obtain ⟨dc, hdc, hdcs⟩ := CharArray.copyFrom_zero (n := maxDomainLength + 1)
    (Nat.le_succ_of_le (length_of_isValidName hd).2)
  obtain ⟨nc, hnc, hncs⟩ := CharArray.copyFrom_zero (n := maxEventNameLength + 1)
    (Nat.le_succ_of_le (length_of_isValidName hn).2)
  have hnew : new k domain eventName type timeStamp =
      { header := { HiSysEventHeader.zero with
          domain := dc
          name := nc
          type := BitVec.ofInt 2 (type - 1)
          timestamp := timeStamp } } := by
    simp only [new, hd, hn, HiSysEventHeader.zero, hdc, hnc, Bool.not_true, Bool.false_eq_true,
      if_false]
  rw [hnew]
  exact ⟨rfl, rfl, hdcs, hncs, rfl, rfl, rfl, rfl⟩

/-- The constructor reports an invalid domain first. -/
theorem retCode_new_domain {k : CharKind} {domain : Bytes}
    (hd : isValidName k domain maxDomainLength = false) (eventName : Bytes) (type : ℤ)
    (timeStamp : UInt64) :
    (new k domain eventName type timeStamp).retCode = errDomainNameInvalid := by
  simp only [new, hd, Bool.not_false, if_true]

theorem retCode_new_eventName {k : CharKind} {domain eventName : Bytes}
    (hd : isValidName k domain maxDomainLength = true)
    (hn : isValidName k eventName maxEventNameLength = false) (type : ℤ) (timeStamp : UInt64) :
    (new k domain eventName type timeStamp).retCode = errEventNameInvalid := by
  simp only [new, hd, hn, Bool.not_true, Bool.not_false, Bool.false_eq_true, if_false, if_true]

theorem paramCnt_new (k : CharKind) (domain eventName : Bytes) (type : ℤ) (timeStamp : UInt64) :
    (new k domain eventName type timeStamp).paramCnt = 0 := by
  unfold new
  split_ifs
  · rfl
  · rfl
  · dsimp only
    split
    · rfl
    · split <;> rfl

/-! ## The invariant -/

/-- The trace section the header announces. -/
def trace (e : EventBase) : Option TraceInfo :=
  if e.header.isTraceOpened = 1 then some e.traceInfo else none

/-- The header with its trace section. -/
def base (e : EventBase) : Bytes :=
  EventBlock.encodeBase e.header e.trace

/-- The raw data is the header part between two fields, and the parameters counted. -/
structure Holds (e : EventBase) (params : List Param) : Prop where
  raw : ∃ d size count, e.rawData = some d ∧ d.Valid ∧ size.length = 4 ∧ count.length = 4 ∧
    d.content = size ++ (e.base ++ (count ++ params.flatMap Param.encode))
  paramCnt : e.paramCnt = params.length
  offset : e.paramCntWroteOffset = 4 + e.base.length

/-- The return code is no part of the raw data. -/
theorem Holds.setRetCode {e : EventBase} {params : List Param} (h : e.Holds params) (r : ℤ) :
    Holds { e with retCode := r } params :=
  ⟨h.raw, h.paramCnt, h.offset⟩

/-- The block of an event with these parameters. -/
def block (e : EventBase) (params : List Param) : EventBlock where
  blockSize := (4 + e.base.length + 4 + (params.flatMap Param.encode).length) % 2 ^ 32
  header := e.header
  traceInfo := e.trace
  params := params

theorem isSome_trace (e : EventBase) : e.trace.isSome ↔ e.header.isTraceOpened = 1 := by
  unfold trace
  split_ifs with h
  · exact iff_of_true rfl h
  · exact iff_of_false Bool.false_ne_true h

theorem block_wellFormed (e : EventBase) {params : List Param} (h : params.length < 2 ^ 32) :
    (e.block params).WellFormed :=
  ⟨e.isSome_trace, Nat.mod_lt _ (by decide), h⟩

/-- A new event gets the trace of the process. -/
theorem trace_setProcess {e : EventBase} (h : e.header.isTraceOpened = 0) (p : Process) :
    (e.setProcess p).trace = p.hitraceId := by
  unfold trace setProcess
  cases p.hitraceId with
  | none => simp [h]
  | some t => simp

theorem length_encode_block (e : EventBase) (params : List Param) :
    (e.block params).encode.length =
      4 + e.base.length + 4 + (params.flatMap Param.encode).length := by
  simp only [EventBlock.encode, block, base, List.length_append, length_le]
  omega

/-! ## The header part -/

theorem appendBase_eq (e : EventBase) : e.appendBase = appendAll
    ([le 4 0, e.header.toBytes] ++ (e.trace.map TraceInfo.toBytes).toList) := by
  unfold appendBase trace
  split_ifs
  · simp only [Option.map_some, Option.toList_some, List.cons_append, List.nil_append, appendAll,
      andThen_done]
  · rfl

theorem flatten_basePieces (e : EventBase) :
    ([le 4 0, e.header.toBytes] ++ (e.trace.map TraceInfo.toBytes).toList).flatten =
      le 4 0 ++ e.base := by
  unfold base EventBlock.encodeBase
  cases e.trace <;> simp

/-- Without a buffer the first append already fails. -/
theorem appendBase_unallocated (e : EventBase) (a : Alloc) :
    e.appendBase ({}, a) = (false, {}, a) := by
  rfl

/-- The header part is written whole, or the error is reported. -/
theorem appendBase_new {e : EventBase} {a : Alloc} {d : RawData} {a' : Alloc}
    (h : e.appendBase (RawData.new a) = (true, d, a')) :
    d.Valid ∧ d.content = le 4 0 ++ e.base := by
  cases ha : a.next with
  | false =>
    have hnew : RawData.new a = ({}, a.drop 1) := by simp [RawData.new, ha]
    rw [hnew, appendBase_unallocated] at h
    cases h
  | true =>
    obtain ⟨hv, hcont, -⟩ := RawData.valid_new ha
    rw [appendBase_eq] at h
    obtain ⟨hv', hcont'⟩ := appendAll_true hv h
    exact ⟨hv', by rw [hcont', hcont, List.nil_append, flatten_basePieces]⟩

/-- `writebaseInfo` reports an error or establishes the invariant. -/
theorem writebaseInfo_cases {e : EventBase} (hcnt : e.paramCnt = 0) (p : Process) (a : Alloc) :
    (e.writebaseInfo p a).1.retCode = errRawDataWroteException ∨
      ∃ d offset, (e.writebaseInfo p a).1 =
          { e.setProcess p with paramCntWroteOffset := offset, rawData := some d } ∧
        (e.writebaseInfo p a).1.Holds [] := by
  rcases hbase : (e.setProcess p).appendBase (RawData.new a) with ⟨_ | _, d, a₁⟩
  · simp only [writebaseInfo, hbase, true_or]
  obtain ⟨hv, hcont⟩ := appendBase_new hbase
  have hlen : d.len = 4 + (e.setProcess p).base.length := by
    rw [← hv.length_content, hcont, List.length_append, length_le]
  rcases hcount : append (le 4 e.paramCnt) (d, a₁) with ⟨_ | _, d', a₂⟩
  · have : (e.setProcess p).paramCnt = e.paramCnt := rfl
    simp only [writebaseInfo, hbase, this, hcount, true_or]
  rw [← appendAll_singleton] at hcount
  obtain ⟨hv', hcont'⟩ := appendAll_true hv hcount
  rw [appendAll_singleton] at hcount
  have hw : (e.writebaseInfo p a).1 =
      { e.setProcess p with paramCntWroteOffset := d.len, rawData := some d' } := by
    have : (e.setProcess p).paramCnt = e.paramCnt := rfl
    simp only [writebaseInfo, hbase, this, hcount]
  refine Or.inr ⟨d', d.len, hw, hw ▸ ⟨⟨d', le 4 0, le 4 e.paramCnt, rfl, hv', ?_, ?_, ?_⟩, ?_, ?_⟩⟩
  · exact length_le _ _
  · exact length_le _ _
  · rw [hcont', hcont]
    simp [base, trace]
  · exact hcnt
  · exact hlen

/-- Without an error an event after `writebaseInfo` satisfies the invariant. -/
theorem writebaseInfo_holds {k : CharKind} {domain eventName : Bytes} {type : ℤ}
    {timeStamp : UInt64} {p : Process} {a : Alloc}
    (h : 0 ≤ ((new k domain eventName type timeStamp).writebaseInfo p a).1.retCode) :
    ((new k domain eventName type timeStamp).writebaseInfo p a).1.Holds [] := by
  rcases writebaseInfo_cases (paramCnt_new k domain eventName type timeStamp) p a with
    herr | ⟨d, offset, -, hholds⟩
  · rw [herr] at h
    exact absurd h (by decide)
  · exact hholds

/-- With every allocation granted `writebaseInfo` reports no error. -/
theorem writebaseInfo_always (e : EventBase) (p : Process) :
    (e.writebaseInfo p Alloc.always).2 = Alloc.always ∧
      (e.writebaseInfo p Alloc.always).1.retCode = e.retCode := by
  obtain ⟨hv, -, -⟩ := RawData.valid_new Alloc.next_always
  have hnew : RawData.new Alloc.always = ((RawData.new Alloc.always).1, Alloc.always) := rfl
  obtain ⟨d, hbase, hv', -⟩ := appendAll_granted
    ([le 4 0, (e.setProcess p).header.toBytes] ++
      ((e.setProcess p).trace.map TraceInfo.toBytes).toList) hv (granted_always _)
  rw [← appendBase_eq, ← hnew, Alloc.drop_always] at hbase
  obtain ⟨d', hcount, -⟩ := appendAll_granted [le 4 e.paramCnt] hv' (granted_always _)
  rw [appendAll_singleton, Alloc.drop_always] at hcount
  have : (e.setProcess p).paramCnt = e.paramCnt := rfl
  simp only [writebaseInfo, hbase, this, hcount]
  exact ⟨trivial, rfl⟩

/-! ## Parameters -/

/-- An append with its allocations granted adds the parameter and counts it. -/
theorem appendParam_granted {e : EventBase} {params : List Param} (h : e.Holds params)
    {d : RawData} (hd : e.rawData = some d) (param : EncodedParam) {a : Alloc}
    (hg : Granted a (growths d.len d.capacity param.pieces)) :
    ∃ d', e.appendParam param a =
        ({ e with rawData := some d', paramCnt := e.paramCnt + 1 },
          a.drop (growths d.len d.capacity param.pieces)) ∧
      (e.appendParam param a).1.Holds (params ++ [param.toParam]) := by
  obtain ⟨d₀, size, count, hd₀, hv, hsize, hcount, hcont⟩ := h.raw
  obtain rfl : d = d₀ := by simpa [hd] using hd₀
  obtain ⟨d', happ, hv', hcont'⟩ := appendAll_granted param.pieces hv hg
  rw [← param.encode_eq] at happ
  have heq : e.appendParam param a =
      ({ e with rawData := some d', paramCnt := e.paramCnt + 1 },
        a.drop (growths d.len d.capacity param.pieces)) := by
    simp only [appendParam, hd, happ]
  refine ⟨d', heq, heq ▸ ⟨⟨d', size, count, rfl, hv', hsize, hcount, ?_⟩, ?_, h.offset⟩⟩
  · rw [hcont', hcont, param.flatten_pieces]
    simp [base, trace]
  · simp [h.paramCnt]

/-! ## The finished block -/

/-- Writing a field of four bytes over an old one. -/
theorem update_field {d : RawData} (hv : d.Valid) (pre old post : Bytes) (n : ℕ)
    (hcont : d.content = pre ++ old ++ post) (hold : old.length = 4) (a : Alloc) :
    ∃ d', d.update (some (le 4 n)) 4 pre.length a = (true, d', a) ∧ d'.Valid ∧ d'.len = d.len ∧
      d'.content = pre ++ le 4 n ++ post := by
  have hlen := hv.length_content
  have hcap := hv.len_le
  rw [hcont, List.length_append, List.length_append, hold] at hlen
  obtain ⟨d', hup, hv', -, hcont'⟩ := RawData.update_fits hv (le 4 n)
    (show pre.length ≤ d.len by omega) (by rw [length_le]; omega) a
  rw [length_le] at hup
  have hover : d'.content = pre ++ le 4 n ++ post := by
    rw [hcont', hcont, overwrite_append (by rw [hold, length_le])]
  refine ⟨d', hup, hv', ?_, hover⟩
  rw [← hv'.length_content, hover]
  simp only [List.length_append, length_le]
  omega

/-- The finished raw data is the block of the parameters held. -/
theorem getEventRawData_holds {e : EventBase} {params : List Param} (h : e.Holds params)
    (a : Alloc) :
    ∃ d, e.getEventRawData a = (some d, { e with rawData := some d }, a) ∧ d.Valid ∧
      d.content = (e.block params).encode ∧
      (e.getEventRawData a).2.1.Holds params := by
  obtain ⟨d, size, count, hd, hv, hsize, hcount, hcont⟩ := h.raw
  have hlen : d.len = 4 + e.base.length + 4 + (params.flatMap Param.encode).length := by
    rw [← hv.length_content, hcont]
    simp only [List.length_append]
    omega
  obtain ⟨d₁, hup₁, hv₁, hlen₁, hcont₁⟩ := update_field hv [] _ _ d.len
    (by rw [hcont, List.nil_append]) hsize a
  obtain ⟨d₂, hup₂, hv₂, -, hcont₂⟩ := update_field hv₁ (le 4 d.len ++ e.base) count
    (params.flatMap Param.encode) e.paramCnt
    (by rw [hcont₁]; simp) hcount a
  have hpre : (le 4 d.len ++ e.base).length = e.paramCntWroteOffset := by
    rw [List.length_append, length_le, h.offset]
  rw [hpre] at hup₂
  rw [List.length_nil] at hup₁
  have heq : e.getEventRawData a = (some d₂, { e with rawData := some d₂ }, a) := by
    simp only [getEventRawData, hd, hup₁, hup₂]
  refine ⟨d₂, heq, hv₂, ?_, heq ▸ ⟨⟨d₂, le 4 d.len, le 4 e.paramCnt, rfl, hv₂, ?_, ?_, ?_⟩,
    h.paramCnt, h.offset⟩⟩
  · have hmod := le_mod 4 d.len
    rw [show 256 ^ 4 = 2 ^ 32 from rfl, hlen] at hmod
    rw [hcont₂, hlen, ← hmod, h.paramCnt]
    simp only [EventBlock.encode, block, base, List.append_assoc]
  · exact length_le _ _
  · exact length_le _ _
  · rw [hcont₂]
    simp [base, trace]

end EventBase

end HiSysEvent
