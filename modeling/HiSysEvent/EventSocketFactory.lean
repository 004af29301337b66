import HiSysEvent.AppendParams
import HiSysEvent.InnerWrite
import HiSysEvent.Transport

/-!
# The socket of an event

`GetEventSocket` reads the domain, the name and the type back from the bytes of a block and
sends the events of higher priority to a socket of their own.

The header is written by `WritebaseInfo`, and no later step touches it : parameters are
appended behind it, whole or in part, and `GetEventRawData` writes the size in front of it
and the count behind it (`Carries`). So the choice is the one for the arguments the event
was built with, for the block and for every copy of it (`getEventSocket_spec`).
-/

namespace HiSysEvent

open Wire Writer Run StringFilter

/-! ## Definitions -/

/-- The bytes of an ASCII text. -/
def ascii (s : String) : Bytes :=
  s.toList.map fun c => UInt8.ofNat c.toNat

/-- The two addresses. -/
inductive EventSocket
  | normalAddr
  | higherPriorityAddr
  deriving DecidableEq

namespace EventSocketFactory

/-- `HiSysEvent::EventType::FAULT`. -/
abbrev fault : ℤ := 1

/-- The name is listed. -/
def isHigherPriorityEventName (events : List Bytes) (name : Bytes) : Bool :=
  events.contains name

/-- The listed events of the domain `AAFWK`. -/
def isHigherPriorityAafwkEvent (name : Bytes) : Bool :=
  isHigherPriorityEventName (["APP_INPUT_BLOCK", "BUSSINESS_THREAD_BLOCK_3S",
    "BUSSINESS_THREAD_BLOCK_6S", "LIFECYCLE_HALF_TIMEOUT", "LIFECYCLE_TIMEOUT",
    "THREAD_BLOCK_3S", "THREAD_BLOCK_6S"].map ascii) name

/-- The listed events of the domain `ACE`. -/
def isHigerPriorityAceEvent (name : Bytes) : Bool :=
  isHigherPriorityEventName (["UI_BLOCK_3S", "UI_BLOCK_6S", "UI_BLOCK_RECOVERED"].map ascii) name

/-- The listed events of the domain `FRAMEWORK`. -/
def isHigerPriorityFrameworkEvent (name : Bytes) : Bool :=
  isHigherPriorityEventName (["IPC_FULL", "IPC_FULL_WARNING", "SERVICE_BLOCK",
    "SERVICE_TIMEOUT", "SERVICE_WARNING"].map ascii) name

/-- `IsHigherPriorityEvent`, by the domain. -/
def isHigherPriorityEvent (domain name : Bytes) (type : ℤ) : Bool :=
  if domain = ascii "AAFWK" then isHigherPriorityAafwkEvent name
  else if domain = ascii "ACE" then isHigerPriorityAceEvent name
  else if domain = ascii "FRAMEWORK" then isHigerPriorityFrameworkEvent name
  else if domain = ascii "RELIABILITY" then type == fault
  else if domain = ascii "GRAPHIC" then name == ascii "NO_DRAW"
  else if domain = ascii "MULTIMODALINPUT" then name == ascii "TARGET_POINTER_EVENT_FAILURE"
  else if domain = ascii "POWER" then name == ascii "SCREEN_ON_TIMEOUT"
  else if domain = ascii "WINDOWMANAGER" then name == ascii "NO_FOCUS_WINDOW"
  else if domain = ascii "SCHEDULE_EXT" then name == ascii "SYSTEM_LOAD_LEVEL_CHANGED"
  else false

/-- `std::string` of a character array of the header that starts at `off`. Without a terminator it
runs on into the next field. -/
def headerString (header : HiSysEventHeader) (off : ℕ) : Bytes :=
  cString (header.toBytes.drop off)

/-- `ParseEventInfo`. A block too short for a header leaves the three as they are. -/
def parseEventInfo (d : RawData) (domain name : Bytes) (type : ℤ) : Bytes × Bytes × ℤ :=
  if d.len < 4 + HiSysEventHeader.size then (domain, name, type)
  else
    match HiSysEventHeader.read.run ((d.data.getD []).drop 4) with
    | none => (domain, name, type)
    | some (header, _) =>
      (headerString header 0, headerString header (maxDomainLength + 1), header.type.toNat + 1)

/-- `GetEventSocket`, by the header of the block. -/
def getEventSocket (d : RawData) : EventSocket :=
  let info := parseEventInfo d [] [] fault
  if isHigherPriorityEvent info.1 info.2.1 info.2.2 then .higherPriorityAddr else .normalAddr

/-! ## Copies -/

/-- A copy of a copy, with every allocation granted. -/
inductive CopyOf (d : RawData) : RawData → Prop
  | refl : CopyOf d d
  | copy {d' : RawData} {a : Alloc} (h : CopyOf d d') (ha : a.next = true) :
    CopyOf d (d'.copy a).1

theorem CopyOf.spec {d d' : RawData} (hv : d.Valid) (h : CopyOf d d') :
    d'.Valid ∧ d'.content = d.content := by
  induction h with
  | refl => exact ⟨hv, rfl⟩
  | copy h ha ih =>
    obtain ⟨hv', hcont⟩ := RawData.copy_spec ih.1 ha
    exact ⟨hv', hcont.trans ih.2⟩

/-- The queue keeps a copy of a block. -/
theorem copyOf_addFailedData (d : RawData) {t : Transport} (ha : t.alloc.next = true) :
    ∃ q d', (t.addFailedData d).retryDataList = q ++ [d'] ∧ CopyOf d d' :=
  ⟨_, _, rfl, .copy .refl ha⟩

/-! ## The header in the block -/

/-- Raw data with a header behind the size field. -/
structure Headed (d : RawData) (header : HiSysEventHeader) : Prop where
  valid : d.Valid
  content : ∃ size rest, size.length = 4 ∧ d.content = size ++ (header.toBytes ++ rest)

/-- The event holds a header, and the count field behind it. -/
structure Carries (e : EventBase) (header : HiSysEventHeader) : Prop where
  raw : ∃ d, e.rawData = some d ∧ Headed d header ∧ e.paramCntWroteOffset + 4 ≤ d.len
  offset : 4 + HiSysEventHeader.size ≤ e.paramCntWroteOffset

theorem Carries.setRetCode {e : EventBase} {header : HiSysEventHeader} (h : Carries e header)
    (r : ℤ) : Carries { e with retCode := r } header :=
  ⟨h.raw, h.offset⟩

theorem Headed.len_le {d : RawData} {header : HiSysEventHeader} (h : Headed d header) :
    4 + HiSysEventHeader.size ≤ d.len := by
  obtain ⟨size, rest, hsize, hcont⟩ := h.content
  rw [← h.valid.length_content, hcont, List.length_append, List.length_append, hsize,
    HiSysEventHeader.length_toBytes]
  omega

/-- The base information carries the header. -/
theorem carries_of_holds {e : EventBase} (h : e.Holds []) : Carries e e.header := by
  obtain ⟨d, size, count, hd, hv, hsize, hcount, hcont⟩ := h.raw
  have hbase : HiSysEventHeader.size ≤ e.base.length := by
    simp [EventBase.base, EventBlock.encodeBase]
  have hlen := congrArg List.length hcont
  simp only [List.length_append, hv.length_content, hsize, hcount, List.flatMap_nil,
    List.length_nil] at hlen
  refine ⟨⟨d, hd, ⟨hv, size, (e.trace.map TraceInfo.toBytes).getD [] ++ count, hsize, ?_⟩, ?_⟩, ?_⟩
  · rw [hcont, EventBase.base, EventBlock.encodeBase]
    cases e.trace <;> simp
  · rw [h.offset]
    omega
  · rw [h.offset]
    omega

/-- An event whose base information is written carries the header it was given. -/
theorem carries_writebaseInfo {k : CharKind} {domain eventName : Bytes} {type : ℤ}
    {timeStamp : UInt64} {p : Process} {a : Alloc}
    (h : 0 ≤ ((EventBase.new k domain eventName type timeStamp).writebaseInfo p a).1.retCode) :
    Carries ((EventBase.new k domain eventName type timeStamp).writebaseInfo p a).1
      ((EventBase.new k domain eventName type timeStamp).setProcess p).header := by
  rcases EventBase.writebaseInfo_cases (EventBase.paramCnt_new k domain eventName type timeStamp)
    p a with herr | ⟨d, offset, hw, hholds⟩
  · rw [herr] at h
    exact absurd h (by decide)
  · have hheader : ((EventBase.new k domain eventName type timeStamp).setProcess p).header =
        ((EventBase.new k domain eventName type timeStamp).writebaseInfo p a).1.header := by rw [hw]
    rw [hheader]
    exact carries_of_holds hholds

/-- Appending, in whole or in part, is behind the header. -/
theorem headed_append {d d' : RawData} {header : HiSysEventHeader} (h : Headed d header)
    (hv : d'.Valid) {bs : Bytes} (hcont : d'.content = d.content ++ bs) :
    Headed d' header ∧ d.len ≤ d'.len := by
  obtain ⟨size, rest, hsize, hd⟩ := h.content
  refine ⟨⟨hv, size, rest ++ bs, hsize, by rw [hcont, hd]; simp⟩, ?_⟩
  rw [← h.valid.length_content, ← hv.length_content, hcont, List.length_append]
  exact Nat.le_add_right _ _

/-- An encoding appends, whatever the allocations. -/
theorem encode_appends (param : EncodedParam) {d : RawData} (hv : d.Valid) (a : Alloc) :
    (param.encode (d, a)).2.1.Valid ∧
      ∃ bs, (param.encode (d, a)).2.1.content = d.content ++ bs := by
  rw [param.encode_eq]
  by_cases hg : Granted a (growths d.len d.capacity param.pieces)
  · obtain ⟨d', happ, hv', hcont⟩ := appendAll_granted param.pieces hv hg
    rw [happ]
    exact ⟨hv', _, hcont⟩
  · obtain ⟨d', a', happ, hv', k, hcont, -⟩ := appendAll_refused param.pieces hv hg
    rw [happ]
    exact ⟨hv', _, hcont⟩

theorem rawData_appendStep {s : EventBase × Alloc} {d : RawData} (hd : s.1.rawData = some d)
    (param : EncodedParam) :
    (EventBase.appendStep s param).1.rawData = some (param.encode (d, s.2)).2.1 ∧
      (EventBase.appendStep s param).1.paramCntWroteOffset = s.1.paramCntWroteOffset := by
  simp only [EventBase.appendStep, EventBase.appendParam, hd]
  rcases param.encode (d, s.2) with ⟨_ | _, d', a'⟩ <;> exact ⟨rfl, rfl⟩

theorem carries_appendStep {s : EventBase × Alloc} {header : HiSysEventHeader}
    (h : Carries s.1 header) (param : EncodedParam) :
    Carries (EventBase.appendStep s param).1 header := by
  obtain ⟨d, hd, hhead, hoff⟩ := h.raw
  obtain ⟨hraw, hoffset⟩ := rawData_appendStep hd param
  obtain ⟨hv, bs, hcont⟩ := encode_appends param hhead.valid s.2
  obtain ⟨hhead', hlen⟩ := headed_append hhead hv hcont
  exact ⟨⟨_, hraw, hhead', by rw [hoffset]; omega⟩, by rw [hoffset]; exact h.offset⟩

theorem carries_exec {header : HiSysEventHeader} (params : List EncodedParam)
    {s : EventBase × Alloc} (h : Carries s.1 header) :
    Carries (exec EventBase.appendStep s params).1 header :=
  exec_of_invariant (I := fun s : EventBase × Alloc => Carries s.1 header)
    (fun _ param hs => carries_appendStep hs param) params h

/-! ## The finished block -/

/-- The size is written in front of the header. -/
theorem headed_updateSize {d : RawData} {header : HiSysEventHeader} (h : Headed d header)
    (n : ℕ) (a : Alloc) :
    ∃ d', d.update (some (le 4 n)) 4 0 a = (true, d', a) ∧ Headed d' header ∧ d'.len = d.len := by
  obtain ⟨size, rest, hsize, hcont⟩ := h.content
  obtain ⟨d', hup, hv', hlen, hcont'⟩ := EventBase.update_field h.valid [] size
    (header.toBytes ++ rest) n (by rw [hcont, List.nil_append]) hsize a
  exact ⟨d', hup, ⟨hv', le 4 n, rest, length_le 4 n, by rw [hcont', List.nil_append]⟩, hlen⟩

/-- The count is written behind the header. -/
theorem headed_updateCount {d : RawData} {header : HiSysEventHeader} (h : Headed d header)
    {off : ℕ} (hoff : 4 + HiSysEventHeader.size ≤ off) (hlen : off + 4 ≤ d.len) (n : ℕ)
    (a : Alloc) :
    ∃ d', d.update (some (le 4 n)) 4 off a = (true, d', a) ∧ Headed d' header ∧
      d'.len = d.len := by
  obtain ⟨size, rest, hsize, hcont⟩ := h.content
  have hcontlen : d.content.length = d.len := h.valid.length_content
  have hpre : (d.content.take off).length = off := by
    rw [List.length_take, hcontlen]
    omega
  have hold : ((d.content.drop off).take 4).length = 4 := by
    rw [List.length_take, List.length_drop, hcontlen]
    omega
  have hsplit : d.content =
      d.content.take off ++ (d.content.drop off).take 4 ++ d.content.drop (off + 4) := by
    rw [List.append_assoc, ← List.drop_drop, List.take_append_drop, List.take_append_drop]
  obtain ⟨d', hup, hv', hlen', hcont'⟩ := EventBase.update_field h.valid _ _ _ n hsplit hold a
  rw [hpre] at hup
  have htake : d.content.take off = size ++ (header.toBytes ++ rest.take (off - 84)) := by
    rw [hcont, List.take_append, List.take_append, hsize, HiSysEventHeader.length_toBytes,
      List.take_of_length_le (by omega), List.take_of_length_le (by simp; omega)]
    congr 3
  have hcont'' : d'.content = size ++ (header.toBytes ++
      (rest.take (off - 84) ++ (le 4 n ++ d.content.drop (off + 4)))) := by
    rw [hcont', htake]
    simp only [List.append_assoc]
  exact ⟨d', hup, ⟨hv', size, _, hsize, hcont''⟩, hlen'⟩

/-- `GetEventRawData` returns raw data with the header, and can be called again. -/
theorem carries_getEventRawData {e : EventBase} {header : HiSysEventHeader} (h : Carries e header)
    (a : Alloc) :
    ∃ d, e.getEventRawData a = (some d, { e with rawData := some d }, a) ∧ Headed d header ∧
      Carries { e with rawData := some d } header := by
  obtain ⟨d, hd, hhead, hoff⟩ := h.raw
  obtain ⟨d₁, hup₁, hhead₁, hlen₁⟩ := headed_updateSize hhead d.len a
  obtain ⟨d₂, hup₂, hhead₂, hlen₂⟩ :=
    headed_updateCount hhead₁ h.offset (by rw [hlen₁]; exact hoff) e.paramCnt a
  have heq : e.getEventRawData a = (some d₂, { e with rawData := some d₂ }, a) := by
    simp only [EventBase.getEventRawData, hd, hup₁, hup₂]
  exact ⟨d₂, heq, hhead₂, ⟨d₂, rfl, hhead₂, by rw [hlen₂, hlen₁]; exact hoff⟩, h.offset⟩

/-! ## Reading it back -/

theorem cString_append {s t : Bytes} (h : 0 ∉ s) (n : ℕ) :
    cString (s ++ List.replicate (n + 1) 0 ++ t) = s := by
  unfold cString
  rw [List.append_assoc, List.takeWhile_append_of_pos fun b hb => by
    simpa using fun h0 : b = 0 => h (h0 ▸ hb)]
  simp [List.replicate_succ]

theorem parseEventInfo_headed {d : RawData} {header : HiSysEventHeader} (h : Headed d header)
    (domain name : Bytes) (type : ℤ) :
    parseEventInfo d domain name type =
      (headerString header 0, headerString header (maxDomainLength + 1),
        (header.type.toNat : ℤ) + 1) := by
  obtain ⟨size, rest, hsize, hcont⟩ := h.content
  obtain ⟨buf, hbuf, hcap⟩ := h.valid.buffer
  have hbytes : buf = size ++ (header.toBytes ++ (rest ++ buf.drop d.len)) := by
    have htake : buf.take d.len = size ++ (header.toBytes ++ rest) := by
      rw [← hcont, RawData.content, hbuf, Option.getD_some]
    conv_lhs => rw [← List.take_append_drop d.len buf, htake]
    simp only [List.append_assoc]
  have hread : HiSysEventHeader.read.run ((d.data.getD []).drop 4) =
      some (header, rest ++ buf.drop d.len) := by
    rw [hbuf, Option.getD_some, hbytes, List.drop_left' hsize, ← hbytes]
    exact HiSysEventHeader.reads_read header _
  rw [parseEventInfo, if_neg (by have := h.len_le; omega), hread]

/-- The strings of the header are the names it was filled with. -/
theorem headerString_started {e : EventBase} {domain eventName : Bytes} {type : ℤ}
    {timeStamp : UInt64} (h : e.Started domain eventName type timeStamp) (hd : 0 ∉ domain)
    (hdlen : domain.length ≤ maxDomainLength) (hn : 0 ∉ eventName)
    (hnlen : eventName.length ≤ maxEventNameLength) {header : HiSysEventHeader}
    (hdomain : header.domain = e.header.domain) (hname : header.name = e.header.name) :
    headerString header 0 = domain ∧
      headerString header (maxDomainLength + 1) = eventName := by
  have hdpad : maxDomainLength + 1 - domain.length = (maxDomainLength - domain.length) + 1 := by
    omega
  have hnpad : maxEventNameLength + 1 - eventName.length =
      (maxEventNameLength - eventName.length) + 1 := by
    omega
  constructor
  · rw [headerString, List.drop_zero, HiSysEventHeader.toBytes, hdomain, h.domain, hdpad]
    exact cString_append hd _
  · rw [headerString, HiSysEventHeader.toBytes, List.drop_left' header.domain.2, hname, h.name,
      hnpad]
    exact cString_append hn _

/-- The arguments of an event are read back from its block and from every copy of it, however often
the block is finished, whatever parameters were appended and whatever became of their
allocations. So the socket is the one for these arguments. -/
theorem getEventSocket_spec {k : CharKind} {domain eventName : Bytes}
    (hd : isValidName k domain maxDomainLength = true)
    (hn : isValidName k eventName maxEventNameLength = true) {type : ℤ} (h1 : 1 ≤ type)
    (h4 : type ≤ 4) (timeStamp : UInt64) (p : Process) (a : Alloc)
    (h : 0 ≤ ((EventBase.new k domain eventName type timeStamp).writebaseInfo p a).1.retCode)
    (params : List EncodedParam) (a' : Alloc) :
    let e := (exec EventBase.appendStep
      ((EventBase.new k domain eventName type timeStamp).writebaseInfo p a) params).1
    ∃ d₁ d₂, (e.getEventRawData a').1 = some d₁ ∧
      ((e.getEventRawData a').2.1.getEventRawData (e.getEventRawData a').2.2).1 = some d₂ ∧
      (∀ d, CopyOf d₁ d ∨ CopyOf d₂ d →
        (∀ domain' name' type', parseEventInfo d domain' name' type' = (domain, eventName, type)) ∧
        (getEventSocket d = .higherPriorityAddr ↔
          isHigherPriorityEvent domain eventName type = true)) ∧
      ∀ t : Transport, t.alloc.next = true →
        ∃ q d, (t.addFailedData d₂).retryDataList = q ++ [d] ∧ CopyOf d₂ d := by
  intro e
  have hst := EventBase.new_started hd hn type timeStamp
  obtain ⟨header, hhd, hbase⟩ : ∃ header,
      header = ((EventBase.new k domain eventName type timeStamp).setProcess p).header ∧
      Carries ((EventBase.new k domain eventName type timeStamp).writebaseInfo p a).1 header :=
    ⟨_, rfl, carries_writebaseInfo h⟩
  obtain ⟨d₁, hget₁, hhead₁, hcarries⟩ := carries_getEventRawData (carries_exec params hbase) a'
  obtain ⟨d₂, hget₂, hhead₂, -⟩ := carries_getEventRawData hcarries a'
  obtain ⟨hdomain, hname⟩ := headerString_started hst (not_mem_zero_of_isValidName hd)
    (length_of_isValidName hd).2 (not_mem_zero_of_isValidName hn) (length_of_isValidName hn).2
    (show header.domain = _ by rw [hhd]; rfl) (show header.name = _ by rw [hhd]; rfl)
  have htype : (header.type.toNat : ℤ) + 1 = type := by
    have : header.type = BitVec.ofInt 2 (type - 1) := by rw [hhd]; exact hst.type
    rw [this, BitVec.toNat_ofInt]
    omega
  have hinfo : ∀ {d : RawData}, Headed d header → ∀ domain' name' type',
      parseEventInfo d domain' name' type' = (domain, eventName, type) := by
    intro d hhead domain' name' type'
    rw [parseEventInfo_headed hhead, hdomain, hname, htype]
  have hcopy : ∀ {d d' : RawData}, Headed d header → CopyOf d d' → Headed d' header := by
    intro d d' hhead hd'
    obtain ⟨hv, hcont⟩ := hd'.spec hhead.valid
    exact ⟨hv, by rw [hcont]; exact hhead.content⟩
  refine ⟨d₁, d₂, by rw [hget₁], by rw [hget₁, hget₂], ?_, fun t ht => copyOf_addFailedData d₂ ht⟩
  intro d hd'
  have hhead : Headed d header := hd'.elim (hcopy hhead₁) (hcopy hhead₂)
  refine ⟨hinfo hhead, ?_⟩
  simp only [getEventSocket, hinfo hhead]
  split_ifs with hhigh
  · exact iff_of_true rfl hhigh
  · exact iff_of_false (by decide) hhigh

/-- A fault of `RELIABILITY` with a parameter the buffer grows for, read from a copy. -/
theorem getEventSocket_spec_reliability :
    let e := (exec EventBase.appendStep ((EventBase.new .signed (ascii "RELIABILITY") [65] 1
      7).writebaseInfo ⟨0, 1, 2, 3, none⟩ Alloc.always)
      [stringEncodedParam [67] (List.replicate 60 68)]).1
    e.paramCnt = 1 ∧ ∃ d₁ d₂, (e.getEventRawData Alloc.always).1 = some d₁ ∧ CopyOf d₁ d₂ ∧
      parseEventInfo d₂ [] [] 0 = (ascii "RELIABILITY", [65], 1) ∧
      getEventSocket d₂ = .higherPriorityAddr := by
  have hret : 0 ≤ ((EventBase.new .signed (ascii "RELIABILITY") [65] 1 7).writebaseInfo
      ⟨0, 1, 2, 3, none⟩ Alloc.always).1.retCode := by
    decide
  obtain ⟨d₁, d₂, hget, -, hspec, -⟩ := @getEventSocket_spec .signed (ascii "RELIABILITY") [65]
    (by decide) (by decide) 1 (by decide) (by decide) 7 ⟨0, 1, 2, 3, none⟩ Alloc.always hret
    [stringEncodedParam [67] (List.replicate 60 68)] Alloc.always
  have hcopy : CopyOf d₁ (d₁.copy Alloc.always).1 := .copy .refl rfl
  obtain ⟨hparse, hsocket⟩ := hspec _ (Or.inl hcopy)
  exact ⟨by decide +kernel, d₁, _, hget, hcopy, hparse _ _ _, hsocket.2 (by decide)⟩

end EventSocketFactory

end HiSysEvent
