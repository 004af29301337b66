import HiSysEvent.EasyWriter
import HiSysEvent.EventSocketFactory
import HiSysEvent.ReturnCode

/-!
# The type of an event

The type is an `int` that the writers narrow to the two bits of the header. A block leaves a
write for the socket, or for the queue of the blocks whose sends failed, from where a later
write hands it over (`PutsOut`). Its header is the one the event was built with, whatever
became of the allocations (`writeEvent_putsOut`).

`HiSysEvent` stores `type - 1` unchecked, so a type out of range is sent as the one it is
congruent to. The easy writer checks the type, but the check takes a `uint8_t`.
-/

namespace HiSysEvent

open Wire StringFilter EventSocketFactory

/-! ## Definitions -/

/-- A send hands over a block of its own, behind those its retries took from the queue. -/
def HandsOver (t t' : Transport) (block : Bytes) : Prop :=
  ∃ xs, t'.source.handed = t.source.handed ++ xs ++ [block] ∧
    xs.length + t.retrySendFailedData.retryDataList.length = t.retryDataList.length

/-- A write whose send failed leaves its block at the end of the queue. If the copy was refused,
what is there has no bytes. -/
def Queues (t' : Transport) (retCode : ℤ) (block : Bytes) : Prop :=
  (retCode = errDoesNotInit ∨ retCode = errSendFail) ∧ block ≠ [] ∧
    ∃ q d, t'.retryDataList = q ++ [d] ∧ d.content = block

/-- The block leaves a write, for the socket or for the queue that later writes hand over. -/
def PutsOut (t t' : Transport) (retCode : ℤ) (block : Bytes) : Prop :=
  HandsOver t t' block ∨ Queues t' retCode block

/-- The header of the block has this event type. -/
def HasType (block : Bytes) (type : ℤ) : Prop :=
  ∃ header rest, HiSysEventHeader.read.run (block.drop 4) = some (header, rest) ∧
    (header.type.toNat : ℤ) + 1 = type

/-- A type of the enumeration. -/
abbrev InRange (type : ℤ) : Prop :=
  1 ≤ type ∧ type ≤ 4

/-- An event goes out under its type only, and not at all with a type out of range. -/
structure SentAs (type : ℤ) (putsOut : Bytes → Prop) (retCode : ℤ) : Prop where
  typed : ∀ block, putsOut block → HasType block type
  refused : ¬InRange type → retCode < 0 ∧ ∀ block, ¬putsOut block

theorem HasType.unique {block : Bytes} {type type' : ℤ} (h : HasType block type)
    (h' : HasType block type') : type = type' := by
  obtain ⟨header, rest, hread, rfl⟩ := h
  obtain ⟨header', rest', hread', rfl⟩ := h'
  rw [hread, Option.some.injEq, Prod.mk.injEq] at hread'
  rw [hread'.1]

theorem hasType_of_header {size rest : Bytes} (hsize : size.length = 4)
    (header : HiSysEventHeader) :
    HasType (size ++ (header.toBytes ++ rest)) (header.type.toNat + 1) :=
  ⟨header, rest, by rw [List.drop_left' hsize]; exact HiSysEventHeader.reads_read header rest, rfl⟩

/-! ## What a send hands over -/

namespace Transport

/-- How far the retries get depends on the outcomes of the sends only. -/
theorem retryDataList_retryLoop : ∀ (q : List RawData) {src src' : DataSource} (a a' : Alloc),
    src.results = src'.results →
      (retryLoop q src a).retryDataList = (retryLoop q src' a').retryDataList
  | [], _, _, _, _, _ => rfl
  | d :: q, src, src', a, a', h => by
    rcases send_cases (d.copy a).1 src with ⟨h0, hs⟩ | ⟨r, hr, h0, hs⟩
    · rcases send_cases (d.copy a').1 src' with ⟨-, hs'⟩ | ⟨r', hr', h0', -⟩
      · simp only [retryLoop, hs, hs', ne_eq, not_true_eq_false, if_false]
        refine retryDataList_retryLoop q _ _ ?_
        simp only [DataSource.hand, DataSource.drop, h]
      · exact absurd (by rw [← h0', ← h, h0]) hr'
    · rcases send_cases (d.copy a').1 src' with ⟨h0', -⟩ | ⟨r', hr', -, hs'⟩
      · exact absurd (by rw [← h0, h, h0']) hr
      · simp only [retryLoop, hs, hs', ne_eq, code_ne_success hr, code_ne_success hr',
          not_false_eq_true, if_true]

/-- Where no copy is refused, none is refused later. -/
theorem alloc_retryLoop : ∀ (q : List RawData) (src : DataSource) {a : Alloc}, a = Alloc.always →
    (retryLoop q src a).alloc = Alloc.always
  | [], _, _, h => h
  | d :: q, src, _, rfl => by
    have hcopy : (d.copy Alloc.always).2 = Alloc.always := RawData.copy_alloc_always d
    simp only [retryLoop]
    split
    · exact hcopy
    · exact alloc_retryLoop q _ hcopy

end Transport

theorem handsOver_alloc {t t' : Transport} {a : Alloc} {block : Bytes} :
    HandsOver { t with alloc := a } t' block ↔ HandsOver t t' block := by
  have hqueue : Transport.retryDataList (Transport.retrySendFailedData { t with alloc := a }) =
      t.retrySendFailedData.retryDataList :=
    Transport.retryDataList_retryLoop t.retryDataList a t.alloc rfl
  unfold HandsOver
  rw [hqueue]

/-- Without a send nothing is handed over. -/
theorem not_handsOver_of_handed {t t' : Transport} (h : t'.source.handed = t.source.handed)
    (block : Bytes) : ¬HandsOver t t' block := by
  rintro ⟨xs, hxs, -⟩
  rw [h] at hxs
  have := congrArg List.length hxs
  rw [List.length_append, List.length_append, List.length_singleton] at this
  omega

/-- Without a send nothing is put out, unless the code is that of a failed send. -/
theorem not_putsOut_of_handed {t t' : Transport} {retCode : ℤ}
    (h : t'.source.handed = t.source.handed)
    (hcode : ¬(retCode = errDoesNotInit ∨ retCode = errSendFail)) (block : Bytes) :
    ¬PutsOut t t' retCode block := by
  rintro (hb | hb)
  · exact not_handsOver_of_handed h block hb
  · exact hcode hb.1

/-- `SendData` hands over its data if it succeeds, and nothing of its own otherwise. -/
theorem sendData_handsOver (d : RawData) (t : Transport) {block : Bytes}
    (h : HandsOver t (t.sendData d).2 block) :
    block = d.content ∧ (t.sendData d).1 = success := by
  by_cases hempty : d.isEmpty
  · have hsend : t.sendData d = (errEmptyEvent, t) := by rw [Transport.sendData, if_pos hempty]
    rw [hsend] at h
    exact absurd h (not_handsOver_of_handed rfl block)
  by_cases hsize : d.len > maxDataSize
  · have hsend : t.sendData d = (errOverSize, t) := by
      rw [Transport.sendData, if_neg hempty, if_pos hsize]
    rw [hsend] at h
    exact absurd h (not_handsOver_of_handed rfl block)
  generalize hloop :
    Transport.sendLoop d Transport.retryTimes success t.retrySendFailedData.source = r
  have hhanded := Transport.handed_sendLoop d t.retrySendFailedData.source
  rw [hloop] at hhanded
  have hcode : (t.sendData d).1 = r.1 := by
    simp only [Transport.sendData, if_neg hempty, if_neg hsize, hloop]
    split <;> rfl
  have hsource : (t.sendData d).2.source = r.2 := by
    simp only [Transport.sendData, if_neg hempty, if_neg hsize, hloop]
    split <;> rfl
  obtain ⟨xs, hxs, hlen⟩ := h
  obtain ⟨ys, hys, hlen'⟩ := t.handed_retrySendFailedData
  rw [hsource, hhanded, hys] at hxs
  rw [hcode]
  split at hxs
  case isTrue hok =>
    rw [List.append_assoc, List.append_assoc, List.append_cancel_left_eq] at hxs
    have := List.append_inj_right hxs (by omega)
    exact ⟨(List.singleton_inj.1 this).symm, hok⟩
  case isFalse =>
    have := congrArg List.length hxs
    simp only [List.length_append, List.length_singleton] at this
    omega

/-- A copy has the bytes, or none if it was refused. -/
theorem content_copy_cases {d : RawData} (h : d.Valid) (a : Alloc) :
    (d.copy a).1.content = d.content ∨ (d.copy a).1.content = [] := by
  cases ha : a.next with
  | true => exact Or.inl (RawData.copy_spec h ha).2
  | false =>
    obtain ⟨buf, hbuf, -⟩ := h.buffer
    right
    simp only [RawData.copy, RawData.new, hbuf, ha, Bool.false_eq_true, if_false]
    split <;> rfl

/-- A send whose data can be sent ends as its loop does, and queues a copy if that fails. -/
theorem sendData_loop {d : RawData} (hempty : d.isEmpty = false) (hsize : ¬d.len > maxDataSize)
    (t : Transport) :
    let r := Transport.sendLoop d Transport.retryTimes success t.retrySendFailedData.source
    (t.sendData d).1 = r.1 ∧ (t.sendData d).2.source = r.2 ∧
      (r.1 ≠ success → ∃ q, (t.sendData d).2.retryDataList =
        q ++ [(d.copy t.retrySendFailedData.alloc).1]) := by
  intro r
  by_cases hr : r.1 = success
  · have hsend : t.sendData d = (r.1, { t.retrySendFailedData with source := r.2 }) := by
      simp only [Transport.sendData, hempty, Bool.false_eq_true, if_false, if_neg hsize]
      exact if_pos hr
    rw [hsend]
    exact ⟨rfl, rfl, fun hne => absurd hr hne⟩
  · have hsend : t.sendData d =
        (r.1, Transport.addFailedData d { t.retrySendFailedData with source := r.2 }) := by
      simp only [Transport.sendData, hempty, Bool.false_eq_true, if_false, if_neg hsize]
      exact if_neg hr
    rw [hsend]
    exact ⟨rfl, rfl, fun _ => ⟨_, rfl⟩⟩

/-- `SendData` queues nothing but its data. -/
theorem sendData_queues {d : RawData} (hv : d.Valid) (t : Transport) {block : Bytes}
    (h : Queues (t.sendData d).2 (t.sendData d).1 block) : block = d.content := by
  obtain ⟨hcode, hne, q, d', hq, hblock⟩ := h
  by_cases hempty : d.isEmpty = true
  · rw [Transport.sendData, if_pos hempty] at hcode
    simp [errEmptyEvent, errDoesNotInit, errSendFail] at hcode
  have hempty : d.isEmpty = false := Bool.not_eq_true _ ▸ hempty
  by_cases hsize : d.len > maxDataSize
  · simp only [Transport.sendData, hempty, Bool.false_eq_true, if_false, if_pos hsize] at hcode
    simp [errOverSize, errDoesNotInit, errSendFail] at hcode
  obtain ⟨hloop, -, hcopy⟩ := sendData_loop hempty hsize t
  have hfail : (t.sendData d).1 ≠ success := by
    rcases hcode with hcode | hcode <;> rw [hcode] <;> decide
  obtain ⟨q', hq'⟩ := hcopy (hloop ▸ hfail)
  have hlast := List.append_inj_right' (hq.symm.trans hq') rfl
  rw [← hblock, List.singleton_inj.1 hlast] at hne ⊢
  exact (content_copy_cases hv _).resolve_right hne

/-- A data that can be sent is handed over or queued. -/
theorem queues_sendData {d : RawData} (hv : d.Valid) (hne : d.content ≠ []) {t : Transport}
    (ha : t.alloc = Alloc.always) (hlen : ¬maxDataSize < d.content.length)
    (hfail : (t.sendData d).1 ≠ success) :
    Queues (t.sendData d).2 (t.sendData d).1 d.content := by
  have hempty : d.isEmpty = false := by
    rw [← Bool.not_eq_true, Transport.isEmpty_iff hv]
    exact hne
  rw [hv.length_content] at hlen
  obtain ⟨hloop, -, hcopy⟩ := sendData_loop hempty hlen t
  obtain ⟨q, hq⟩ := hcopy (hloop ▸ hfail)
  have halloc : t.retrySendFailedData.alloc = Alloc.always :=
    Transport.alloc_retryLoop t.retryDataList t.source ha
  refine ⟨?_, hne, q, _, hq, (RawData.copy_spec hv (by rw [halloc]; rfl)).2⟩
  have hall : ∀ i < Transport.retryTimes,
      t.retrySendFailedData.source.results i ≠ .success := fun i hi hi' =>
    hfail (hloop.trans (Transport.sendLoop_spec d Transport.retryTimes success _ ⟨i, hi, hi'⟩).1)
  obtain ⟨r, hr, hcode⟩ := (Transport.sendLoop_fails d Transport.retryTimes success
    t.retrySendFailedData.source hall).2 (by decide)
  rw [hloop, hcode]
  cases r with
  | success => exact absurd rfl hr
  | doesNotInit => exact Or.inl rfl
  | sendFail => exact Or.inr rfl

/-! ## The header of a block of the C++ writers -/

/-- Writing parameters, in whole or in part, keeps the header. -/
theorem carries_writeAll (k : CharKind) {header : HiSysEventHeader} :
    ∀ (xs : List (Option (Bytes × Value))) {s : EventBase × Alloc}, Carries s.1 header →
      Carries (writeAll k xs s).1 header
  | [], _, h => h
  | none :: xs, s, h => carries_writeAll k xs (s := appendInvalidParam s) (h.setRetCode _)
  | some (key, v) :: xs, s, h => by
    refine carries_writeAll k xs (s := innerWriteValue k key s v) ?_
    rw [innerWriteValue_eq, writeParam]
    split
    · exact h.setRetCode _
    · split
      · exact h.setRetCode _
      · exact carries_appendStep (s := ({ s.1 with retCode := _ }, s.2)) (h.setRetCode _) _

theorem retCode_appendParam (e : EventBase) (param : EncodedParam) (a : Alloc) :
    (e.appendParam param a).1.retCode = e.retCode := by
  unfold EventBase.appendParam
  cases e.rawData with
  | none => rfl
  | some d =>
    dsimp only
    rcases param.encode (d, a) with ⟨_ | _, d', a'⟩ <;> rfl

/-- Writing parameters, in whole or in part, makes no error. -/
theorem retCode_writeAll (k : CharKind) : ∀ (xs : List (Option (Bytes × Value)))
    {s : EventBase × Alloc}, 0 ≤ s.1.retCode → 0 ≤ (writeAll k xs s).1.retCode
  | [], _, h => h
  | none :: xs, s, _ => retCode_writeAll k xs (s := appendInvalidParam s)
      (show 0 ≤ errValueInvalid by decide)
  | some (key, v) :: xs, s, h => by
    refine retCode_writeAll k xs (s := innerWriteValue k key s v) ?_
    have hafter := retCodeAfter_nonneg (k := k) (n := s.1.paramCnt) h key v
    rw [innerWriteValue_eq, writeParam]
    unfold retCodeAfter at hafter
    split_ifs at hafter ⊢ <;> first | exact hafter | rw [retCode_appendParam]; exact hafter

/-- An event could not be started, or is ready to be sent with the header it was built with. -/
theorem prepare_cases {k : CharKind} {domain eventName : Bytes}
    (hd : isValidName k domain maxDomainLength = true)
    (hn : isValidName k eventName maxEventNameLength = true) (p : Process) (type : ℤ)
    (timeStamp : UInt64) {fill : EventBase × Alloc → EventBase × Alloc}
    {xs : List (Option (Bytes × Value))} (hfill : ∀ s, fill s = writeAll k xs s) (a : Alloc) :
    let e := (prepare k p domain eventName type timeStamp fill a).1
    e.retCode = errRawDataWroteException ∨ 0 ≤ e.retCode ∧
      Carries e ((EventBase.new k domain eventName type timeStamp).setProcess p).header := by
  intro e
  have hst := EventBase.new_started hd hn type timeStamp
  have hnoError : isError (EventBase.new k domain eventName type timeStamp) = false := by
    rw [isError, hst.retCode]
    rfl
  rcases EventBase.writebaseInfo_cases (EventBase.paramCnt_new k domain eventName type timeStamp) p
    a with herr | ⟨d, offset, hbase, -⟩
  · left
    have hbad : isError ((EventBase.new k domain eventName type timeStamp).writebaseInfo p a).1 =
        true := by
      rw [isError_eq_true, herr]
      decide
    simp only [e, prepare, hnoError, Bool.false_eq_true, if_false, hbad, if_true, herr]
  · right
    have hcode : ((EventBase.new k domain eventName type timeStamp).writebaseInfo p a).1.retCode =
        0 := by
      rw [hbase]
      exact hst.retCode
    have hgood : isError ((EventBase.new k domain eventName type timeStamp).writebaseInfo p a).1 =
        false := by
      rw [isError, hcode]
      rfl
    simp only [e, prepare, hnoError, Bool.false_eq_true, if_false, hgood, hfill]
    exact ⟨retCode_writeAll k xs hcode.ge,
      carries_writeAll k xs (carries_writebaseInfo hcode.ge)⟩

/-- What `SendSysEvent` puts out is the block with the event's header, and what it hands over does
not end in an error of the send. -/
theorem sendSysEvent_putsOut {e : EventBase} {header : HiSysEventHeader} (h : Carries e header)
    (he : 0 ≤ e.retCode) (t : Transport) {block : Bytes} :
    (HandsOver t (sendSysEvent e t).2 block → (sendSysEvent e t).1.retCode = e.retCode ∧
      HasType block (header.type.toNat + 1)) ∧
    (Queues (sendSysEvent e t).2 (sendSysEvent e t).1.retCode block →
      HasType block (header.type.toNat + 1)) := by
  obtain ⟨d₁, hget₁, -, h₁⟩ := carries_getEventRawData h t.alloc
  obtain ⟨d₂, hget₂, hhead, -⟩ := carries_getEventRawData h₁ t.alloc
  have hsend : sendSysEvent e t =
      if (t.sendData d₂).1 ≠ success then
        ({ e with rawData := some d₂, retCode := (t.sendData d₂).1 }, (t.sendData d₂).2)
      else ({ e with rawData := some d₂ }, (t.sendData d₂).2) := by
    simp only [sendSysEvent, hget₁, hget₂]
  have htransport : (sendSysEvent e t).2 = (t.sendData d₂).2 := by
    rw [hsend]
    split <;> rfl
  have htyped : HasType d₂.content (header.type.toNat + 1) := by
    obtain ⟨size, rest, hsize, hcont⟩ := hhead.content
    rw [hcont]
    exact hasType_of_header hsize header
  rw [htransport]
  refine ⟨fun hb => ?_, fun hb => ?_⟩
  · obtain ⟨rfl, hok⟩ := sendData_handsOver d₂ t hb
    exact ⟨by rw [hsend, if_neg (not_not_intro hok)], htyped⟩
  · by_cases hok : (t.sendData d₂).1 = success
    · rw [hsend, if_neg (not_not_intro hok)] at hb
      have hneg : errDoesNotInit < 0 ∧ errSendFail < 0 := by decide
      rcases hb.1 with hcode | hcode
      · exact absurd he (Int.not_le.2 (hcode ▸ hneg.1))
      · exact absurd he (Int.not_le.2 (hcode ▸ hneg.2))
    · rw [hsend, if_pos hok] at hb
      rw [sendData_queues hhead.valid t hb]
      exact htyped

/-- What a write puts out has its type modulo four in the header, and a write that hands a block
over returns no error. -/
theorem writeEvent_putsOut {k : CharKind} {domain eventName : Bytes}
    (hd : isValidName k domain maxDomainLength = true)
    (hn : isValidName k eventName maxEventNameLength = true) (p : Process) (param : ControlParam)
    (callerInfo : CallerInfo) (type : ℤ) {fill : EventBase × Alloc → EventBase × Alloc}
    {xs : List (Option (Bytes × Value))} (hfill : ∀ s, fill s = writeAll k xs s) (w : World)
    {block : Bytes} :
    let r := writeEvent k p param callerInfo domain eventName type fill w
    (HandsOver w.transport r.2.transport block → 0 ≤ r.1) ∧
      (PutsOut w.transport r.2.transport r.1 block → HasType block ((type - 1) % 4 + 1)) := by
  intro r
  -- without a send the transport is as it was, and the code is not that of a send
  have hkeep : ∀ {t' : Transport} {retCode : ℤ},
      t'.source.handed = w.transport.source.handed →
      ¬(retCode = errDoesNotInit ∨ retCode = errSendFail) →
      (HandsOver w.transport t' block → 0 ≤ retCode) ∧
        (PutsOut w.transport t' retCode block → HasType block ((type - 1) % 4 + 1)) :=
    fun hsame hcode =>
      have hnot := not_putsOut_of_handed hsame hcode block
      ⟨fun hb => absurd (Or.inl hb) hnot, fun hb => absurd hb hnot⟩
  revert r
  unfold writeEvent
  dsimp only
  generalize checkLimitWritingEvent k param eventName callerInfo w.eventWroteLruCache = c
  by_cases htime : c.1 = invalidTimeStamp
  · rw [if_pos htime]
    exact hkeep rfl (show ¬(errWriteInHighFreq = errDoesNotInit ∨ errWriteInHighFreq = errSendFail)
      by decide)
  rw [if_neg htime]
  have hst := EventBase.new_started hd hn type c.1
  have hready := prepare_cases hd hn p type c.1 hfill w.transport.alloc
  dsimp only at hready
  generalize prepare k p domain eventName type c.1 fill w.transport.alloc = s at hready ⊢
  rcases hready with herr | ⟨hcode, hcarries⟩
  · have hbad : isError s.1 = true := by
      rw [isError_eq_true, herr]
      decide
    simp only [hbad, if_true, herr]
    exact hkeep rfl (by decide)
  have hgood : isError s.1 = false := by
    rw [← Bool.not_eq_true, isError_eq_true]
    exact Int.not_lt.2 hcode
  simp only [hgood, Bool.false_eq_true, if_false]
  obtain ⟨hhands, hqueues⟩ :=
    @sendSysEvent_putsOut _ _ hcarries hcode { w.transport with alloc := s.2 } block
  have htype : (((EventBase.new k domain eventName type c.1).setProcess p).header.type.toNat : ℤ) =
      (type - 1) % 4 := by
    have : ((EventBase.new k domain eventName type c.1).setProcess p).header.type =
        BitVec.ofInt 2 (type - 1) := hst.type
    rw [this, BitVec.toNat_ofInt]
    omega
  rw [htype, handsOver_alloc] at hhands
  rw [htype] at hqueues
  exact ⟨fun hb => hcode.trans_eq (hhands hb).1.symm,
    fun hb => hb.elim (fun hb => (hhands hb).2) hqueues⟩

/-- An event goes out under its type unless the type is out of range and the write succeeds or
queues its block. -/
theorem sentAs_writeEvent_iff {k : CharKind} {domain eventName : Bytes}
    (hd : isValidName k domain maxDomainLength = true)
    (hn : isValidName k eventName maxEventNameLength = true) (p : Process) (param : ControlParam)
    (callerInfo : CallerInfo) (type : ℤ) {fill : EventBase × Alloc → EventBase × Alloc}
    {xs : List (Option (Bytes × Value))} (hfill : ∀ s, fill s = writeAll k xs s) (w : World) :
    let r := writeEvent k p param callerInfo domain eventName type fill w
    SentAs type (PutsOut w.transport r.2.transport r.1) r.1 ↔
      InRange type ∨ r.1 < 0 ∧ ∀ block, ¬Queues r.2.transport r.1 block := by
  intro r
  have hputs := fun block => @writeEvent_putsOut k domain eventName hd hn p param callerInfo type
    fill xs hfill w block
  constructor
  · intro h
    by_cases hrange : InRange type
    · exact Or.inl hrange
    · obtain ⟨hneg, hnone⟩ := h.refused hrange
      exact Or.inr ⟨hneg, fun block hb => hnone block (Or.inr hb)⟩
  · rintro (hrange | ⟨hneg, hnone⟩)
    · refine ⟨fun block hb => ?_, fun hout => absurd hrange hout⟩
      have htype : (type - 1) % 4 + 1 = type := by
        obtain ⟨h1, h4⟩ := hrange
        omega
      exact htype ▸ (hputs block).2 hb
    · have hnot : ∀ block, ¬PutsOut w.transport r.2.transport r.1 block := fun block hb =>
        hb.elim (fun hb => absurd hneg (Int.not_lt.2 ((hputs block).1 hb))) (hnone block)
      exact ⟨fun block hb => absurd hb (hnot block), fun _ => ⟨hneg, hnot⟩⟩

/-- What keeps an event back for good, whatever its type : the limiter, or a block too long to be
sent. -/
def KeptBack (k : CharKind) (p : Process) (param : ControlParam) (callerInfo : CallerInfo)
    (eventName : Bytes) (xs : List (Option (Bytes × Value))) (w : World) : Prop :=
  (checkLimitWritingEvent k param eventName callerInfo w.eventWroteLruCache).1 =
      invalidTimeStamp ∨
    maxDataSize < blockLength p (accepted k 0 (valid xs))

/-- Where every allocation is granted, an event that is not kept back is handed over or queued. -/
theorem writeEvent_keptBack_iff {k : CharKind} {domain eventName : Bytes}
    (hd : isValidName k domain maxDomainLength = true)
    (hn : isValidName k eventName maxEventNameLength = true) (p : Process) (param : ControlParam)
    (callerInfo : CallerInfo) (type : ℤ) {fill : EventBase × Alloc → EventBase × Alloc}
    {xs : List (Option (Bytes × Value))} (hfill : ∀ s, fill s = writeAll k xs s) {w : World}
    (ha : w.transport.alloc = Alloc.always) :
    let r := writeEvent k p param callerInfo domain eventName type fill w
    (r.1 < 0 ∧ ∀ block, ¬Queues r.2.transport r.1 block) ↔
      KeptBack k p param callerInfo eventName xs w := by
  intro r
  by_cases htime : (checkLimitWritingEvent k param eventName callerInfo w.eventWroteLruCache).1 =
      invalidTimeStamp
  · have hcode : r.1 = errWriteInHighFreq := by simp only [r, writeEvent, if_pos htime]
    refine iff_of_true ⟨hcode ▸ (by decide), fun block hb => ?_⟩ (Or.inl htime)
    rw [hcode] at hb
    exact absurd hb.1 (by decide)
  · obtain ⟨e, d, -, -, hr, -, -, hlen, hv, hne, ht, hcode⟩ :=
      writeEvent_sendData ⟨hd, hn, htime, ha⟩ p type hfill
    rw [KeptBack, or_iff_right htime, ← hlen]
    by_cases hlong : maxDataSize < d.content.length
    · have hempty : d.isEmpty = false := by
        rw [← Bool.not_eq_true, Transport.isEmpty_iff hv]
        exact hne
      have hsend : (w.transport.sendData d).1 = errOverSize := by
        rw [hv.length_content] at hlong
        simp only [Transport.sendData, hempty, Bool.false_eq_true, if_false, if_pos hlong]
      rw [hsend, if_pos (by decide)] at hcode
      refine iff_of_true ⟨hcode ▸ (by decide), fun block hb => ?_⟩ hlong
      rw [hcode] at hb
      exact absurd hb.1 (by decide)
    · refine iff_of_false (fun h => ?_) hlong
      by_cases hok : (w.transport.sendData d).1 = success
      · rw [if_neg (not_not_intro hok)] at hcode
        exact absurd h.1 (Int.not_lt.2 (hcode ▸ hr))
      · rw [if_pos hok] at hcode
        refine h.2 d.content ?_
        rw [ht, hcode]
        exact queues_sendData hv hne ha hlong hok

/-! ## The easy writer -/

namespace Easy

/-- The easy writer hands a block to the socket. -/
def Hands (p : EasyProcess) (domain name : Option Bytes) (type : ℤ) (data : Option Bytes)
    (block : Bytes) : Prop :=
  ∃ b, easyEvent p domain name type data = (success, b) ∧ b.data = block

/-- The data is there, and not too long. -/
def Accepts (data : Option Bytes) : Prop :=
  ∃ mem, data = some mem ∧ strlen mem ≤ dataMaxLen

theorem toNat_ofInt (type : ℤ) : ((UInt8.ofInt type).toNat : ℤ) = type % 256 := by
  rw [UInt8.ofInt, UInt8.toNat_ofNat']
  omega

theorem checkEventType_eq (type : ℤ) :
    checkEventType (UInt8.ofInt type) =
      if InRange (type % 256) then success else errTypeInvalid := by
  have h := toNat_ofInt type
  have hiff : (UInt8.ofInt type < 1 ∨ UInt8.ofInt type > 4) ↔ ¬InRange (type % 256) := by
    rw [UInt8.lt_iff_toNat_lt, gt_iff_lt, UInt8.lt_iff_toNat_lt]
    change (UInt8.ofInt type).toNat < 1 ∨ 4 < (UInt8.ofInt type).toNat ↔ _
    unfold InRange
    omega
  unfold checkEventType
  by_cases hrange : InRange (type % 256)
  · rw [if_neg (fun hout => hiff.1 hout hrange), if_pos hrange]
  · rw [if_pos (hiff.2 hrange), if_neg hrange]

theorem appendHeader_code (b : EventBuffer) (header : HiSysEventEasyHeader) :
    (appendHeader b header).1 = success ∨ (appendHeader b header).1 < 0 := by
  unfold appendHeader
  split
  · exact Or.inr (by decide : errMemOptFailed < 0)
  · exact Or.inl rfl

theorem appendStringParam_not_accepts {data : Option Bytes} (h : ¬Accepts data) (b : EventBuffer)
    (key : Bytes) : appendStringParam b (some key) data = (errParamValueInvalid, b) := by
  cases data with
  | none => rfl
  | some mem =>
    have hlong : strlen mem > dataMaxLen := Nat.lt_of_not_le fun hle => h ⟨mem, rfl, hle⟩
    simp only [appendStringParam, if_pos hlong]

/-- A type that fails the check and data that is not accepted are refused. -/
theorem easyEvent_neg {type : ℤ} {data : Option Bytes}
    (h : ¬InRange (type % 256) ∨ ¬Accepts data) (p : EasyProcess) (domain name : Option Bytes) :
    (easyEvent p domain name type data).1 < 0 := by
  have hneg : errDomainInvalid < 0 ∧ errNameInvalid < 0 ∧ errTypeInvalid < 0 ∧
      errParamValueInvalid < 0 ∧ errEventBufInvalid < 0 ∧ errMemOptFailed < 0 := by decide
  unfold easyEvent
  split
  · exact hneg.1
  · split
    · exact hneg.1
    · exact hneg.2.1
  · split
    · exact hneg.1
    split
    · exact hneg.2.1
    dsimp only
    rw [checkEventType_eq]
    by_cases hrange : InRange (type % 256)
    · simp only [if_pos hrange, ne_eq, not_true_eq_false, if_false]
      split
      · exact hneg.2.2.2.2.2
      · split
        case isTrue header _ hfail =>
          have hcode := appendHeader_code startBuffer header
          generalize appendHeader startBuffer header = r at *
          exact hcode.resolve_left hfail
        case isFalse =>
          split
          · exact hneg.2.2.2.2.1
          · rw [appendStringParam_not_accepts (h.resolve_left (not_not_intro hrange))]
            exact hneg.2.2.2.1
    · have hne : errTypeInvalid ≠ success := by decide
      simp only [if_neg hrange, if_pos hne]
      exact hneg.2.2.1

/-- The header is filled with the type the check saw. -/
theorem initEventHeader_type {domain name : Bytes} (hd : strlen domain ≤ maxDomainLength)
    (hn : strlen name ≤ maxEventNameLength) (p : EasyProcess) {type : ℤ} (h : InRange type) :
    ∃ header, initEventHeader p .zero domain name (UInt8.ofInt type) = some header ∧
      (header.type.toNat : ℤ) + 1 = type := by
  obtain ⟨dc, hdc, -⟩ := CharArray.copyFrom_zero (n := maxDomainLength + 1)
    (Nat.le_succ_of_le hd)
  obtain ⟨nc, hnc, -⟩ := CharArray.copyFrom_zero (n := maxEventNameLength + 1)
    (Nat.le_succ_of_le hn)
  have hinit : initEventHeader p .zero domain name (UInt8.ofInt type) =
      some ⟨dc, nc, p.timestamp, parseTimeZone p.timezone, p.uid, p.pid, p.tid, 0,
        BitVec.ofNat 2 (UInt8.ofInt type - 1).toNat, 0⟩ := by
    simp only [initEventHeader, HiSysEventEasyHeader.zero, hdc, hnc, Option.bind_eq_bind,
      Option.bind_some, Option.pure_def]
  refine ⟨_, hinit, ?_⟩
  obtain ⟨h1, h4⟩ := h
  obtain rfl | rfl | rfl | rfl : type = 1 ∨ type = 2 ∨ type = 3 ∨ type = 4 := by omega
  all_goals rfl

/-- The header as the receiver reads it. -/
def HiSysEventEasyHeader.toHeader (h : HiSysEventEasyHeader) : HiSysEventHeader :=
  ⟨h.domain, h.name, h.timestamp, h.timeZone, h.uid, h.pid, h.tid, h.id, h.type, h.isTraceOpened⟩

theorem toBytes_toHeader (h : HiSysEventEasyHeader) : h.toHeader.toBytes = h.toBytes := by
  rw [HiSysEventHeader.toBytes, HiSysEventHeader.toNat_flags]
  rfl

theorem easyEvent_emod (p : EasyProcess) (domain name : Option Bytes) (type : ℤ)
    (data : Option Bytes) :
    easyEvent p domain name (type % 256) data = easyEvent p domain name type data := by
  have : UInt8.ofInt (type % 256) = UInt8.ofInt type := by
    refine UInt8.toNat_inj.1 (Int.ofNat_inj.1 ?_)
    rw [toNat_ofInt, toNat_ofInt, Int.emod_emod_of_dvd type (dvd_refl 256)]
  unfold easyEvent
  rw [this]

/-- What the easy writer hands over otherwise has the type it checked. -/
theorem easyEvent_hands {domain name : Bytes} (hd : strlen domain ≤ maxDomainLength)
    (hn : strlen name ≤ maxEventNameLength) (p : EasyProcess) {type : ℤ}
    (h : InRange (type % 256)) {data : Option Bytes} (hx : Accepts data) :
    ∃ block, Hands p (some domain) (some name) type data block ∧ HasType block (type % 256) := by
  obtain ⟨mem, rfl, hlen⟩ := hx
  obtain ⟨header, hinit, htype⟩ := initEventHeader_type hd hn p h
  have heasy := easyEvent_eq hd hn h.1 h.2 hlen hinit
  rw [easyEvent_emod, put_zeros] at heasy
  refine ⟨_, ⟨_, heasy, rfl⟩, ?_⟩
  rw [eventBytes, ← toBytes_toHeader, ← htype]
  simp only [List.append_assoc]
  exact hasType_of_header (length_le _ _) header.toHeader

theorem Hands.unique {p : EasyProcess} {domain name : Option Bytes} {type : ℤ}
    {data : Option Bytes} {block block' : Bytes} (h : Hands p domain name type data block)
    (h' : Hands p domain name type data block') : block = block' := by
  obtain ⟨b, hb, rfl⟩ := h
  obtain ⟨b', hb', rfl⟩ := h'
  rw [hb, Prod.mk.injEq] at hb'
  rw [hb'.2]

/-- The easy writer keeps the type unless it is out of range and the check does not see it. -/
theorem sentAs_easyEvent_iff (write : Bytes → ℤ) {domain name : Bytes}
    (hd : strlen domain ≤ maxDomainLength) (hn : strlen name ≤ maxEventNameLength)
    (p : EasyProcess) (type : ℤ) (data : Option Bytes) :
    SentAs type (Hands p (some domain) (some name) type data)
        (hiSysEventEasyWrite write p (some domain) (some name) type data) ↔
      InRange type ∨ ¬InRange (type % 256) ∨ ¬Accepts data := by
  by_cases hgood : InRange (type % 256) ∧ Accepts data
  · obtain ⟨block, hblock, htype⟩ := easyEvent_hands hd hn p hgood.1 hgood.2
    constructor
    · intro h
      have heq := htype.unique (h.typed block hblock)
      exact Or.inl (heq ▸ hgood.1)
    · rintro (hrange | hout | hbad)
      · refine ⟨fun block' hblock' => ?_, fun hout => absurd hrange hout⟩
        rw [hblock'.unique hblock]
        have hmod : type % 256 = type := by
          obtain ⟨h1, h4⟩ := hrange
          omega
        exact hmod ▸ htype
      · exact absurd hgood.1 hout
      · exact absurd hgood.2 hbad
  · have hbad : ¬InRange (type % 256) ∨ ¬Accepts data := not_and_or.1 hgood
    have hneg := easyEvent_neg hbad p (some domain) (some name)
    have hne : (easyEvent p (some domain) (some name) type data).1 ≠ success := ne_of_lt hneg
    have hnone : ∀ block, ¬Hands p (some domain) (some name) type data block := by
      rintro block ⟨b, hb, -⟩
      rw [hb] at hne
      exact hne rfl
    refine iff_of_true ⟨fun block hb => absurd hb (hnone block), fun _ => ⟨?_, hnone⟩⟩
      (Or.inr hbad)
    simp only [hiSysEventEasyWrite, if_pos hne]
    exact hneg

end Easy

/-! ## Every writer -/

/-- The event of a write keeps its type if that is in range, and with every allocation granted
only then or if the event is kept back. -/
def KeepsType (type : ℤ) (keptBack : Prop) (w : World) (r : ℤ × World) : Prop :=
  (InRange type → SentAs type (PutsOut w.transport r.2.transport r.1) r.1) ∧
    (w.transport.alloc = Alloc.always →
      (SentAs type (PutsOut w.transport r.2.transport r.1) r.1 ↔ InRange type ∨ keptBack))

theorem keepsType_writeEvent {k : CharKind} {domain eventName : Bytes}
    (hd : isValidName k domain maxDomainLength = true)
    (hn : isValidName k eventName maxEventNameLength = true) (p : Process) (param : ControlParam)
    (callerInfo : CallerInfo) (type : ℤ) {fill : EventBase × Alloc → EventBase × Alloc}
    {xs : List (Option (Bytes × Value))} (hfill : ∀ s, fill s = writeAll k xs s) (w : World) :
    KeepsType type (KeptBack k p param callerInfo eventName xs w) w
      (writeEvent k p param callerInfo domain eventName type fill w) := by
  have hiff := sentAs_writeEvent_iff hd hn p param callerInfo type hfill w
  refine ⟨fun hrange => hiff.2 (Or.inl hrange), fun ha => ?_⟩
  exact hiff.trans (or_congr_right
    (writeEvent_keptBack_iff hd hn p param callerInfo type hfill ha))

/-- A masked event is kept back as well. -/
theorem keepsType_masked {type : ℤ} {w : World} {keptBack : Prop} (h : keptBack) :
    KeepsType type keptBack w (errDomainMasked, w) := by
  have hnot : ∀ block, ¬PutsOut w.transport w.transport errDomainMasked block :=
    not_putsOut_of_handed rfl (by decide)
  have hsent : SentAs type (PutsOut w.transport w.transport errDomainMasked) errDomainMasked :=
    ⟨fun block hb => absurd hb (hnot block), fun _ => ⟨by decide, hnot⟩⟩
  exact ⟨fun _ => hsent, fun _ => iff_of_true hsent (Or.inr h)⟩

/-- With valid names, an event goes out under its type, and not at all with a type out of range, if
and only if the type is in range or the event is kept back. The check of the easy writer keeps
it back if the type is out of range modulo 256. -/
theorem keepsType (k : CharKind) {domain eventName : Bytes}
    (hd : isValidName k domain maxDomainLength = true)
    (hn : isValidName k eventName maxEventNameLength = true) (type : ℤ) :
    (∀ (p : Process) (param : ControlParam) (callerInfo : CallerInfo)
      (keyValues : List (Bytes × Value)) (w : World),
      KeepsType type (KeptBack k p param callerInfo eventName (keyValues.map some) w) w
        (write k p param callerInfo domain eventName type keyValues w)) ∧
    (∀ (p : Process) (param : ControlParam) (callerInfo : CallerInfo)
      (domainView domainMasks : StringView) (keyValues : List (Bytes × Value)) (w : World),
      domainView.data = domain →
      KeepsType type (isMaskedImpl domainView domainMasks 0 = true ∨
          KeptBack k p param callerInfo eventName (keyValues.map some) w) w
        (writeDomain k p param callerInfo domainView domainMasks eventName type keyValues w)) ∧
    (∀ (p : Process) (param : ControlParam) (callerInfo : CallerInfo) (domainMem nameMem : Bytes)
      (params : Option (List HiSysEventParam)) (w : World),
      cString domainMem = domain → cString nameMem = eventName →
      KeepsType type (KeptBack k p param callerInfo eventName
          ((params.getD []).map HiSysEventParam.toCxx) w) w
        (hiSysEventWrite k p param callerInfo (some domainMem) (some nameMem) type params w)) ∧
    ∀ (p : Easy.EasyProcess) (socket : Bytes → ℤ) (domainMem nameMem : Bytes)
      (data : Option Bytes),
      cString domainMem = domain → cString nameMem = eventName →
      (SentAs type (Easy.Hands p (some domainMem) (some nameMem) type data)
          (Easy.hiSysEventEasyWrite socket p (some domainMem) (some nameMem) type data) ↔
        InRange type ∨ ¬InRange (type % 256) ∨ ¬Easy.Accepts data) := by
  refine ⟨fun p param callerInfo keyValues w => ?_,
    fun p param callerInfo domainView domainMasks keyValues w hdomain => ?_,
    fun p param callerInfo domainMem nameMem params w hdomain hname => ?_,
    fun p socket domainMem nameMem data hdomain hname => ?_⟩
  · exact keepsType_writeEvent hd hn p param callerInfo type
      (innerWrite_eq_writeAll k keyValues) w
  · subst hdomain
    rw [writeDomain]
    split
    case isTrue hmask => exact keepsType_masked (Or.inl hmask)
    case isFalse hmask =>
      rw [or_iff_right hmask]
      exact keepsType_writeEvent hd hn p param callerInfo type
        (innerWrite_eq_writeAll k keyValues) w
  · subst hdomain hname
    exact keepsType_writeEvent hd hn p param callerInfo type
      (foldl_appendParam k (params.getD [])) w
  · subst hdomain hname
    exact Easy.sentAs_easyEvent_iff socket (length_of_isValidName hd).2
      (length_of_isValidName hn).2 p type data

/-- The last of the types, through each writer, first with every send granted and then with every
send refused, where the block is queued. -/
theorem keepsType_four :
    let p : Process := ⟨0, 1, 2, 3, none⟩
    let param : ControlParam := ⟨5, 100⟩
    let callerInfo : CallerInfo := ⟨[70], 1, 1000⟩
    let w := World.new fun _ => .success
    let w' := World.new fun _ => .sendFail
    let cxx := write .signed p param callerInfo [65] [66] 4 [([67], .bool true)] w
    let queued := write .signed p param callerInfo [65] [66] 4 [([67], .bool true)] w'
    let masked := writeDomain .signed p param callerInfo ⟨[65], by decide⟩ ⟨[67], by decide⟩ [66] 4
      [] w
    let c := hiSysEventWrite .signed p param callerInfo (some [65, 0]) (some [66, 0]) 4 none w
    (cxx.2.transport.source.handed.length = 1 ∧ queued.2.transport.retryDataList.length = 1) ∧
      SentAs 4 (PutsOut w.transport cxx.2.transport cxx.1) cxx.1 ∧
      SentAs 4 (PutsOut w'.transport queued.2.transport queued.1) queued.1 ∧
      SentAs 4 (PutsOut w.transport masked.2.transport masked.1) masked.1 ∧
      SentAs 4 (PutsOut w.transport c.2.transport c.1) c.1 ∧
      SentAs 4 (Easy.Hands ⟨7, 0, 0, 10, 1, 2, 3⟩ (some [65, 0]) (some [66, 0]) 4 (some [67, 0]))
        (Easy.hiSysEventEasyWrite (fun _ => 0) ⟨7, 0, 0, 10, 1, 2, 3⟩ (some [65, 0]) (some [66, 0])
          4 (some [67, 0])) := by
  have hrange : InRange 4 := by decide
  obtain ⟨hcxx, hmasked, hc, heasy⟩ :=
    @keepsType .signed [65] [66] (by decide) (by decide) 4
  exact ⟨⟨by decide +kernel, by decide +kernel⟩, (hcxx _ _ _ _ _).1 hrange,
    (hcxx _ _ _ _ _).1 hrange, (hmasked _ _ _ _ _ _ _ rfl).1 hrange,
    (hc _ _ _ _ _ _ _ (by decide) (by decide)).1 hrange,
    (heasy _ _ _ _ _ (by decide) (by decide)).2 (Or.inl hrange)⟩

/-! ## A type out of range -/

/-- Nothing keeps the event back, whatever becomes of the sends. -/
theorem not_keptBack_new (results : ℕ → SendResult) :
    ¬KeptBack .signed ⟨0, 1, 2, 3, none⟩ ⟨5, 100⟩ ⟨[70], 1, 1000⟩ [66] [] (.new results) := by
  rintro (hlimit | hlong)
  · exact passes_new.limiter hlimit
  · exact absurd hlong (by decide)

/-- An event of type 5 goes out as one of type 1, at once or from the queue, and so does one of type
257 of the easy writer. -/
theorem not_sentAs_outOfRange :
    (∀ results : ℕ → SendResult,
      let w := World.new results
      let r := write .signed ⟨0, 1, 2, 3, none⟩ ⟨5, 100⟩ ⟨[70], 1, 1000⟩ [65] [66] 5 [] w
      ¬SentAs 5 (PutsOut w.transport r.2.transport r.1) r.1) ∧
    ¬SentAs 257 (Easy.Hands ⟨7, 0, 0, 10, 1, 2, 3⟩ (some [65]) (some [66]) 257 (some [67]))
      (Easy.hiSysEventEasyWrite (fun _ => 0) ⟨7, 0, 0, 10, 1, 2, 3⟩ (some [65]) (some [66]) 257
        (some [67])) := by
  constructor
  · intro results w r h
    have hkeeps : KeepsType 5 (KeptBack .signed ⟨0, 1, 2, 3, none⟩ ⟨5, 100⟩ ⟨[70], 1, 1000⟩ [66] []
        w) w r := keepsType_writeEvent passes_new.validDomain passes_new.validName _ _ _ 5
      (innerWrite_eq_writeAll .signed []) w
    have halloc : w.transport.alloc = Alloc.always := rfl
    rcases (hkeeps.2 halloc).1 h with hrange | hkept
    · exact absurd hrange (by decide)
    · exact not_keptBack_new results hkept
  · have hiff := @Easy.sentAs_easyEvent_iff (fun _ => 0) [65] [66] (by decide) (by decide)
      ⟨7, 0, 0, 10, 1, 2, 3⟩ 257 (some [67])
    rw [hiff]
    rintro (hrange | hmod | hdata)
    · exact absurd hrange (by decide)
    · exact hmod (by decide)
    · exact hdata ⟨[67], rfl, by decide⟩

end HiSysEvent
