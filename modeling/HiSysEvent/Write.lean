import HiSysEvent.DomainMask
import HiSysEvent.HiSysEventParam
import HiSysEvent.Transport
import HiSysEvent.WriteController

/-!
# Writing an event

`HiSysEvent::Write` asks the limiter for a time stamp, fills an event and hands its block to the
transport, unless the domain is masked. `HiSysEvent_Write` of the C interface does the same with an
array of C parameters. With parameters that say the same both do the same
(`hiSysEventWrite_eq`).
-/

namespace HiSysEvent

/-- The state the writers of a process share. -/
structure World where
  eventWroteLruCache : EventWroteLruCache
  transport : Transport

/-- A process that has written nothing, and the outcomes of its sends. -/
def World.new (results : ℕ → SendResult) : World :=
  ⟨.new lruCacheDefaultSize, ⟨[], ⟨results, []⟩, Alloc.always⟩⟩

/-- Hand the block over. A block that cannot be finished or handed over sets the return code. -/
def sendSysEvent (e : EventBase) (t : Transport) : EventBase × Transport :=
  match e.getEventRawData t.alloc with
  | (none, e, a) => ({ e with retCode := errRawDataWroteException }, { t with alloc := a })
  | (some _, e, a) =>
    -- the block is finished once more to be sent
    match e.getEventRawData a with
    | (none, e, a) => (e, { t with alloc := a })
    | (some d, e, a) =>
      let (r, t) := Transport.sendData d { t with alloc := a }
      if r ≠ success then ({ e with retCode := r }, t) else (e, t)

/-- `Write` of an event whose parameters are filled in by `fill`. -/
def writeEvent (k : CharKind) (p : Process) (param : ControlParam) (callerInfo : CallerInfo)
    (domain eventName : Bytes) (type : ℤ) (fill : EventBase × Alloc → EventBase × Alloc)
    (w : World) : ℤ × World :=
  let (timeStamp, cache) :=
    checkLimitWritingEvent k param eventName callerInfo w.eventWroteLruCache
  if timeStamp = invalidTimeStamp then
    (errWriteInHighFreq, { w with eventWroteLruCache := cache })
  else
    let (e, a) := prepare k p domain eventName type timeStamp fill w.transport.alloc
    let t := { w.transport with alloc := a }
    if isError e then (e.retCode, ⟨cache, t⟩)
    else
      let (e, t) := sendSysEvent e t
      (e.retCode, ⟨cache, t⟩)

/-- `HiSysEvent::Write`. -/
def write (k : CharKind) (p : Process) (param : ControlParam) (callerInfo : CallerInfo)
    (domain eventName : Bytes) (type : ℤ) (keyValues : List (Bytes × Value)) (w : World) :
    ℤ × World :=
  writeEvent k p param callerInfo domain eventName type (innerWrite k keyValues) w

/-- `HiSysEvent::Write` of a domain known at compile time. A masked one writes nothing. -/
def writeDomain (k : CharKind) (p : Process) (param : ControlParam) (callerInfo : CallerInfo)
    (domain domainMasks : StringView) (eventName : Bytes) (type : ℤ)
    (keyValues : List (Bytes × Value)) (w : World) : ℤ × World :=
  if isMaskedImpl domain domainMasks 0 then (errDomainMasked, w)
  else write k p param callerInfo domain.data eventName type keyValues w

/-- `HiSysEvent_Write`. The pointers may be null. -/
def hiSysEventWrite (k : CharKind) (p : Process) (param : ControlParam) (callerInfo : CallerInfo)
    (domain name : Option Bytes) (type : ℤ) (params : Option (List HiSysEventParam))
    (w : World) : ℤ × World :=
  match domain, name with
  | none, _ => (errDomainNameInvalid, w)
  | some _, none => (errEventNameInvalid, w)
  | some domain, some name =>
    writeEvent k p param callerInfo (cString domain) (cString name) type
      (innerWriteParams k params) w

/-- With a mask string that is not misread, the domains that are masked are its tokens. -/
theorem writeDomain_eq (k : CharKind) (p : Process) (param : ControlParam)
    (callerInfo : CallerInfo) {domain domainMasks : StringView} (hd : domain.data ≠ [])
    (hread : ¬Misread domain.data domainMasks.data) (eventName : Bytes) (type : ℤ)
    (keyValues : List (Bytes × Value)) (w : World) :
    writeDomain k p param callerInfo domain domainMasks eventName type keyValues w =
      if domain.data ∈ domainMasks.data.splitOn bar then (errDomainMasked, w)
      else write k p param callerInfo domain.data eventName type keyValues w := by
  rw [writeDomain]
  exact if_congr (isMaskedImpl_iff_mem hd hread) rfl rfl

/-- With parameters that match, both interfaces build the same event, return the same code and
leave the same state. -/
theorem hiSysEventWrite_eq (k : CharKind) (p : Process) (param : ControlParam)
    (callerInfo : CallerInfo) (domain name : Bytes) (type : ℤ) (params : List HiSysEventParam)
    (keyValues : List (Bytes × Value))
    (h : List.Forall₂ HiSysEventParam.Matches params keyValues) (w : World) :
    (∀ timeStamp a, prepare k p (cString domain) (cString name) type timeStamp
        (innerWriteParams k (some params)) a =
      prepare k p (cString domain) (cString name) type timeStamp (innerWrite k keyValues) a) ∧
    hiSysEventWrite k p param callerInfo (some domain) (some name) type (some params) w =
      write k p param callerInfo (cString domain) (cString name) type keyValues w := by
  have hfill : innerWriteParams k (some params) = innerWrite k keyValues :=
    funext (innerWriteParams_eq k h)
  refine ⟨fun timeStamp a => by rw [hfill], ?_⟩
  rw [hiSysEventWrite, write, hfill]

/-- A name array that holds `"C"`. -/
def nameC : CharArray maxLengthOfParamName :=
  ⟨67 :: List.replicate 48 0, by decide⟩

/-- An integer with an empty string, for the C interface. -/
def paramsOfC : List HiSysEventParam :=
  [⟨nameC, 8, ⟨false, 0, 0, 0, 0, 0, 0, -5, 0, 0, 0, none, none⟩, 0⟩,
    ⟨nameC, 12, ⟨false, 0, 0, 0, 0, 0, 0, 0, 0, 0, 0, some [0], none⟩, 0⟩]

/-- They match a `long long` and a `const char*`. -/
theorem hiSysEventWrite_eq_two :
    hiSysEventWrite .signed ⟨0, 1, 2, 3, none⟩ ⟨5, 100⟩ ⟨[70], 1, 1000⟩ (some [65, 0])
        (some [66, 0]) 1 (some paramsOfC) (.new fun _ => .success) =
      write .signed ⟨0, 1, 2, 3, none⟩ ⟨5, 100⟩ ⟨[70], 1, 1000⟩ [65] [66] 1
        [([67], .signed .longLong (-5)), ([67], .charPtr [0])] (.new fun _ => .success) :=
  (hiSysEventWrite_eq .signed ⟨0, 1, 2, 3, none⟩ ⟨5, 100⟩ ⟨[70], 1, 1000⟩ [65, 0] [66, 0] 1
    paramsOfC _ (.cons ⟨by decide, rfl⟩ (.cons ⟨by decide, rfl⟩ .nil)) _).2

end HiSysEvent
