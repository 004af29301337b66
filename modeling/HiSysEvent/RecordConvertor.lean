import HiSysEvent.HiSysEventRecord
import HiSysEvent.QueryRule
import HiSysEvent.StringUtil

/-!
# Records passed to callbacks

`ConvertRecord` fills a C struct from a record, field by field, and stops at the first string that
is too long for its array or bound, or for which there is no memory. Four callbacks are called with
such structs. Afterwards the strings of the struct are freed.

The callbacks of a query are called only if each record was converted, and everything is freed
exactly once (`delivers_deliverQuery`). The callbacks of a listener are called in any case, so what
they are passed is right exactly if the record can be converted (`delivers_deliverEvent_iff`).
-/

namespace HiSysEvent

open Wire StringUtil

abbrev maxLengthOfTimeZone : ℕ := 6

/-! ## The struct -/

/-- The record of the C interface. -/
structure HiSysEventRecordC where
  domain : CharArray maxLengthOfEventDomain
  eventName : CharArray maxLengthOfEventName
  type : Int32
  time : UInt64
  tz : CharArray maxLengthOfTimeZone
  pid : Int64
  tid : Int64
  uid : Int64
  traceId : UInt64
  spandId : UInt64
  pspanId : UInt64
  traceFlag : Int32
  level : Option ℕ
  tag : Option ℕ
  jsonStr : Option ℕ

namespace HiSysEventRecordC

/-- `InitRecord`, and an initialization with `{}`. -/
def init : HiSysEventRecordC where
  domain := CharArray.zero _
  eventName := CharArray.zero _
  type := 0
  time := 0
  tz := CharArray.zero _
  pid := 0
  tid := 0
  uid := 0
  traceId := 0
  spandId := 0
  pspanId := 0
  traceFlag := 0
  level := none
  tag := none
  jsonStr := none

/-- The pointers of a struct, in the order in which they are deleted. -/
def ptrs (r : HiSysEventRecordC) : List (Option ℕ) :=
  [r.level, r.tag, r.jsonStr]

end HiSysEventRecordC

/-! ## The convertor -/

namespace RecordConvertor

variable {json : JsonCpp} (recordObj : HiSysEventRecord json)

/-- `ConvertDomain`. -/
def convertDomain (r : HiSysEventRecordC) : ℤ × HiSysEventRecordC :=
  let c := copyCString r.domain recordObj.getDomain
  (c.1, { r with domain := c.2 })

/-- `ConvertEventName`. -/
def convertEventName (r : HiSysEventRecordC) : ℤ × HiSysEventRecordC :=
  let c := copyCString r.eventName recordObj.getEventName
  (c.1, { r with eventName := c.2 })

/-- `ConvertTimeZone`. -/
def convertTimeZone (r : HiSysEventRecordC) : ℤ × HiSysEventRecordC :=
  let c := copyCString r.tz recordObj.getTimeZone
  (c.1, { r with tz := c.2 })

/-- The default bound of `CreateCString`. -/
abbrev maxLen : ℕ := 1024

/-- The bound of the text. -/
abbrev maxJsonLen : ℕ := 384 * 1024

/-- `ConvertLevel`. -/
def convertLevel (r : HiSysEventRecordC) (heap : Heap json.Double) :
    ℤ × HiSysEventRecordC × Heap json.Double :=
  let c := createCString maxLen r.level recordObj.getLevel heap
  (c.1, { r with level := c.2.1 }, c.2.2)

/-- `ConvertTag`. -/
def convertTag (r : HiSysEventRecordC) (heap : Heap json.Double) :
    ℤ × HiSysEventRecordC × Heap json.Double :=
  let c := createCString maxLen r.tag recordObj.getTag heap
  (c.1, { r with tag := c.2.1 }, c.2.2)

/-- `ConvertJsonStr`. -/
def convertJsonStr (r : HiSysEventRecordC) (heap : Heap json.Double) :
    ℤ × HiSysEventRecordC × Heap json.Double :=
  let c := createCString maxJsonLen r.jsonStr recordObj.asJson heap
  (c.1, { r with jsonStr := c.2.1 }, c.2.2)

/-- `if (int res = ..; res != 0) { return res; }`, and what follows. -/
def onSuccess {α : Type} (c : ℤ × α) (next : α → ℤ × α) : ℤ × α :=
  if c.1 ≠ 0 then c else next c.2

/-- `ConvertRecord` up to the time zone. -/
def convertArrays (r : HiSysEventRecordC) : ℤ × HiSysEventRecordC :=
  onSuccess (convertDomain recordObj r) fun r =>
    onSuccess (convertEventName recordObj r) fun r =>
      convertTimeZone recordObj { r with
        type := recordObj.getEventType
        time := recordObj.getTime }

/-- The numbers behind the time zone. -/
def convertNumbers (r : HiSysEventRecordC) : HiSysEventRecordC :=
  { r with
    pid := recordObj.getPid
    tid := recordObj.getTid
    uid := recordObj.getUid
    traceId := recordObj.getTraceId
    spandId := recordObj.getSpanId
    pspanId := recordObj.getPspanId
    traceFlag := recordObj.getTraceFlag }

/-- `ConvertRecord` from the level on. -/
def convertStrings (r : HiSysEventRecordC) (heap : Heap json.Double) :
    ℤ × HiSysEventRecordC × Heap json.Double :=
  onSuccess (convertLevel recordObj r heap) fun s =>
    onSuccess (convertTag recordObj s.1 s.2) fun s => convertJsonStr recordObj s.1 s.2

/-- `ConvertRecord`: stop at the first member that does not convert. -/
def convertRecord (r : HiSysEventRecordC) (heap : Heap json.Double) :
    ℤ × HiSysEventRecordC × Heap json.Double :=
  let c := convertArrays recordObj r
  if c.1 ≠ 0 then (c.1, c.2, heap)
  else convertStrings recordObj (convertNumbers recordObj c.2) heap

/-- `DeleteRecord`. -/
def deleteRecord {Double : Type} (r : HiSysEventRecordC) (heap : Heap Double) : Heap Double :=
  ((heap.delete r.level).delete r.tag).delete r.jsonStr

/-- `DeleteRecords` of the first records of the array at an address. -/
def deleteRecords {Double : Type} (records : List HiSysEventRecordC) (realRs : ℕ)
    (heap : Heap Double) : Heap Double :=
  (records.foldl (fun heap r => deleteRecord r heap) heap).delete (some realRs)

/-! ## The four deliveries -/

/-- What a callback is passed, each struct with the code of its conversion, and the heap then. -/
structure Call (json : JsonCpp) where
  records : List (ℤ × HiSysEventRecordC)
  heap : Heap json.Double

/-- What a delivery did : whether a callback was called, and the heap afterwards. -/
structure Delivery (json : JsonCpp) where
  call : Option (Call json)
  heap : Heap json.Double

/-- `OnEvent`, with what the struct holds before. The callback is an address. -/
def deliverEvent (record : HiSysEventRecordC) (callback : Option ℕ)
    (sysEvent : Option (HiSysEventRecord json)) (heap : Heap json.Double) : Delivery json :=
  match callback, sysEvent with
  | some _, some sysEvent =>
    let (res, record, heap) := convertRecord sysEvent record heap
    ⟨some ⟨[(res, record)], heap⟩, deleteRecord record heap⟩
  | _, _ => ⟨none, heap⟩

/-- The loop of `OnQuery` : whether it came to its end, and the structs that were initialized. -/
def convertRecords : List (HiSysEventRecord json) → List (ℤ × HiSysEventRecordC) →
    Heap json.Double → Bool × List (ℤ × HiSysEventRecordC) × Heap json.Double
  | [], records, heap => (true, records, heap)
  | sysEvent :: sysEvents, records, heap =>
    match convertRecord sysEvent HiSysEventRecordC.init heap with
    | (res, record, heap) =>
      if res ≠ 0 then (false, records ++ [(res, record)], heap)
      else convertRecords sysEvents (records ++ [(res, record)]) heap

/-- `OnQuery`. -/
def deliverQuery (callback : Option ℕ) (sysEvents : Option (List (HiSysEventRecord json)))
    (heap : Heap json.Double) : Delivery json :=
  match callback with
  | none => ⟨none, heap⟩
  | some _ =>
    match sysEvents with
    | none | some [] => ⟨some ⟨[], heap⟩, heap⟩
    | some (sysEvent :: sysEvents) =>
      match heap.new (.records (sysEvent :: sysEvents).length) with
      | (none, heap) => ⟨none, heap⟩
      | (some data, heap) =>
        match convertRecords (sysEvent :: sysEvents) [] heap with
        | (true, records, heap) =>
          ⟨some ⟨records, heap⟩, deleteRecords (records.map Prod.snd) data heap⟩
        | (false, records, heap) => ⟨none, deleteRecords (records.map Prod.snd) data heap⟩

end RecordConvertor

open RecordConvertor

section deliveries

variable {json : JsonCpp}

/-- `HiSysEventListenerC::OnEvent`, whose struct is initialized. -/
def HiSysEventListenerC.onEvent (onEvent : Option ℕ) (sysEvent : Option (HiSysEventRecord json))
    (heap : Heap json.Double) : Delivery json :=
  deliverEvent HiSysEventRecordC.init onEvent sysEvent heap

/-- `HiSysEventRustListener::OnEvent`, whose struct is what the stack held. -/
def HiSysEventRustListener.onEvent (watcher : Option ℕ) (record : HiSysEventRecordC)
    (sysEvent : Option (HiSysEventRecord json)) (heap : Heap json.Double) : Delivery json :=
  deliverEvent record watcher sysEvent heap

/-- `HiSysEventQueryCallbackC::OnQuery`. -/
def HiSysEventQueryCallbackC.onQuery (onQuery : Option ℕ)
    (sysEvents : Option (List (HiSysEventRecord json))) (heap : Heap json.Double) : Delivery json :=
  deliverQuery onQuery sysEvents heap

/-- `HiSysEventRustQuerier::OnQuery`. -/
def HiSysEventRustQuerier.onQuery (querier : Option ℕ)
    (sysEvents : Option (List (HiSysEventRecord json))) (heap : Heap json.Double) : Delivery json :=
  deliverQuery querier sysEvents heap

end deliveries

/-! ## What a delivery should do -/

namespace RecordConvertor

variable {json : JsonCpp}

/-- A struct shows what the getters of a record return. -/
structure Faithful (heap : Heap json.Double) (recordObj : HiSysEventRecord json)
    (r : HiSysEventRecordC) : Prop where
  domain : ReadsAs r.domain.1 (cString recordObj.getDomain)
  eventName : ReadsAs r.eventName.1 (cString recordObj.getEventName)
  type : r.type = recordObj.getEventType
  time : r.time = recordObj.getTime
  tz : ReadsAs r.tz.1 (cString recordObj.getTimeZone)
  pid : r.pid = recordObj.getPid
  tid : r.tid = recordObj.getTid
  uid : r.uid = recordObj.getUid
  traceId : r.traceId = recordObj.getTraceId
  spandId : r.spandId = recordObj.getSpanId
  pspanId : r.pspanId = recordObj.getPspanId
  traceFlag : r.traceFlag = recordObj.getTraceFlag
  level : HoldsString heap r.level (cString recordObj.getLevel)
  tag : HoldsString heap r.tag (cString recordObj.getTag)
  jsonStr : HoldsString heap r.jsonStr (cString recordObj.asJson)

/-- Each struct that is passed was converted and shows its record. What was allocated is freed
once, and nothing else is. -/
structure Delivers (sysEvents : List (HiSysEventRecord json)) (heap : Heap json.Double)
    (d : Delivery json) : Prop where
  passed : ∀ call, d.call = some call →
    List.Forall₂ (fun e r => r.1 = 0 ∧ Faithful call.heap e r.2) sysEvents call.records
  freed : ∃ l, d.heap.freed = heap.freed ++ l ∧
    l.Perm (List.range' heap.next (d.heap.next - heap.next))

/-- A record that can be converted : its strings fit, and their allocations are granted. -/
structure Convertible (alloc : Alloc) (recordObj : HiSysEventRecord json) : Prop where
  domain : recordObj.getDomain.length ≤ 16
  eventName : recordObj.getEventName.length ≤ 32
  tz : recordObj.getTimeZone.length ≤ 5
  level : recordObj.getLevel.length ≤ maxLen
  tag : recordObj.getTag.length ≤ maxLen
  jsonStr : recordObj.asJson.length ≤ maxJsonLen
  granted : alloc 0 = true ∧ alloc 1 = true ∧ alloc 2 = true

/-! ## The conversion -/

theorem onSuccess_of_ne {α : Type} {c : ℤ × α} {next : α → ℤ × α} (h : c.1 ≠ 0) :
    onSuccess c next = c :=
  if_pos h

theorem onSuccess_of_eq {α : Type} {c : ℤ × α} {next : α → ℤ × α} (h : c.1 = 0) :
    onSuccess c next = next c.2 :=
  if_neg (not_not.2 h)

section conversion

variable (e : HiSysEventRecord json) (r : HiSysEventRecordC)

/-- The arrays and the numbers that are set with them. -/
structure ArraysConverted (e : HiSysEventRecord json) (r : HiSysEventRecordC) : Prop where
  domain : ReadsAs r.domain.1 (cString e.getDomain)
  eventName : ReadsAs r.eventName.1 (cString e.getEventName)
  type : r.type = e.getEventType
  time : r.time = e.getTime
  tz : ReadsAs r.tz.1 (cString e.getTimeZone)

/-- The arrays are filled if each string fits, and otherwise one of them is refused. -/
theorem convertArrays_cases :
    ((e.getDomain.length ≤ 16 ∧ e.getEventName.length ≤ 32 ∧ e.getTimeZone.length ≤ 5) ∧
      (convertArrays e r).1 = 0 ∧ ArraysConverted e (convertArrays e r).2) ∨
    (¬(e.getDomain.length ≤ 16 ∧ e.getEventName.length ≤ 32 ∧ e.getTimeZone.length ≤ 5) ∧
      (convertArrays e r).1 ≠ 0) := by
  have hdomain : (convertDomain e r).1 = 0 ↔ e.getDomain.length ≤ 16 := copyCString_eq_zero_iff
  have hname : ∀ r, (convertEventName e r).1 = 0 ↔ e.getEventName.length ≤ 32 := fun _ =>
    copyCString_eq_zero_iff
  have htz : ∀ r, (convertTimeZone e r).1 = 0 ↔ e.getTimeZone.length ≤ 5 := fun _ =>
    copyCString_eq_zero_iff
  by_cases h1 : e.getDomain.length ≤ 16
  case neg =>
    have hne : (convertDomain e r).1 ≠ 0 := mt hdomain.1 h1
    rw [convertArrays, onSuccess_of_ne hne]
    exact Or.inr ⟨fun h => h1 h.1, hne⟩
  rw [convertArrays, onSuccess_of_eq (hdomain.2 h1)]
  by_cases h2 : e.getEventName.length ≤ 32
  case neg =>
    have hne : (convertEventName e (convertDomain e r).2).1 ≠ 0 := mt (hname _).1 h2
    rw [onSuccess_of_ne hne]
    exact Or.inr ⟨fun h => h2 h.2.1, hne⟩
  rw [onSuccess_of_eq ((hname _).2 h2)]
  by_cases h3 : e.getTimeZone.length ≤ 5
  case neg => exact Or.inr ⟨fun h => h3 h.2.2, mt (htz _).1 h3⟩
  case pos =>
    refine Or.inl ⟨⟨h1, h2, h3⟩, (htz _).2 h3, ?_⟩
    exact ⟨(copyCString_of_le h1).2, (copyCString_of_le h2).2, rfl, rfl, (copyCString_of_le h3).2⟩

theorem ptrs_convertArrays : (convertArrays e r).2.ptrs = r.ptrs := by
  simp only [convertArrays, onSuccess]
  split
  · rfl
  · split
    · rfl
    · rfl

/-- The pointers of a struct that had none, and what was allocated for them. -/
structure Owns (heap : Heap json.Double) (ptrs : List (Option ℕ)) (heap' : Heap json.Double)
    (k : ℕ) : Prop where
  grew : heap.Extends heap' k
  ptrs : ptrs.reduceOption = List.range' heap.next k

/-- The conversion once the level has its block, and once the tag has one, too. -/
theorem convertStrings_of_level {heap heap' : Heap json.Double} {p : Option ℕ}
    (h : newCString maxLen r.level e.getLevel heap = (0, p, heap')) :
    convertStrings e r heap = onSuccess (convertTag e { r with level := p } heap') fun s =>
      convertJsonStr e s.1 s.2 := by
  rw [convertStrings, convertLevel, createCString, h, onSuccess_of_eq rfl]

theorem convertStrings_of_tag {heap heap' heap'' : Heap json.Double} {p p' : Option ℕ}
    (h : newCString maxLen r.level e.getLevel heap = (0, p, heap'))
    (h' : newCString maxLen r.tag e.getTag heap' = (0, p', heap'')) :
    convertStrings e r heap = convertJsonStr e { r with level := p, tag := p' } heap'' := by
  rw [convertStrings_of_level e r h, convertTag, createCString]
  simp only [h']
  rw [onSuccess_of_eq rfl]

/-- All three strings have a block, or one of them has none. -/
theorem convertStrings_cases (heap : Heap json.Double) :
    ((e.getLevel.length ≤ maxLen ∧ e.getTag.length ≤ maxLen ∧ e.asJson.length ≤ maxJsonLen) ∧
      (heap.alloc 0 = true ∧ heap.alloc 1 = true ∧ heap.alloc 2 = true) ∧
      convertStrings e r heap = (0, { r with
        level := some heap.next
        tag := some (heap.next + 1)
        jsonStr := some (heap.next + 2) },
        heap.grants [stringBlock e.getLevel, stringBlock e.getTag, stringBlock e.asJson])) ∨
    (¬((e.getLevel.length ≤ maxLen ∧ e.getTag.length ≤ maxLen ∧ e.asJson.length ≤ maxJsonLen) ∧
        (heap.alloc 0 = true ∧ heap.alloc 1 = true ∧ heap.alloc 2 = true)) ∧
      (convertStrings e r heap).1 ≠ 0 ∧
      (r.ptrs = [none, none, none] → ∃ k, Owns heap (convertStrings e r heap).2.1.ptrs
        (convertStrings e r heap).2.2 k)) := by
  rcases newCString_cases maxLen r.level e.getLevel heap with
    ⟨h1, hg1, heq1⟩ | ⟨hfail, heap', hext, heq1⟩
  case inr =>
    have heq : convertStrings e r heap = (-1, r, heap') := by
      rw [convertStrings, convertLevel, createCString, heq1, onSuccess_of_ne failed_ne_zero]
    rw [heq]
    refine Or.inr ⟨fun h => hfail ⟨h.1.1, h.2.1⟩, failed_ne_zero, fun hr => ⟨0, hext, ?_⟩⟩
    rw [hr]
    rfl
  rcases newCString_cases maxLen r.tag e.getTag (heap.grant (stringBlock e.getLevel)) with
    ⟨h2, hg2, heq2⟩ | ⟨hfail, heap', hext, heq2⟩
  case inr =>
    have heq : convertStrings e r heap = (-1, { r with level := some heap.next }, heap') := by
      rw [convertStrings_of_level e r heq1, convertTag, createCString]
      simp only [heq2]
      rw [onSuccess_of_ne failed_ne_zero]
    rw [heq]
    refine Or.inr ⟨fun h => hfail ⟨h.1.2.1, h.2.2.1⟩, failed_ne_zero, fun hr => ⟨1, ?_, ?_⟩⟩
    · exact (CHeap.Extends.grant heap _).trans hext
    · have htag : r.tag = none := by simp_all [HiSysEventRecordC.ptrs]
      have hjson : r.jsonStr = none := by simp_all [HiSysEventRecordC.ptrs]
      simp [HiSysEventRecordC.ptrs, htag, hjson, List.reduceOption]
  rcases newCString_cases maxJsonLen r.jsonStr e.asJson
      ((heap.grant (stringBlock e.getLevel)).grant (stringBlock e.getTag)) with
    ⟨h3, hg3, heq3⟩ | ⟨hfail, heap', hext, heq3⟩
  case inr =>
    have heq : convertStrings e r heap = (-1, { r with
        level := some heap.next
        tag := some (heap.next + 1) }, heap') := by
      rw [convertStrings_of_tag e r heq1 heq2, convertJsonStr, createCString]
      simp only [heq3]
      rfl
    rw [heq]
    refine Or.inr ⟨fun h => hfail ⟨h.1.2.2, h.2.2.2⟩, failed_ne_zero, fun hr => ⟨2, ?_, ?_⟩⟩
    · exact ((CHeap.Extends.grant heap _).trans (.grant _ _)).trans hext
    · have hjson : r.jsonStr = none := by simp_all [HiSysEventRecordC.ptrs]
      simp [HiSysEventRecordC.ptrs, hjson, List.reduceOption, List.range']
  case inl =>
    refine Or.inl ⟨⟨h1, h2, h3⟩, ⟨hg1, hg2, hg3⟩, ?_⟩
    rw [convertStrings_of_tag e r heq1 heq2, convertJsonStr, createCString]
    simp only [heq3]
    rfl

/-- The pointers of a struct whose three strings were allocated one behind the other. -/
theorem owns_grants (heap : Heap json.Double) (a b c : Block json.Double) :
    Owns heap [some heap.next, some (heap.next + 1), some (heap.next + 2)]
      (heap.grants [a, b, c]) 3 :=
  ⟨((CHeap.Extends.grant heap a).trans (.grant _ b)).trans (.grant _ c), rfl⟩

/-- A record that can be converted is converted, whatever the struct held before. From one that
cannot, nothing is left but what the pointers of the struct show, if they were null. -/
theorem convertRecord_cases (heap : Heap json.Double) :
    (Convertible heap.alloc e ∧ ∃ r' heap', convertRecord e r heap = (0, r', heap') ∧
      Faithful heap' e r' ∧ Owns heap r'.ptrs heap' 3) ∨
    (¬Convertible heap.alloc e ∧ (convertRecord e r heap).1 ≠ 0 ∧
      (r.ptrs = [none, none, none] → ∃ k, Owns heap (convertRecord e r heap).2.1.ptrs
        (convertRecord e r heap).2.2 k)) := by
  rcases convertArrays_cases e r with ⟨⟨h1, h2, h3⟩, hzero, harrays⟩ | ⟨hfail, hne⟩
  case inr =>
    rw [convertRecord, if_pos hne]
    refine Or.inr ⟨fun h => hfail ⟨h.domain, h.eventName, h.tz⟩, hne, fun hr => ⟨0, .refl heap, ?_⟩⟩
    rw [ptrs_convertArrays, hr]
    rfl
  rw [convertRecord, if_neg (not_not.2 hzero)]
  rcases convertStrings_cases e (convertNumbers e (convertArrays e r).2) heap with
    ⟨⟨h4, h5, h6⟩, hgranted, heq⟩ | ⟨hfail, hne, howns⟩
  case inl =>
    refine Or.inl ⟨⟨h1, h2, h3, h4, h5, h6, hgranted⟩, _, _, heq, ?_, owns_grants heap _ _ _⟩
    refine ⟨harrays.domain, harrays.eventName, harrays.type, harrays.time, harrays.tz,
      rfl, rfl, rfl, rfl, rfl, rfl, rfl, ?_, ?_, ?_⟩
    · exact holdsString_cString (by rw [CHeap.blocks_grants]; simp)
    · exact holdsString_cString (by rw [CHeap.blocks_grants]; simp)
    · exact holdsString_cString (by rw [CHeap.blocks_grants]; simp)
  case inr =>
    refine Or.inr ⟨fun h => hfail ⟨⟨h.level, h.tag, h.jsonStr⟩, h.granted⟩, hne, fun hr => howns ?_⟩
    exact (ptrs_convertArrays e r).trans hr

end conversion

/-! ## Events -/

section events

variable {heap heap' : Heap json.Double} {ptrs : List (Option ℕ)} {k : ℕ}

theorem deleteRecord_eq {Double : Type} (r : HiSysEventRecordC) (heap : Heap Double) :
    deleteRecord r heap = heap.deletes r.ptrs :=
  rfl

/-- What a struct owns is freed with it. -/
theorem Owns.freed (h : Owns heap ptrs heap' k) :
    (heap'.deletes ptrs).freed = heap.freed ++ List.range' heap.next k := by
  rw [CHeap.freed_deletes, h.grew.freed, h.ptrs]

theorem Owns.next (h : Owns heap ptrs heap' k) : (heap'.deletes ptrs).next = heap.next + k := by
  rw [CHeap.next_deletes, h.grew.next]

/-- Nothing happens without a callback or an event. -/
theorem delivers_nothing (sysEvents : List (HiSysEventRecord json)) :
    Delivers sysEvents heap ⟨none, heap⟩ where
  passed _ h := by cases h
  freed := ⟨[], by simp, by simp⟩

/-- An event is delivered as it should be exactly if it can be converted. -/
theorem delivers_deliverEvent_iff (record : HiSysEventRecordC) (callback : Option ℕ)
    (sysEvent : Option (HiSysEventRecord json)) :
    Delivers sysEvent.toList heap (deliverEvent record callback sysEvent heap) ↔
      ∀ e, callback ≠ none → sysEvent = some e → Convertible heap.alloc e := by
  cases callback with
  | none =>
    exact iff_of_true (delivers_nothing _) fun _ h => absurd rfl h
  | some cb =>
    cases sysEvent with
    | none =>
      refine iff_of_true (delivers_nothing _) fun _ _ h => ?_
      cases h
    | some e =>
      have hforall : (∀ e', some cb ≠ none → some e = some e' → Convertible heap.alloc e') ↔
          Convertible heap.alloc e := by simp
      rw [hforall]
      rcases convertRecord_cases e record heap with
        ⟨hconv, r', heap', heq, hfaithful, howns⟩ | ⟨hconv, hne, -⟩
      case inl =>
        refine iff_of_true ⟨fun call hcall => ?_, ?_⟩ hconv
        · simp only [deliverEvent, heq, Option.some.injEq] at hcall
          subst hcall
          exact .cons ⟨rfl, hfaithful⟩ .nil
        · simp only [deliverEvent, heq, deleteRecord_eq, howns.freed, howns.next]
          exact ⟨_, rfl, by rw [Nat.add_sub_cancel_left]⟩
      case inr =>
        refine iff_of_false (fun h => hne ?_) hconv
        rcases h.passed _ rfl with _ | ⟨hfirst, -⟩
        exact hfirst.1

end events

/-! ## Batches -/

section batches

variable {heap start : Heap json.Double}

/-- The structs that were initialized so far, and the pointers in them. -/
def structPtrs (records : List (ℤ × HiSysEventRecordC)) : List (Option ℕ) :=
  records.flatMap fun r => r.2.ptrs

theorem HoldsString.mono {heap' : Heap json.Double} {k : ℕ} {p : Option ℕ} {s : Bytes}
    (h : heap.Extends heap' k) (hs : HoldsString heap p s) : HoldsString heap' p s := by
  obtain ⟨a, bytes, hp, hblock, hreads⟩ := hs
  exact ⟨a, bytes, hp, h.keeps _ _ hblock, hreads⟩

theorem Faithful.mono {heap' : Heap json.Double} {k : ℕ} {e : HiSysEventRecord json}
    {r : HiSysEventRecordC} (h : heap.Extends heap' k) (hr : Faithful heap e r) :
    Faithful heap' e r :=
  { hr with
    level := HoldsString.mono h hr.level
    tag := HoldsString.mono h hr.tag
    jsonStr := HoldsString.mono h hr.jsonStr }

theorem Owns.append {heap' heap'' : Heap json.Double} {ptrs ptrs' : List (Option ℕ)} {k k' : ℕ}
    (h : Owns heap ptrs heap' k) (h' : Owns heap' ptrs' heap'' k') :
    Owns heap (ptrs ++ ptrs') heap'' (k + k') where
  grew := h.grew.trans h'.grew
  ptrs := by
    rw [List.reduceOption_append, h.ptrs, h'.ptrs, h.grew.next]
    exact List.range'_append_1

/-- The structs own what was allocated since the start. If the loop comes to its end, each shows its
record. -/
theorem convertRecords_spec : ∀ (sysEvents : List (HiSysEventRecord json))
    {done : List (HiSysEventRecord json)} {records : List (ℤ × HiSysEventRecordC)}
    {heap : Heap json.Double} {k : ℕ}, Owns start (structPtrs records) heap k →
      List.Forall₂ (fun e r => r.1 = 0 ∧ Faithful heap e r.2) done records →
      ∃ ok records' heap' k', convertRecords sysEvents records heap = (ok, records', heap') ∧
        Owns start (structPtrs records') heap' k' ∧
        (ok = true → List.Forall₂ (fun e r => r.1 = 0 ∧ Faithful heap' e r.2)
          (done ++ sysEvents) records')
  | [], done, records, heap, k, howns, hdone =>
    ⟨true, records, heap, k, rfl, howns, fun _ => by rwa [List.append_nil]⟩
  | e :: sysEvents, done, records, heap, k, howns, hdone => by
    rcases convertRecord_cases e HiSysEventRecordC.init heap with
      ⟨-, r', heap', heq, hfaithful, hstep⟩ | ⟨-, hne, hstep⟩
    case inl =>
      have hnext : List.Forall₂ (fun e r => r.1 = 0 ∧ Faithful heap' e r.2) (done ++ [e])
          (records ++ [(0, r')]) :=
        List.rel_append (hdone.imp fun _ _ h => ⟨h.1, h.2.mono hstep.grew⟩)
          (.cons ⟨rfl, hfaithful⟩ .nil)
      have hptrs : structPtrs (records ++ [(0, r')]) = structPtrs records ++ r'.ptrs := by
        simp [structPtrs]
      obtain ⟨ok, records', heap'', k', hrest, howns', hall⟩ :=
        convertRecords_spec sysEvents (hptrs ▸ howns.append hstep) hnext
      refine ⟨ok, records', heap'', k', ?_, howns', fun h => by simpa using hall h⟩
      rw [convertRecords, heq]
      exact hrest
    case inr =>
      obtain ⟨k', hstep⟩ := hstep rfl
      refine ⟨false, _, _, k + k', by rw [convertRecords]; exact if_pos hne, ?_, by simp⟩
      have hptrs : ∀ c : ℤ × HiSysEventRecordC,
          structPtrs (records ++ [c]) = structPtrs records ++ c.2.ptrs := by simp [structPtrs]
      rw [hptrs]
      exact howns.append hstep

theorem deleteRecords_eq : ∀ (records : List (ℤ × HiSysEventRecordC)) (data : ℕ)
    (heap : Heap json.Double), deleteRecords (records.map Prod.snd) data heap =
      (heap.deletes (structPtrs records)).delete (some data)
  | [], _, _ => rfl
  | r :: records, data, heap => deleteRecords_eq records data (deleteRecord r.2 heap)

/-- The array of the structs is freed behind their strings. -/
theorem freed_deleteRecords {heap' : Heap json.Double} {block : Block json.Double}
    {records : List (ℤ × HiSysEventRecordC)} {k : ℕ}
    (h : Owns (heap.grant block) (structPtrs records) heap' k) :
    ∃ l, (deleteRecords (records.map Prod.snd) heap.next heap').freed = heap.freed ++ l ∧
      l.Perm (List.range' heap.next
        ((deleteRecords (records.map Prod.snd) heap.next heap').next - heap.next)) := by
  refine ⟨List.range' (heap.next + 1) k ++ [heap.next], ?_, ?_⟩
  · rw [deleteRecords_eq]
    calc ((heap'.deletes (structPtrs records)).delete (some heap.next)).freed
        = (heap'.deletes (structPtrs records)).freed ++ [heap.next] := rfl
      _ = heap.freed ++ List.range' (heap.next + 1) k ++ [heap.next] := by rw [h.freed]; rfl
      _ = _ := List.append_assoc _ _ _
  · have hnext :
        (deleteRecords (records.map Prod.snd) heap.next heap').next - heap.next = k + 1 := by
      rw [deleteRecords_eq, CHeap.next_delete, h.next, CHeap.next_grant]
      omega
    rw [hnext, List.range'_succ]
    exact List.perm_append_singleton _ _

/-- A batch is delivered as it should be in any case. -/
theorem delivers_deliverQuery (callback : Option ℕ)
    (sysEvents : Option (List (HiSysEventRecord json))) :
    Delivers (sysEvents.getD []) heap (deliverQuery callback sysEvents heap) := by
  cases callback with
  | none => exact delivers_nothing _
  | some cb =>
    have hempty : Delivers ([] : List (HiSysEventRecord json)) heap ⟨some ⟨[], heap⟩, heap⟩ :=
      ⟨fun call h => (by cases h; exact .nil), [], by simp, by simp⟩
    match sysEvents with
    | none => exact hempty
    | some [] => exact hempty
    | some (e :: sysEvents) =>
      cases hnext : heap.alloc.next with
      | false =>
        simp only [deliverQuery, CHeap.new_of_not_next _ _ hnext]
        exact ⟨fun call h => (by cases h), [], by simp [CHeap.deny], by simp⟩
      | true =>
        have hnil : Owns (heap.grant (.records (e :: sysEvents).length)) (structPtrs [])
            (heap.grant (.records (e :: sysEvents).length)) 0 := ⟨.refl _, rfl⟩
        obtain ⟨ok, records, heap', k, heq, howns, hall⟩ :=
          convertRecords_spec (e :: sysEvents) hnil .nil
        have hfreed := freed_deleteRecords howns
        simp only [deliverQuery, CHeap.new_of_next _ _ hnext, heq]
        cases ok with
        | true => exact ⟨fun call h => (by cases h; exact hall rfl), hfreed⟩
        | false => exact ⟨fun call h => (by cases h), hfreed⟩

end batches

end RecordConvertor

/-! ## The four callbacks -/

section callbacks

variable {json : JsonCpp}

/-- A batch is always delivered as it should be, an event exactly if it can be converted, whatever
the struct holds before. -/
theorem delivers_iff (heap : Heap json.Double) :
    (∀ onEvent sysEvent, Delivers sysEvent.toList heap
        (HiSysEventListenerC.onEvent onEvent sysEvent heap) ↔
      ∀ e, onEvent ≠ none → sysEvent = some e → Convertible heap.alloc e) ∧
    (∀ watcher record sysEvent, Delivers sysEvent.toList heap
        (HiSysEventRustListener.onEvent watcher record sysEvent heap) ↔
      ∀ e, watcher ≠ none → sysEvent = some e → Convertible heap.alloc e) ∧
    (∀ onQuery sysEvents, Delivers (sysEvents.getD []) heap
      (HiSysEventQueryCallbackC.onQuery onQuery sysEvents heap)) ∧
    (∀ querier sysEvents, Delivers (sysEvents.getD []) heap
      (HiSysEventRustQuerier.onQuery querier sysEvents heap)) := by
  refine ⟨?_, ?_, ?_, ?_⟩
  · exact fun onEvent sysEvent => delivers_deliverEvent_iff _ onEvent sysEvent
  · exact fun watcher record sysEvent => delivers_deliverEvent_iff record watcher sysEvent
  · exact fun onQuery sysEvents => delivers_deliverQuery onQuery sysEvents
  · exact fun querier sysEvents => delivers_deliverQuery querier sysEvents

/-- The text `domain_ : "A..A"` as an object, with a domain of 17 bytes. -/
abbrev longText : Bytes :=
  [123, 34, 100, 111, 109, 97, 105, 110, 95, 34, 58, 34] ++ List.replicate 17 65 ++ [34, 125]

/-- What jsoncpp makes of it. -/
abbrev longDomain : JsonCpp :=
  JsonCpp.reference [(longText,
    .object [([100, 111, 109, 97, 105, 110, 95], .string (List.replicate 17 65))])]

/-- A heap with nothing in it, where every allocation is granted. -/
abbrev longHeap : Heap longDomain.Double :=
  ⟨Alloc.always, 1, fun _ => none, 0, [], fun _ _ => rfl⟩

/-- The C callback is passed a struct without a text. The Rust callback is passed what the stack
held, and a pointer that it held is freed. -/
theorem not_delivers : ∃ e : HiSysEventRecord longDomain,
    HiSysEventRecord.new longDomain longText = some e ∧
    (HiSysEventListenerC.onEvent (some 1) (some e) longHeap).call =
      some ⟨[(-1, HiSysEventRecordC.init)], longHeap⟩ ∧
    ¬Delivers [e] longHeap (HiSysEventListenerC.onEvent (some 1) (some e) longHeap) ∧
    (HiSysEventRustListener.onEvent (some 1) { HiSysEventRecordC.init with level := some 99 }
      (some e) longHeap).heap.freed = [99] := by
  refine ⟨_, rfl, rfl, fun h => ?_, rfl⟩
  rcases h.passed _ rfl with _ | ⟨hfirst, -⟩
  obtain ⟨a, _, hnull, -⟩ := hfirst.2.jsonStr
  cases hnull

end callbacks

end HiSysEvent
