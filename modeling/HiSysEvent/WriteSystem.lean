import HiSysEvent.Conservation
import HiSysEvent.ReturnCode

/-!
# Writers in parallel

Any number of threads call `HiSysEvent::Write` at any time. They share the records of the limiter
and the retry queue, and nothing else : a call reads its record (`get`), writes it back and is
accepted or refused (`put`), builds its block on its own (`build`), and takes the steps of
`SendData` (`send`). `Step` interleaves them.

No allocation fails. Nothing is made up, mixed or doubled (`endToEnd_of_reachable`). The blocks
handed over are those of accepted calls, at most one for each call, and the receiver reads from a
block whose type is in range what its call passed, as far as it is accepted. Every accepted call
whose block is not handed over was rejected with an error, is still on its way, is queued, or
its block was dropped from the full queue.
-/

set_option linter.unusedSectionVars false

namespace HiSysEvent

open Occupancy StringFilter

/-! ## Calls -/

/-- A call of `Write` with its arguments. -/
structure WriteRequest where
  param : ControlParam
  callerInfo : CallerInfo
  process : Process
  domain : Bytes
  eventName : Bytes
  type : ℤ
  keyValues : List (Bytes × Value)

namespace WriteRequest

/-- The key of the call site. -/
def key (k : CharKind) (r : WriteRequest) : UInt64 :=
  concatenateInfoAsKey k r.eventName r.callerInfo.func r.callerInfo.line

/-- The limiter accepts the call after it has read the record. -/
def passes (r : WriteRequest) (record : EventWroteRecord) : Bool :=
  admits r.param record r.callerInfo.timeStamp && r.callerInfo.timeStamp ≠ invalidTimeStamp

/-- The event of the call, with every allocation granted. -/
def event (k : CharKind) (r : WriteRequest) : EventBase :=
  (prepare k r.process r.domain r.eventName r.type r.callerInfo.timeStamp
    (innerWrite k r.keyValues) Alloc.always).1

/-- The block `SendSysEvent` hands to `SendData`, finished a second time. An event in error has
none. -/
def rawData (k : CharKind) (r : WriteRequest) : Option RawData :=
  if isError (r.event k) then none
  else
    match (r.event k).getEventRawData Alloc.always with
    | (none, _, _) => none
    | (some _, e, a) => (e.getEventRawData a).1

/-- The content of the block. -/
def block (k : CharKind) (r : WriteRequest) : Bytes :=
  (r.rawData k).elim [] RawData.content

end WriteRequest

/-! ## Steps -/

/-- Where a thread is in `Write`. -/
inductive Stage
  | idle
  | checking (r : WriteRequest) (record : EventWroteRecord)
  | building (r : WriteRequest)
  | sending (r : WriteRequest)

/-- The shared state and the threads, with the calls that were accepted, those whose block went to
`SendData`, and the accepted ones that ended in an error before. -/
structure Writing (ι : Type) where
  cache : EventWroteLruCache
  stage : ι → Stage
  writers : Transport.Writers ι
  accepted : List WriteRequest
  submitted : List WriteRequest
  rejected : List WriteRequest

variable {ι : Type} [DecidableEq ι]

namespace Writing

/-- A process that has written nothing. -/
def init : Writing ι :=
  ⟨.new lruCacheDefaultSize, fun _ => .idle, .init, [], [], []⟩

/-- Set the stage of a call. -/
def setStage (s : Writing ι) (i : ι) (stage : Stage) : Writing ι :=
  { s with stage := fun j => if j = i then stage else s.stage j }

end Writing

/-- A step of a thread inside `SendData`. -/
structure Within (i : ι) (w w' : Transport.Writers ι) : Prop where
  step : Transport.Step w w'
  running : w.pc i ≠ .idle
  moves : w'.pc i ≠ w.pc i
  others : ∀ j ≠ i, w'.pc j = w.pc j

/-- The label of a step. -/
inductive Move (ι : Type)
  | get (i : ι) (r : WriteRequest)
  | put (i : ι)
  | build (i : ι)
  | send (i : ι)

namespace Writing

/-- `Get` of the record, which moves its key to the front. -/
def read (k : CharKind) (s : Writing ι) (i : ι) (r : WriteRequest) : Writing ι :=
  { s with cache := (s.cache.get (r.key k)).2 }.setStage i
    (.checking r (s.cache.get (r.key k)).1)

/-- `Put` of the record that follows the one read. -/
def write (k : CharKind) (s : Writing ι) (r : WriteRequest) (record : EventWroteRecord) :
    Writing ι :=
  { s with cache := s.cache.put (r.key k) (nextRecord r.param record r.callerInfo.timeStamp) }

/-- One step of a thread. -/
inductive Step (k : CharKind) : Writing ι → Move ι → Writing ι → Prop
  | get {s : Writing ι} {i : ι} (r : WriteRequest) (hi : s.stage i = .idle) :
    Step k s (.get i r) (s.read k i r)
  | refuse {s : Writing ι} {i : ι} {r : WriteRequest} {record : EventWroteRecord}
    (hi : s.stage i = .checking r record) (hr : r.passes record = false) :
    Step k s (.put i) ((s.write k r record).setStage i .idle)
  | accept {s : Writing ι} {i : ι} {r : WriteRequest} {record : EventWroteRecord}
    (hi : s.stage i = .checking r record) (hr : r.passes record = true) :
    Step k s (.put i)
      ({ s.write k r record with accepted := s.accepted ++ [r] }.setStage i (.building r))
  | error {s : Writing ι} {i : ι} {r : WriteRequest} (hi : s.stage i = .building r)
    (hd : r.rawData k = none) :
    Step k s (.build i) ({ s with rejected := s.rejected ++ [r] }.setStage i .idle)
  | empty {s : Writing ι} {i : ι} {r : WriteRequest} {d : RawData} (hi : s.stage i = .building r)
    (hd : r.rawData k = some d) (he : d.isEmpty = true) :
    Step k s (.build i) ({ s with
      writers := s.writers.return_ i d errEmptyEvent
      rejected := s.rejected ++ [r] }.setStage i .idle)
  | overSize {s : Writing ι} {i : ι} {r : WriteRequest} {d : RawData} (hi : s.stage i = .building r)
    (hd : r.rawData k = some d) (he : d.isEmpty = false) (hlen : d.len > maxDataSize) :
    Step k s (.build i) ({ s with
      writers := s.writers.return_ i d errOverSize
      rejected := s.rejected ++ [r] }.setStage i .idle)
  | start {s : Writing ι} {i : ι} {r : WriteRequest} {d : RawData} (hi : s.stage i = .building r)
    (hd : r.rawData k = some d) (he : d.isEmpty = false) (hlen : ¬d.len > maxDataSize) :
    Step k s (.build i) ({ s with
      writers := { s.writers.setPc i (.retrying d) with
        submitted := s.writers.submitted ++ [d.content] }
      submitted := s.submitted ++ [r] }.setStage i (.sending r))
  | send {s : Writing ι} {i : ι} {r : WriteRequest} {w : Transport.Writers ι}
    (hi : s.stage i = .sending r) (hw : Within i s.writers w) (hrun : w.pc i ≠ .idle) :
    Step k s (.send i) { s with writers := w }
  | return_ {s : Writing ι} {i : ι} {r : WriteRequest} {w : Transport.Writers ι}
    (hi : s.stage i = .sending r) (hw : Within i s.writers w) (hdone : w.pc i = .idle) :
    Step k s (.send i) ({ s with writers := w }.setStage i .idle)

/-- A state the threads can reach. -/
def Reachable (k : CharKind) (s : Writing ι) : Prop :=
  Relation.ReflTransGen (fun s s' => ∃ a, Step k s a s') init s

end Writing

/-! ## The block of a call -/

namespace WriteRequest

variable {k : CharKind}

/-- The domain and the event's name pass their check. -/
def ValidNames (k : CharKind) (r : WriteRequest) : Prop :=
  isValidName k r.domain maxDomainLength = true ∧
    isValidName k r.eventName maxEventNameLength = true

/-- The receiver reads what the call passed. -/
def Received (k : CharKind) (r : WriteRequest) (x : Bytes) : Prop :=
  ∃ header, EventBlock.read.run x = some
      (⟨x.length % 2 ^ 32, header, r.process.hitraceId, accepted k 0 r.keyValues⟩, []) ∧
    HeaderOf r.process r.domain r.eventName r.type r.callerInfo.timeStamp header

/-- An event with an invalid name is in error. -/
theorem event_error {r : WriteRequest} (h : ¬r.ValidNames k) :
    prepare k r.process r.domain r.eventName r.type r.callerInfo.timeStamp
        (innerWrite k r.keyValues) Alloc.always = (r.event k, Alloc.always) ∧
      isError (r.event k) = true := by
  have herr : isError (EventBase.new k r.domain r.eventName r.type r.callerInfo.timeStamp) =
      true := by
    rw [isError_eq_true]
    by_cases hd : isValidName k r.domain maxDomainLength = true
    · have hn : isValidName k r.eventName maxEventNameLength = false := by
        rw [← Bool.not_eq_true]
        exact fun hn => h ⟨hd, hn⟩
      rw [EventBase.retCode_new_eventName hd hn]
      decide
    · rw [EventBase.retCode_new_domain (Bool.not_eq_true _ ▸ hd)]
      decide
  rw [event, prepare]
  simp only [herr, if_true, and_self]

/-- With valid names the event holds the accepted parameters. -/
theorem event_spec {r : WriteRequest} (h : r.ValidNames k) :
    prepare k r.process r.domain r.eventName r.type r.callerInfo.timeStamp
        (innerWrite k r.keyValues) Alloc.always = (r.event k, Alloc.always) ∧
      isError (r.event k) = false ∧ (r.event k).Holds (accepted k 0 r.keyValues) ∧
      (r.event k).header =
        ((EventBase.new k r.domain r.eventName r.type r.callerInfo.timeStamp).setProcess
          r.process).header ∧
      (r.event k).trace = r.process.hitraceId := by
  obtain ⟨hd, hn⟩ := h
  have hst := EventBase.new_started hd hn r.type r.callerInfo.timeStamp
  obtain ⟨e, hprep, hholds, hret, hhd, htr⟩ :=
    prepare_eq hd hn r.process r.type r.callerInfo.timeStamp (innerWrite k r.keyValues)
  obtain ⟨e', hw, hhd', htr', hholds', hr, -⟩ :=
    writeAll_holds k (r.keyValues.map some) hholds hret.ge (Nat.zero_le _)
  rw [← innerWrite_eq_writeAll] at hw
  rw [List.nil_append, List.length_nil, valid_map_some] at hholds'
  rw [hw] at hprep
  have hevent : r.event k = e' := by rw [event, hprep]
  rw [hevent]
  refine ⟨hprep, ?_, hholds', hhd'.trans hhd, ?_⟩
  · rw [← Bool.not_eq_true, isError_eq_true]
    omega
  · rw [← EventBase.trace_setProcess hst.isTraceOpened r.process, EventBase.trace,
      EventBase.trace, hhd', hhd, htr', htr]

theorem rawData_eq_none {r : WriteRequest} (h : ¬r.ValidNames k) : r.rawData k = none := by
  rw [rawData, if_pos (event_error h).2]

/-- With valid names the block is the encoded event, and it can be read back. -/
theorem rawData_spec {r : WriteRequest} (h : r.ValidNames k) :
    ∃ d, r.rawData k = some d ∧ d.Valid ∧ d.content ≠ [] ∧
      (1 ≤ r.type → r.type ≤ 4 → r.Received k d.content) := by
  obtain ⟨-, herror, hholds, hheader, htrace⟩ := event_spec h
  obtain ⟨d₁, hget₁, -, -, h₁⟩ := EventBase.getEventRawData_holds hholds Alloc.always
  rw [hget₁] at h₁
  obtain ⟨d, hget, hv, hcont, -⟩ := EventBase.getEventRawData_holds h₁ Alloc.always
  have hcnt : (accepted k 0 r.keyValues).length < 2 ^ 32 := by
    have := length_accepted k 0 r.keyValues (Nat.zero_le _)
    exact lt_of_le_of_lt (by omega) (show maxParamNumber < 2 ^ 32 by decide)
  have hblock : EventBase.block { r.event k with rawData := some d₁ } (accepted k 0 r.keyValues) =
      ⟨d.content.length % 2 ^ 32, (r.event k).header, r.process.hitraceId,
        accepted k 0 r.keyValues⟩ := by
    rw [hcont, EventBase.length_encode_block, EventBase.block, ← htrace]
    rfl
  refine ⟨d, ?_, hv, fun h0 => ?_, fun h1 h4 => ⟨(r.event k).header, ?_, ?_⟩⟩
  · rw [rawData, herror]
    simp only [Bool.false_eq_true, if_false, hget₁, hget]
  · have hlen := congrArg List.length (hcont.symm.trans h0)
    rw [EventBase.length_encode_block, List.length_nil] at hlen
    omega
  · have hread := EventBlock.reads_read
      (EventBase.block_wellFormed { r.event k with rawData := some d₁ } hcnt) []
    rw [List.append_nil, ← hcont, hblock] at hread
    exact hread
  · rw [hheader]
    exact headerOf_setProcess
      (EventBase.new_started h.1 h.2 r.type r.callerInfo.timeStamp)
      (not_mem_zero_of_isValidName h.1) (not_mem_zero_of_isValidName h.2) h1 h4 r.process

/-- What `SendSysEvent` leaves when every allocation is granted. -/
theorem sendSysEvent_event {r : WriteRequest} {d : RawData} (h : r.rawData k = some d)
    {t : Transport} (ht : t.alloc = Alloc.always) : isError (r.event k) = false ∧
      (sendSysEvent (r.event k) t).2 = (t.sendData d).2 := by
  have hnames : r.ValidNames k := by
    by_contra hnot
    rw [rawData_eq_none hnot] at h
    cases h
  obtain ⟨-, herror, hholds, -, -⟩ := event_spec hnames
  obtain ⟨d₁, hget₁, -, -, h₁⟩ := EventBase.getEventRawData_holds hholds Alloc.always
  rw [hget₁] at h₁
  obtain ⟨d₂, hget, -, -, -⟩ := EventBase.getEventRawData_holds h₁ Alloc.always
  rw [rawData, herror] at h
  simp only [Bool.false_eq_true, if_false, hget₁, hget, Option.some.injEq] at h
  have hself : { t with alloc := Alloc.always } = t := by rw [← ht]
  refine ⟨herror, ?_⟩
  simp only [sendSysEvent, ht, hget₁, hget, hself, h]
  split_ifs <;> rfl

theorem rawData_some {r : WriteRequest} {d : RawData} (h : r.rawData k = some d) :
    d.Valid ∧ d.content ≠ [] ∧ r.block k = d.content ∧
      (1 ≤ r.type → r.type ≤ 4 → r.Received k d.content) := by
  have hnames : r.ValidNames k := by
    by_contra hnot
    rw [rawData_eq_none hnot] at h
    cases h
  obtain ⟨d', hd', hv, hne, hread⟩ := rawData_spec hnames
  obtain rfl : d' = d := Option.some.inj (hd'.symm.trans h)
  exact ⟨hv, hne, by rw [block, h, Option.elim], hread⟩

end WriteRequest

namespace Stage

/-- The accepted call whose block is being built. -/
def buildingCall : Stage → Option WriteRequest
  | .building r => some r
  | _ => none

/-- The call inside `SendData`. -/
def sendingCall : Stage → Option WriteRequest
  | .sending r => some r
  | _ => none

end Stage

/-- Inside `SendData` no block is submitted. -/
theorem Within.submitted {i : ι} {w w' : Transport.Writers ι} (h : Within i w w') :
    w'.submitted = w.submitted := by
  obtain ⟨hstep, hrun, hmoves, hothers⟩ := h
  cases hstep with
  | @start j d hv hj hd hlen =>
    by_cases hji : j = i
    · exact absurd (hji ▸ hj) hrun
    · have hpc := hothers j hji
      rw [hj] at hpc
      have hself : (w.setPc j (.retrying d)).pc j = .retrying d := Transport.pc_setPc w j _
      exact absurd (hself.symm.trans hpc) (by simp)
  | _ => rfl

namespace Writing

variable {k : CharKind} {s s' : Writing ι} {a : Move ι} {i : ι}

/-- The calls that are building a block. -/
abbrev Building (stage : ι → Stage) (l : List (ι × WriteRequest)) : Prop :=
  Lists (fun i => (stage i).buildingCall) l

/-- An event in error, or a block over the limit of the transport. -/
def Unfit (k : CharKind) (r : WriteRequest) : Prop :=
  ¬r.ValidNames k ∨ maxDataSize < (r.block k).length

/-- The threads act on the retry queue as `SendData` does, with the blocks of accepted calls. -/
structure Coherent (k : CharKind) (s : Writing ι) (l : List (ι × WriteRequest)) : Prop where
  writers : Transport.Reachable s.writers
  building : Building s.stage l
  idle : ∀ i, (s.stage i).sendingCall = none → s.writers.pc i = .idle
  blocks : s.writers.submitted = s.submitted.map (WriteRequest.block k)
  reads : ∀ r ∈ s.submitted, 1 ≤ r.type → r.type ≤ 4 → r.Received k (r.block k)
  accepted : s.accepted.Perm (s.submitted ++ s.rejected ++ l.map Prod.snd)
  rejected : ∀ r ∈ s.rejected, Unfit k r

theorem coherent_init : Coherent k (init : Writing ι) [] where
  writers := .refl
  building := lists_nil fun _ => rfl
  idle := fun _ _ => rfl
  blocks := rfl
  reads := by simp [init]
  accepted := .nil
  rejected := by simp [init]

/-- The threads but one are where they were. -/
theorem stage_of_ne (s : Writing ι) {i j : ι} (hj : j ≠ i) (stage : Stage) :
    (s.setStage i stage).stage j = s.stage j :=
  if_neg hj

theorem stage_self (s : Writing ι) (i : ι) (stage : Stage) :
    (s.setStage i stage).stage i = stage :=
  if_pos rfl

/-- A thread outside `SendData` goes on outside. -/
theorem idle_setStage {stage : Stage} {w w' : Transport.Writers ι}
    (h : ∀ i, (s.stage i).sendingCall = none → w.pc i = .idle)
    (hw : ∀ j ≠ i, w'.pc j = w.pc j) (hi : w'.pc i = .idle) :
    ∀ j, ((s.setStage i stage).stage j).sendingCall = none → w'.pc j = .idle := by
  intro j hj
  by_cases hji : j = i
  · rw [hji, hi]
  · rw [stage_of_ne s hji] at hj
    rw [hw j hji, h j hj]

theorem building_congr {l : List (ι × WriteRequest)} (h : Building s.stage l) {stage : Stage}
    (hi : stage.buildingCall = (s.stage i).buildingCall) :
    Building (s.setStage i stage).stage l := by
  refine h.congr fun j => ?_
  by_cases hj : j = i
  · subst hj
    rw [stage_self, hi]
  · rw [stage_of_ne s hj]

/-- A call that has built its block. -/
theorem building_leave {l : List (ι × WriteRequest)} (h : Building s.stage l) {r : WriteRequest}
    (stage : Stage) (hi : s.stage i = .building r) (hstage : stage.buildingCall = none) :
    ∃ rest, l.Perm ((i, r) :: rest) ∧ Building (s.setStage i stage).stage rest :=
  h.leave (by rw [hi]; rfl) (by rw [stage_self, hstage])
    fun j hj => by rw [stage_of_ne s hj]

/-- The call that has built its block is logged with the others. -/
theorem perm_built {all xs ys : List WriteRequest} (xs' ys' : List WriteRequest)
    {l rest : List (ι × WriteRequest)} {r : WriteRequest}
    (h : all.Perm (xs ++ ys ++ l.map Prod.snd)) (hl : l.Perm ((i, r) :: rest))
    (hlog : (xs' ++ ys').Perm (r :: (xs ++ ys))) :
    all.Perm (xs' ++ ys' ++ rest.map Prod.snd) := by
  have hmap : (l.map Prod.snd).Perm (r :: rest.map Prod.snd) := hl.map _
  have hmiddle : (xs ++ ys ++ r :: rest.map Prod.snd).Perm
      (r :: (xs ++ ys) ++ rest.map Prod.snd) := List.perm_middle
  exact (h.trans (hmap.append_left _)).trans (hmiddle.trans (hlog.symm.append_right _))

/-- A call ends in an error before its block is submitted. -/
theorem Coherent.reject {l : List (ι × WriteRequest)} (h : Coherent k s l) {r : WriteRequest}
    (hi : s.stage i = .building r) (hr : Unfit k r) {w : Transport.Writers ι}
    (hw : Transport.Reachable w) (hsub : w.submitted = s.writers.submitted)
    (hpc : w.pc = s.writers.pc) :
    ∃ rest, Coherent k ({ s with writers := w, rejected := s.rejected ++ [r] }.setStage i .idle)
      rest := by
  obtain ⟨rest, hl, hrest⟩ := building_leave h.building .idle hi rfl
  have hidle : s.writers.pc i = .idle := h.idle i (by rw [hi]; rfl)
  exact ⟨rest, {
    writers := hw
    building := hrest
    idle := idle_setStage (s := s)
      (fun j hj => (congrFun hpc j).trans (h.idle j hj)) (fun _ _ => rfl)
      ((congrFun hpc i).trans hidle)
    blocks := hsub.trans h.blocks
    reads := h.reads
    accepted := by
      refine perm_built s.submitted (s.rejected ++ [r]) h.accepted hl ?_
      rw [← List.append_assoc]
      exact List.perm_append_singleton _ _
    rejected := fun q hq => by
      rcases List.mem_append.1 hq with hq | hq
      · exact h.rejected q hq
      · rwa [List.mem_singleton.1 hq] }⟩

/-- Every step keeps the threads coherent. -/
theorem Coherent.step {l : List (ι × WriteRequest)} (h : Coherent k s l) (hstep : Step k s a s') :
    ∃ l', Coherent k s' l' := by
  cases hstep with
  | @get i r hi =>
    refine ⟨l, { h with building := ?_, idle := ?_ }⟩
    · exact building_congr h.building (by rw [hi]; rfl)
    · exact idle_setStage h.idle (fun _ _ => rfl) (h.idle i (by rw [hi]; rfl))
  | @refuse i r record hi hr =>
    refine ⟨l, { h with building := ?_, idle := ?_ }⟩
    · exact building_congr h.building (by rw [hi]; rfl)
    · exact idle_setStage h.idle (fun _ _ => rfl) (h.idle i (by rw [hi]; rfl))
  | @accept i r record hi hr =>
    refine ⟨(i, r) :: l, { h with building := ?_, idle := ?_, accepted := ?_ }⟩
    · exact h.building.take (by rw [hi]; rfl) (by rw [stage_self]; rfl)
        fun j hj => congrArg Stage.buildingCall (stage_of_ne s hj (.building r))
    · exact idle_setStage h.idle (fun _ _ => rfl) (h.idle i (by rw [hi]; rfl))
    · exact (h.accepted.append_right [r]).trans (by
        rw [List.append_assoc]
        exact (List.perm_append_singleton r _).append_left _)
  | @error i r hi hd =>
    have hunfit : Unfit k r := Or.inl fun hnames => by
      obtain ⟨d, hsome, -⟩ := WriteRequest.rawData_spec hnames
      rw [hd] at hsome
      cases hsome
    exact h.reject hi hunfit h.writers rfl rfl
  | @empty i r d hi hd he =>
    obtain ⟨hv, hne, -⟩ := WriteRequest.rawData_some hd
    exact absurd ((Transport.isEmpty_iff hv).1 he) hne
  | @overSize i r d hi hd he hlen =>
    obtain ⟨hv, -, hblock, -⟩ := WriteRequest.rawData_some hd
    have hidle : s.writers.pc i = .idle := h.idle i (by rw [hi]; rfl)
    refine h.reject hi (Or.inr ?_) (h.writers.tail (.overSize hidle he hlen)) rfl ?_
    · rw [hblock, hv.length_content]
      exact hlen
    · exact Transport.pc_return_ hidle (fun _ _ => rfl) d errOverSize
  | @start i r d hi hd he hlen =>
    obtain ⟨hv, -, hblock, hread⟩ := WriteRequest.rawData_some hd
    have hidle : s.writers.pc i = .idle := h.idle i (by rw [hi]; rfl)
    obtain ⟨rest, hl, hrest⟩ := building_leave h.building (.sending r) hi rfl
    exact ⟨rest, {
      writers := h.writers.tail (.start hv hidle he hlen)
      building := hrest
      idle := fun j hj => by
        by_cases hji : j = i
        · rw [hji, stage_self] at hj
          cases hj
        · rw [stage_of_ne _ hji] at hj
          exact (if_neg hji).trans (h.idle j hj)
      blocks := by
        refine (congrArg (· ++ [d.content]) h.blocks).trans ?_
        show _ = (s.submitted ++ [r]).map (WriteRequest.block k)
        rw [List.map_append, List.map_singleton, hblock]
      reads := fun q hq h1 h4 => by
        rcases List.mem_append.1 hq with hq | hq
        · exact h.reads q hq h1 h4
        · rw [List.mem_singleton.1 hq] at h1 h4 ⊢
          rw [hblock]
          exact hread h1 h4
      accepted := by
        refine perm_built (s.submitted ++ [r]) s.rejected h.accepted hl ?_
        exact (List.perm_append_singleton r s.submitted).append_right _
      rejected := h.rejected }⟩
  | @send i r w hi hw hrun =>
    refine ⟨l, { h with writers := h.writers.tail hw.step, idle := fun j hj => ?_, blocks := ?_ }⟩
    · have hji : j ≠ i := by
        rintro rfl
        rw [hi] at hj
        cases hj
      rw [hw.others j hji, h.idle j hj]
    · exact hw.submitted.trans h.blocks
  | @return_ i r w hi hw hdone =>
    refine ⟨l, { h with
      writers := h.writers.tail hw.step, building := ?_, idle := ?_, blocks := ?_ }⟩
    · exact building_congr h.building (by rw [hi]; rfl)
    · exact idle_setStage h.idle hw.others hdone
    · exact hw.submitted.trans h.blocks

/-! ## From the calls to the receiver -/

theorem coherent_of_reachable (h : Reachable k s) : ∃ l, Coherent k s l := by
  induction h with
  | refl => exact ⟨[], coherent_init⟩
  | tail _ hstep ih =>
    obtain ⟨l, hl⟩ := ih
    obtain ⟨a, hstep⟩ := hstep
    exact hl.step hstep

/-- What became of the accepted calls. Those in `handed` reached the receiver. -/
structure EndToEnd (k : CharKind) (s : Writing ι)
    (handed dropped queued flying building : List WriteRequest) : Prop where
  accepted : s.accepted.Perm
    (handed ++ dropped ++ queued ++ flying ++ s.rejected ++ building)
  handedBlocks : handed.map (WriteRequest.block k) = Transport.handedOver s.writers.log
  received : ∀ r ∈ handed, 1 ≤ r.type → r.type ≤ 4 → r.Received k (r.block k)
  droppedBlocks : dropped.map (WriteRequest.block k) = Transport.drops s.writers.log
  queuedBlocks : queued.map (WriteRequest.block k) = s.writers.retryDataList.map RawData.content
  length_le : queued.length ≤ Transport.retryQueueSize
  flyingBlocks : ∃ active, Transport.Working s.writers.pc active ∧
    flying.map (WriteRequest.block k) = Transport.inFlight active
  rejected : ∀ r ∈ s.rejected, Unfit k r
  underWay : ∃ l, Building s.stage l ∧ building = l.map Prod.snd

theorem Coherent.endToEnd {l : List (ι × WriteRequest)} (h : Coherent k s l) :
    ∃ handed dropped queued flying building,
      EndToEnd k s handed dropped queued flying building := by
  obtain ⟨active, hbalanced⟩ := Transport.balanced_of_reachable h.writers
  have hacc := hbalanced.accounts
  have hconserved := hacc.conserved
  rw [h.blocks] at hconserved
  obtain ⟨all, hperm, hall⟩ := exists_perm_of_map (WriteRequest.block k) hconserved s.submitted rfl
  obtain ⟨rest, flying, rfl, hrest, hflying⟩ := List.map_eq_append_iff.1 hall
  obtain ⟨rest, queued, rfl, hrest, hqueued⟩ := List.map_eq_append_iff.1 hrest
  obtain ⟨handed, dropped, rfl, hhanded, hdropped⟩ := List.map_eq_append_iff.1 hrest
  refine ⟨handed, dropped, queued, flying, l.map Prod.snd, ?_, hhanded, fun r hr => ?_, hdropped,
    hqueued, ?_, ⟨active, hacc.working, hflying⟩, h.rejected, l, h.building, rfl⟩
  · exact h.accepted.trans ((hperm.append_right _).append_right _)
  · refine h.reads r (hperm.mem_iff.2 ?_)
    simp only [List.mem_append]
    exact Or.inl (Or.inl (Or.inl hr))
  · have hlen := congrArg List.length hqueued
    rw [List.length_map, List.length_map] at hlen
    rw [hlen]
    exact hacc.length_le

/-- In every state the threads can reach, in whatever order they take their steps and whatever
becomes of the sends, every block handed over is that of an accepted call, one for each call, and
the receiver reads the call from it. -/
theorem endToEnd_of_reachable (h : Reachable k s) :
    ∃ handed dropped queued flying building,
      EndToEnd k s handed dropped queued flying building := by
  obtain ⟨l, hl⟩ := coherent_of_reachable h
  exact hl.endToEnd

/-- An event with one number. -/
def numberRequest : WriteRequest :=
  ⟨⟨5, 100⟩, ⟨[70], 1, 1000⟩, ⟨0, 1, 2, 3, none⟩, [65], [66], 1, [([67], .signed .int 5)]⟩

/-- A call of which the block is handed over, and a second one that is accepted. -/
theorem reachable_number : ∃ s : Writing Bool, Reachable .signed s ∧
    s.accepted = [numberRequest, numberRequest] ∧
    Transport.handedOver s.writers.log = [numberRequest.block .signed] := by
  have hnames : numberRequest.ValidNames .signed := ⟨by decide, by decide⟩
  obtain ⟨d, hd, hv, hne, -⟩ := WriteRequest.rawData_spec hnames
  have hempty : d.isEmpty = false := by
    rw [← Bool.not_eq_true, Transport.isEmpty_iff hv]
    exact hne
  have hblock : numberRequest.block .signed = d.content := (WriteRequest.rawData_some hd).2.2.1
  have hlen : ¬d.len > maxDataSize := by
    rw [← hv.length_content, ← hblock]
    decide +kernel
  have hagain : numberRequest.passes ((((init (ι := Bool)).read .signed false numberRequest).write
      .signed numberRequest {}).cache.get (numberRequest.key .signed)).1 = true := by
    decide +kernel
  have hretrying : Transport.Pc.retrying d ≠ .idle := nofun
  have hsending : Transport.Pc.sending d Transport.retryTimes ≠ .idle := nofun
  have hmoves : Transport.Pc.sending d Transport.retryTimes ≠ .retrying d := nofun
  let granted : DataSource := ⟨fun _ => .success, []⟩
  have read : Reachable .signed _ :=
    .single ⟨_, @Step.get Bool _ .signed init false numberRequest rfl⟩
  have building := read.tail ⟨_, @Step.accept Bool _ .signed _ false numberRequest {} rfl
    (by decide)⟩
  have sending := building.tail ⟨_, @Step.start Bool _ .signed _ false numberRequest d rfl hd
    hempty hlen⟩
  have retried := sending.tail ⟨_, .send (i := false) rfl ⟨@Transport.Step.retry Bool _ _ false d
    granted.results rfl, hretrying, hmoves, fun j hj => if_neg hj⟩ hsending⟩
  have sent := retried.tail ⟨_, .return_ (i := false) rfl ⟨@Transport.Step.sent Bool _ _ false d 2
    granted rfl rfl, hsending, hsending.symm, fun j hj => if_neg hj⟩ rfl⟩
  have again := sent.tail ⟨_, @Step.get Bool _ .signed _ true numberRequest rfl⟩
  exact ⟨_, again.tail ⟨_, @Step.accept Bool _ .signed _ true numberRequest _ rfl hagain⟩, rfl,
    by rw [hblock]; rfl⟩

/-- A call that reached the receiver, while the block of a second one is built. -/
theorem endToEnd_of_number : ∃ s : Writing Bool, s.accepted = [numberRequest, numberRequest] ∧
    Transport.handedOver s.writers.log = [numberRequest.block .signed] ∧
    ∃ handed dropped queued flying building,
      EndToEnd .signed s handed dropped queued flying building := by
  obtain ⟨s, hs, haccepted, hhanded⟩ := reachable_number
  exact ⟨s, haccepted, hhanded, endToEnd_of_reachable hs⟩

end Writing

end HiSysEvent
