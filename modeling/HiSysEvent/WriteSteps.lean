import HiSysEvent.WriteSystem

/-!
# A write without interruption

`write` of one thread, run from begin to end while the others wait, is a sequence of its steps
(`steps_write`). It leaves the same records, the same queue and the same blocks handed over, so
what holds of every run of `Writing` holds of every run of calls.
-/

set_option linter.unusedSectionVars false

namespace HiSysEvent

open Occupancy StringFilter Transport Transport.Writers

variable {ι : Type} [DecidableEq ι]

/-! ## Inside `SendData` -/

variable {i : ι} {d : RawData} {w w' : Writers ι}

/-- A step that moves one thread. -/
theorem within_of_step {pc : Pc} (hstep : Transport.Step w w') (hrun : w.pc i ≠ .idle)
    (hpc : w'.pc = (w.setPc i pc).pc) (hne : pc ≠ w.pc i) : Within i w w' := by
  refine ⟨hstep, hrun, ?_, fun j hj => ?_⟩
  · rw [hpc, pc_setPc]
    exact hne
  · rw [hpc]
    exact if_neg hj

/-- Steps of a thread that stays inside. -/
def Inside (i : ι) : Writers ι → Writers ι → Prop :=
  Relation.ReflTransGen fun w w' => Within i w w' ∧ w'.pc i ≠ .idle

/-- Steps of a thread, the last of which returns. -/
def Leaves (i : ι) (w w' : Writers ι) : Prop :=
  ∃ w₁, Inside i w w₁ ∧ Within i w₁ w' ∧ w'.pc i = .idle

theorem Leaves.head {w₁ : Writers ι} (h : Within i w w₁) (hrun : w₁.pc i ≠ .idle)
    (h' : Leaves i w₁ w') : Leaves i w w' := by
  obtain ⟨w₂, hin, hlast⟩ := h'
  exact ⟨w₂, .head ⟨h, hrun⟩ hin, hlast⟩

theorem within_sent {n : ℕ} (src : DataSource) (hi : w.pc i = .sending d (n + 1))
    (hr : (sendToHiSysEventDataSource d src).1 = success) :
    Leaves i w ((w.observe [.direct d.content]).return_ i d success) :=
  ⟨w, .refl, within_of_step (.sent src hi hr) (by simp [hi]) rfl (by simp [hi]), pc_setPc _ i .idle⟩

/-- The direct sends, up to the return or the failure of the last. -/
theorem leaves_sendLoop (i : ι) (d : RawData) : ∀ (n : ℕ) (retCode : ℤ) (src : DataSource)
    {w : Writers ι}, w.pc i = .sending d (n + 1) →
      ((sendLoop d (n + 1) retCode src).1 = success →
        Leaves i w ((w.observe [.direct d.content]).return_ i d success)) ∧
      ((sendLoop d (n + 1) retCode src).1 ≠ success → ∀ w',
        Leaves i (w.setPc i (.adding d (sendLoop d (n + 1) retCode src).1)) w' → Leaves i w w')
  | 0, retCode, src, w, hi => by
    by_cases hr : (sendToHiSysEventDataSource d src).1 = success
    · have hloop : (sendLoop d (0 + 1) retCode src).1 = success := by
        simp only [sendLoop, hr, if_true]
      exact ⟨fun _ => within_sent src hi hr, fun hne => absurd hloop hne⟩
    · have hloop : (sendLoop d (0 + 1) retCode src).1 = (sendToHiSysEventDataSource d src).1 := by
        simp only [sendLoop, if_neg hr]
      have hstep := Transport.Step.notSent src hi hr
      rw [if_pos rfl] at hstep
      rw [hloop]
      refine ⟨fun hs => absurd hs hr, fun _ w' hleave => ?_⟩
      exact hleave.head (within_of_step hstep (by simp [hi]) rfl (by simp [hi]))
        (by simp [pc_setPc])
  | n + 1, retCode, src, w, hi => by
    by_cases hr : (sendToHiSysEventDataSource d src).1 = success
    · have hloop : (sendLoop d (n + 1 + 1) retCode src).1 = success := by
        rw [sendLoop]
        simp only [hr, if_true]
      exact ⟨fun _ => within_sent src hi hr, fun hne => absurd hloop hne⟩
    · have hloop : sendLoop d (n + 1 + 1) retCode src =
          sendLoop d (n + 1) (sendToHiSysEventDataSource d src).1
            (sendToHiSysEventDataSource d src).2 := by
        rw [sendLoop]
        simp only [if_neg hr]
      have hstep := Transport.Step.notSent src hi hr
      rw [if_neg (Nat.succ_ne_zero n)] at hstep
      have hwithin : Within i w (w.setPc i (.sending d (n + 1))) :=
        within_of_step hstep (by simp [hi]) rfl (by simp [hi])
      have hinside : (w.setPc i (.sending d (n + 1))).pc i ≠ .idle := by simp [pc_setPc]
      obtain ⟨hok, hfail⟩ := leaves_sendLoop i d n (sendToHiSysEventDataSource d src).1
        (sendToHiSysEventDataSource d src).2 (pc_setPc w i (.sending d (n + 1)))
      rw [hloop]
      rw [return_setPc] at hok
      refine ⟨fun hs => (hok hs).head hwithin hinside, fun hs w' hleave => ?_⟩
      rw [setPc_setPc] at hfail
      exact (hfail hs w' hleave).head hwithin hinside

/-- `SendData` from its retries on is a sequence of steps inside. -/
theorem leaves_sendData (hi : w.pc i = .retrying d) (hq : ∀ e ∈ w.retryDataList, e.Valid)
    (hd : d.isEmpty = false) (hlen : ¬d.len > maxDataSize) (results : ℕ → SendResult) :
    ∃ w' obs, Leaves i w w' ∧ w'.pc = (w.setPc i .idle).pc ∧
      w'.retryDataList = (sendData d (w.transport results)).2.retryDataList ∧
      w'.log = w.log ++ obs ∧
      handedOver obs = (sendData d (w.transport results)).2.source.handed := by
  obtain ⟨n, -, -, -, halloc⟩ := retrySendFailedData_spec (t := w.transport results) rfl hq
  have hretry := Transport.Step.retry results hi
  have hhanded := handed_sendLoop d (w.transport results).retrySendFailedData.source
  have hsends := leaves_sendLoop i d 2 success (w.transport results).retrySendFailedData.source
    (pc_setPc ({ w with
      retryDataList := (w.transport results).retrySendFailedData.retryDataList }.observe
        ((w.transport results).retrySendFailedData.source.handed.map .retried)) i
      (.sending d retryTimes))
  have hwithin := @within_of_step _ _ _ _ _ (.sending d retryTimes) hretry (by simp [hi]) rfl
    (by simp [hi])
  have hinside : ∀ w₁ : Writers ι, (w₁.setPc i (.sending d retryTimes)).pc i ≠ .idle :=
    fun w₁ => by simp [pc_setPc]
  simp only [sendData, hd, hlen, Bool.false_eq_true, if_false]
  generalize (w.transport results).retrySendFailedData = t at *
  have hretried : handedOver (t.source.handed.map .retried) = t.source.handed := by
    simp [handedOver, List.filterMap_map]
  by_cases hcode : (sendLoop d retryTimes success t.source).1 = success
  · have hleave := hsends.1 hcode
    rw [return_setPc] at hleave
    rw [if_pos hcode] at hhanded
    refine ⟨_, t.source.handed.map .retried ++ [.direct d.content, .returned d.content success],
      hleave.head hwithin (hinside _), rfl, ?_⟩
    simp only [if_pos hcode, hhanded]
    refine ⟨rfl, by simp [Writers.return_, Writers.observe, Writers.setPc], ?_⟩
    rw [handedOver, List.filterMap_append, ← handedOver, ← handedOver, hretried]
    rfl
  · rw [if_neg hcode] at hhanded
    have hfail := hsends.2 hcode
    rw [setPc_setPc] at hfail
    set w₂ := ({ w with retryDataList := t.retryDataList }.observe
      (t.source.handed.map .retried)).setPc i
        (.adding d (sendLoop d retryTimes success t.source).1) with hw₂
    have hpc : w₂.pc i = .adding d (sendLoop d retryTimes success t.source).1 := pc_setPc _ i _
    have hadd := Transport.Step.add results hpc
    have hlast : Leaves i w₂ _ := ⟨w₂, .refl,
      @within_of_step _ _ _ _ _ .idle hadd (by simp [hpc]) rfl (by simp [hpc]), pc_setPc _ i .idle⟩
    refine ⟨_, t.source.handed.map .retried ++ (.failed d.content :: dropsOf t.retryDataList ++
      [.returned d.content (sendLoop d retryTimes success t.source).1]),
      (hfail _ hlast).head hwithin (hinside _), ?_, ?_, ?_, ?_⟩
    · have hidle := congrArg Writers.pc
        (setPc_setPc w i (.adding d (sendLoop d retryTimes success t.source).1) .idle)
      exact hidle
    · simp only [if_neg hcode, addFailedData, halloc]
      rfl
    · simp [hw₂, Writers.return_, Writers.observe, Writers.setPc]
    · have hdrops : handedOver (.failed d.content :: dropsOf t.retryDataList ++
          [.returned d.content (sendLoop d retryTimes success t.source).1]) = [] := by
        unfold dropsOf
        rcases t.retryDataList with _ | ⟨e, q⟩ <;> split_ifs <;> rfl
      simp only [if_neg hcode, addFailedData, hhanded]
      rw [handedOver, List.filterMap_append, ← handedOver, ← handedOver, hretried, hdrops,
        List.append_nil]

/-! ## The call -/

namespace Writing

variable {k : CharKind} {s : Writing ι} {r : WriteRequest}

/-- Steps of `Writing`. -/
abbrev Steps (k : CharKind) : Writing ι → Writing ι → Prop :=
  Relation.ReflTransGen fun s s' => ∃ a, Step k s a s'

/-- Steps inside `SendData` are steps of the writers. -/
theorem steps_inside (hi : s.stage i = .sending r) (h : Inside i s.writers w) :
    Steps k s { s with writers := w } := by
  induction h with
  | refl => exact .refl
  | tail _ hstep ih => exact ih.tail ⟨.send i, .send hi hstep.1 hstep.2⟩

theorem steps_leaves (hi : s.stage i = .sending r) (h : Leaves i s.writers w) :
    Steps k s ({ s with writers := w }.setStage i .idle) := by
  obtain ⟨w₁, hin, hlast, hidle⟩ := h
  exact (steps_inside hi hin).tail ⟨.send i, .return_ hi hlast hidle⟩

theorem setStage_stage (hi : s.stage i = .idle) {s₁ : Writing ι}
    (h : ∀ j ≠ i, s₁.stage j = s.stage j) :
    (s₁.setStage i .idle).stage = s.stage := by
  funext j
  by_cases hj : j = i
  · rw [hj, stage_self, hi]
  · rw [stage_of_ne s₁ hj, h j hj]

/-- What the call of the request returns and leaves. -/
def result (k : CharKind) (s : Writing ι) (r : WriteRequest) (results : ℕ → SendResult) :
    ℤ × World :=
  HiSysEvent.write k r.process r.param r.callerInfo r.domain r.eventName r.type r.keyValues
    ⟨s.cache, s.writers.transport results⟩

/-- The calls the limiter lets through, of a sequence that finds the records in `cache`. -/
def letThrough (k : CharKind) : EventWroteLruCache → List WriteRequest → List WriteRequest
  | _, [] => []
  | cache, r :: calls =>
    let (timeStamp, cache) := checkLimitWritingEvent k r.param r.eventName r.callerInfo cache
    if timeStamp = invalidTimeStamp then letThrough k cache calls
    else r :: letThrough k cache calls

/-- The limiter refuses a call if and only if the record does not let it pass. -/
theorem checkLimitWritingEvent_invalid (cache : EventWroteLruCache) :
    (checkLimitWritingEvent k r.param r.eventName r.callerInfo cache).1 = invalidTimeStamp ↔
      r.passes (cache.get (r.key k)).1 = false := by
  rw [checkLimitWritingEvent_eq]
  show (if admits r.param (cache.get (r.key k)).1 r.callerInfo.timeStamp then
    r.callerInfo.timeStamp else invalidTimeStamp) = invalidTimeStamp ↔ _
  simp only [WriteRequest.passes, Bool.and_eq_false_iff]
  split_ifs with hallows <;> simp [hallows]

theorem letThrough_cons (cache : EventWroteLruCache) (r : WriteRequest)
    (calls : List WriteRequest) :
    letThrough k cache (r :: calls) =
      (if r.passes (cache.get (r.key k)).1 then [r] else []) ++ letThrough k
        (checkLimitWritingEvent k r.param r.eventName r.callerInfo cache).2 calls := by
  have hinvalid := @checkLimitWritingEvent_invalid k r cache
  rw [letThrough]
  by_cases hpass : r.passes (cache.get (r.key k)).1 = true
  · have hvalid := mt hinvalid.1 (ne_false_of_eq_true hpass)
    simp only [if_neg hvalid, hpass, if_true, List.singleton_append]
  · rw [Bool.not_eq_true] at hpass
    simp only [if_pos (hinvalid.2 hpass), hpass, Bool.false_eq_true, if_false, List.nil_append]

/-- The state a call leaves, from the steps it takes. -/
theorem result_eq (k : CharKind) (s : Writing ι) (i : ι) (r : WriteRequest)
    (results : ℕ → SendResult) :
    (result k s r results).2 = ⟨((s.read k i r).write k r (s.cache.get (r.key k)).1).cache,
      if r.passes (s.cache.get (r.key k)).1 then
        match r.rawData k with
        | none => s.writers.transport results
        | some d => (sendData d (s.writers.transport results)).2
      else s.writers.transport results⟩ := by
  have halloc : (s.writers.transport results).alloc = Alloc.always := rfl
  have hlimit := checkLimitWritingEvent_eq k r.param r.eventName r.callerInfo s.cache
  have htime := @checkLimitWritingEvent_invalid k r s.cache
  have hkey : concatenateInfoAsKey k r.eventName r.callerInfo.func r.callerInfo.line = r.key k :=
    rfl
  simp only [hlimit, hkey] at htime
  rw [result, HiSysEvent.write, writeEvent, hlimit]
  by_cases hpass : r.passes (s.cache.get (r.key k)).1 = true
  · have hallows : admits r.param (s.cache.get (r.key k)).1 r.callerInfo.timeStamp = true :=
      (Bool.and_eq_true_iff.1 hpass).1
    have hvalid : ¬r.callerInfo.timeStamp = invalidTimeStamp := by
      have := (Bool.and_eq_true_iff.1 hpass).2
      simpa using this
    simp only [hkey, hallows, if_true, if_neg hvalid, hpass, halloc]
    rcases hd : r.rawData k with _ | d
    · have hnames : ¬r.ValidNames k := fun hnames => by
        obtain ⟨d, hsome, -⟩ := WriteRequest.rawData_spec hnames
        rw [hd] at hsome
        cases hsome
      obtain ⟨hprep, herror⟩ := WriteRequest.event_error hnames
      simp only [hprep, herror, if_true]
      rfl
    · have hnames : r.ValidNames k := by
        by_contra hnot
        rw [WriteRequest.rawData_eq_none hnot] at hd
        cases hd
      obtain ⟨hprep, -⟩ := WriteRequest.event_spec hnames
      obtain ⟨herror, hsend⟩ := WriteRequest.sendSysEvent_event hd halloc
      simp only [hprep, herror, Bool.false_eq_true, if_false]
      refine World.mk.injEq _ _ _ _ |>.mpr ⟨rfl, ?_⟩
      exact hsend
  · rw [Bool.not_eq_true] at hpass
    simp only [hkey, htime.2 hpass, if_true, hpass, Bool.false_eq_true, if_false]
    rfl

/-- A call leaves the records as the limiter does. -/
theorem cache_result (k : CharKind) (s : Writing ι) (r : WriteRequest)
    (results : ℕ → SendResult) :
    (result k s r results).2.eventWroteLruCache =
      (checkLimitWritingEvent k r.param r.eventName r.callerInfo s.cache).2 := by
  rw [result, HiSysEvent.write, writeEvent]
  dsimp only
  split_ifs <;> rfl

/-- `write` of a thread that is not interrupted is a sequence of its steps, with the same records,
the same queue and the same blocks handed over. The call is accepted if the limiter lets it
through. -/
theorem steps_write (h : Reachable k s) (hi : s.stage i = .idle) (r : WriteRequest)
    (results : ℕ → SendResult) :
    ∃ s' obs, Steps k s s' ∧ s'.stage = s.stage ∧
      s'.cache = (result k s r results).2.eventWroteLruCache ∧
      s'.writers.retryDataList = (result k s r results).2.transport.retryDataList ∧
      s'.writers.log = s.writers.log ++ obs ∧
      handedOver obs = (result k s r results).2.transport.source.handed ∧
      s'.accepted = s.accepted ++ letThrough k s.cache [r] := by
  obtain ⟨l, hl⟩ := coherent_of_reachable h
  obtain ⟨active, hbalanced⟩ := balanced_of_reachable hl.writers
  have hpc : s.writers.pc i = .idle := hl.idle i (by rw [hi]; rfl)
  rw [result_eq k s i r results, letThrough_cons, letThrough, List.append_nil]
  set record := (s.cache.get (r.key k)).1 with hrecord
  have hread : Steps k s (s.read k i r) := .single ⟨_, .get r hi⟩
  have hchecking : (s.read k i r).stage i = .checking r record := stage_self _ i _
  have hothers : ∀ j ≠ i, (s.read k i r).stage j = s.stage j := fun j hj => stage_of_ne _ hj _
  by_cases hpass : r.passes record = true
  · simp only [hpass, if_true]
    set s₁ := { (s.read k i r).write k r record with
      accepted := s.accepted ++ [r] }.setStage i (.building r) with hs₁
    have haccept : Steps k s s₁ := hread.tail ⟨_, .accept hchecking hpass⟩
    have hbuilding : s₁.stage i = .building r := stage_self _ i _
    have hothers₁ : ∀ j ≠ i, s₁.stage j = s.stage j := fun j hj =>
      (stage_of_ne _ hj _).trans (hothers j hj)
    rcases hd : r.rawData k with _ | d
    · refine ⟨_, [], haccept.tail ⟨_, .error hbuilding hd⟩, setStage_stage hi hothers₁, rfl, rfl,
        ?_, rfl, rfl⟩
      exact (List.append_nil _).symm
    · dsimp only
      obtain ⟨hv, hne, -, -⟩ := WriteRequest.rawData_some hd
      have hempty : d.isEmpty = false := by
        rw [← Bool.not_eq_true, isEmpty_iff hv]
        exact hne
      by_cases hlen : d.len > maxDataSize
      · have hsend : (sendData d (s.writers.transport results)).2 =
            s.writers.transport results := by
          simp only [sendData, hempty, hlen, Bool.false_eq_true, if_false, if_true]
        rw [hsend]
        exact ⟨_, [.returned d.content errOverSize],
          haccept.tail ⟨_, .overSize hbuilding hd hempty hlen⟩, setStage_stage hi hothers₁, rfl,
          rfl, rfl, rfl, rfl⟩
      · set w := { s.writers.setPc i (.retrying d) with
          submitted := s.writers.submitted ++ [d.content] } with hw
        have hstart := haccept.tail ⟨_, .start hbuilding hd hempty hlen⟩
        obtain ⟨w', obs, hleave, -, hqueue, hlog, hhanded⟩ := @leaves_sendData _ _ i d w
          (pc_setPc s.writers i (.retrying d)) hbalanced.valid hempty hlen results
        refine ⟨_, obs, hstart.trans (steps_leaves (stage_self _ i _) hleave),
          setStage_stage hi fun j hj => ?_, rfl, hqueue, hlog, hhanded, rfl⟩
        exact (stage_of_ne _ hj _).trans (hothers₁ j hj)
  · rw [Bool.not_eq_true] at hpass
    simp only [hpass, Bool.false_eq_true, if_false]
    exact ⟨_, [], hread.tail ⟨_, .refuse hchecking hpass⟩, setStage_stage hi hothers, rfl, rfl,
      (List.append_nil _).symm, rfl, (List.append_nil _).symm⟩

/-! ## Calls one after another -/

/-- The records and the queue after a sequence of calls, each with the outcomes of its sends, and
the blocks handed over. -/
def runCalls (k : CharKind) : EventWroteLruCache → List RawData →
    List (WriteRequest × (ℕ → SendResult)) → (EventWroteLruCache × List RawData) × List Bytes
  | cache, queue, [] => ((cache, queue), [])
  | cache, queue, (r, results) :: calls =>
    let w := (HiSysEvent.write k r.process r.param r.callerInfo r.domain r.eventName r.type
      r.keyValues ⟨cache, ⟨queue, ⟨results, []⟩, Alloc.always⟩⟩).2
    let rest := runCalls k w.eventWroteLruCache w.transport.retryDataList calls
    (rest.1, w.transport.source.handed ++ rest.2)

/-- A sequence of calls of a thread is a sequence of its steps. -/
theorem steps_runCalls (i : ι) : ∀ (calls : List (WriteRequest × (ℕ → SendResult))) {s : Writing ι},
    Reachable k s → s.stage i = .idle →
      ∃ s' obs, Steps k s s' ∧ s'.writers.log = s.writers.log ++ obs ∧
        ((s'.cache, s'.writers.retryDataList), handedOver obs) =
          runCalls k s.cache s.writers.retryDataList calls ∧
        s'.accepted = s.accepted ++ letThrough k s.cache (calls.map Prod.fst)
  | [], s, _, _ => ⟨s, [], .refl, (List.append_nil _).symm, rfl, (List.append_nil _).symm⟩
  | (r, results) :: calls, s, h, hi => by
    obtain ⟨s₁, obs₁, hsteps₁, hstage, hcache, hqueue, hlog₁, hhanded₁, hacc₁⟩ :=
      steps_write h hi r results
    obtain ⟨s₂, obs₂, hsteps₂, hlog₂, hrun, hacc₂⟩ :=
      steps_runCalls i calls (h.trans hsteps₁) ((congrFun hstage i).trans hi)
    refine ⟨s₂, obs₁ ++ obs₂, hsteps₁.trans hsteps₂, ?_, ?_, ?_⟩
    · rw [hlog₂, hlog₁, List.append_assoc]
    · rw [hcache, hqueue] at hrun
      have hsplit : handedOver (obs₁ ++ obs₂) = handedOver obs₁ ++ handedOver obs₂ :=
        List.filterMap_append
      obtain ⟨hstate, hhanded₂⟩ := Prod.mk.inj hrun
      rw [hsplit, hhanded₁, hstate, hhanded₂]
      rfl
    · rw [hacc₂, hacc₁, hcache, cache_result, List.map_cons, letThrough_cons, letThrough_cons,
        letThrough, List.append_nil, List.append_assoc]

/-- In every sequence of calls of a process, with any outcomes of the sends, the blocks handed over
are those of calls the limiter lets through, at most one for each call, and the receiver reads the
call from its block if the type is in range. -/
theorem received_runCalls (k : CharKind) (calls : List (WriteRequest × (ℕ → SendResult))) :
    ∃ handed : List WriteRequest,
      (runCalls k (.new lruCacheDefaultSize) [] calls).2 = handed.map (WriteRequest.block k) ∧
      handed.Subperm (letThrough k (.new lruCacheDefaultSize) (calls.map Prod.fst)) ∧
      ∀ r ∈ handed, 1 ≤ r.type → r.type ≤ 4 → r.Received k (r.block k) := by
  obtain ⟨s, obs, hsteps, hlog, hrun, hacc⟩ :=
    @steps_runCalls Unit _ k () calls init .refl rfl
  obtain ⟨l, hl⟩ := coherent_of_reachable hsteps
  obtain ⟨handed, dropped, queued, flying, building, hend⟩ := hl.endToEnd
  refine ⟨handed, ?_, ?_, hend.received⟩
  · have hhanded : handedOver s.writers.log =
        (runCalls k (.new lruCacheDefaultSize) [] calls).2 := by
      rw [hlog]
      exact congrArg Prod.snd hrun
    exact hhanded.symm.trans hend.handedBlocks.symm
  · have hcalls : s.accepted = letThrough k (.new lruCacheDefaultSize) (calls.map Prod.fst) := hacc
    rw [← hcalls]
    refine (List.Sublist.subperm ?_).trans hend.accepted.symm.subperm
    simp only [List.append_assoc]
    exact List.sublist_append_left _ _

end Writing

end HiSysEvent
