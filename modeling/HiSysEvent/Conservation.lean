import HiSysEvent.Occupancy
import HiSysEvent.RetryQueue

/-!
# Conservation of the blocks

As in `conserves_of_reachable` no allocation fails : a copy that is refused would lose the bytes of
the block that is queued. That theorem tells blocks apart by their content and needs the
submitted ones to be distinct. A thread that writes the same event twice in one millisecond
submits the same block twice. Counted with multiplicity the blocks are conserved in every
reachable state (`accounts_of_reachable`) : those submitted are those handed over, dropped,
queued and those the threads work on, and the codes returned tell the ones that were sent
directly from the ones that were queued.
-/

set_option linter.unusedSectionVars false

namespace HiSysEvent

namespace Transport

open Occupancy Writers

variable {ι : Type} [DecidableEq ι]

/-! ## The threads at work -/

/-- The threads that work on a block, each with its block. -/
abbrev Working (pc : ι → Pc) (active : List (ι × RawData)) : Prop :=
  Lists (fun i => (pc i).block) active

variable {s s' : Writers ι} {active : List (ι × RawData)} {i : ι} {d : RawData}

/-- A thread goes on with the same block, or with none. -/
theorem working_move (h : Working s.pc active) {pc : Pc} (hpc : pc.block = (s.pc i).block) :
    Working (s.setPc i pc).pc active := by
  refine h.congr fun j => ?_
  rw [block_setPc]
  split_ifs with hj
  · rw [hj, hpc]
  · rfl

theorem working_start (h : Working s.pc active) {pc : Pc} (hi : (s.pc i).block = none)
    (hpc : pc.block = some d) : Working (s.setPc i pc).pc ((i, d) :: active) :=
  h.take hi (by rw [block_setPc, if_pos rfl, hpc]) fun j hj => by rw [block_setPc, if_neg hj]

/-- A thread that is done leaves the others at work. -/
theorem working_finish (h : Working s.pc active) (hi : (s.pc i).block = some d) :
    ∃ rest, active.Perm ((i, d) :: rest) ∧ Working (s.setPc i .idle).pc rest :=
  h.leave hi (by rw [block_setPc, if_pos rfl, Pc.block]) fun j hj => by rw [block_setPc, if_neg hj]

/-! ## The invariant -/

/-- The codes of a call whose direct sends all failed. -/
def isSendError (retCode : ℤ) : Bool :=
  retCode = errDoesNotInit || retCode = errSendFail

theorem isSendError_send {src : DataSource} (h : (sendToHiSysEventDataSource d src).1 ≠ success) :
    isSendError (sendToHiSysEventDataSource d src).1 = true := by
  rcases send_cases d src with ⟨-, hs⟩ | ⟨r, hr, -, hs⟩
  · exact absurd (congrArg Prod.fst hs) h
  · rw [hs]
    rcases r with _ | _ | _
    · exact absurd rfl hr
    · rfl
    · rfl

/-- The blocks of the calls that returned a code like this, in order. -/
def returnsOf (p : ℤ → Bool) (log : List Obs) : List Bytes :=
  log.filterMap fun | .returned x retCode => if p retCode then some x else none | _ => none

/-- The contents of the blocks the threads work on. -/
def inFlight (active : List (ι × RawData)) : List Bytes :=
  active.map fun e => e.2.content

/-- Every block submitted is in flight, was sent directly or failed. -/
structure Balanced (s : Writers ι) (active : List (ι × RawData)) : Prop where
  working : Working s.pc active
  valid : ∀ d ∈ s.retryDataList, d.Valid
  validActive : ∀ e ∈ active, e.2.Valid
  length_le : s.retryDataList.length ≤ retryQueueSize
  queue : fails s.log = removed s.log ++ s.retryDataList.map RawData.content
  submitted : s.submitted.Perm (directs s.log ++ fails s.log ++ inFlight active)
  succeeded : returnsOf (fun c => c = success) s.log = directs s.log
  failed : returnsOf isSendError s.log = fails s.log
  code : ∀ i d retCode, s.pc i = .adding d retCode → isSendError retCode = true

theorem balanced_init : Balanced (init : Writers ι) [] where
  working := lists_nil fun _ => rfl
  valid := by simp [init]
  validActive := by simp
  length_le := by simp [init]
  queue := rfl
  submitted := .nil
  succeeded := rfl
  failed := rfl
  code := by simp [init]

/-- What the readings of a log say of a longer one. -/
theorem log_append (log obs : List Obs) :
    directs (log ++ obs) = directs log ++ directs obs ∧
      fails (log ++ obs) = fails log ++ fails obs ∧
      removed (log ++ obs) = removed log ++ removed obs ∧
      ∀ p, returnsOf p (log ++ obs) = returnsOf p log ++ returnsOf p obs :=
  ⟨List.filterMap_append, List.filterMap_append, List.filterMap_append,
    fun _ => List.filterMap_append⟩

theorem code_setPc {pc : Pc} (h : ∀ i d retCode, s.pc i = .adding d retCode →
      isSendError retCode = true)
    (hpc : ∀ d retCode, pc = .adding d retCode → isSendError retCode = true) (i : ι) :
    ∀ j d retCode, (s.setPc i pc).pc j = .adding d retCode → isSendError retCode = true := by
  intro j d retCode hj
  simp only [setPc] at hj
  split_ifs at hj
  · exact hpc d retCode hj
  · exact h j d retCode hj

/-- A thread goes on, and no block is logged. -/
theorem Balanced.move (h : Balanced s active) {pc : Pc} (hpc : pc.block = (s.pc i).block)
    (hcode : ∀ d retCode, pc = .adding d retCode → isSendError retCode = true) :
    Balanced (s.setPc i pc) active :=
  { h with working := working_move h.working hpc, code := code_setPc h.code hcode i }

/-- Observations that are not about a block sent directly or failed, and the blocks they take off
the front of the queue. -/
theorem Balanced.observe (h : Balanced s active) {q : List RawData} {obs : List Obs}
    (hsub : ∀ d ∈ q, d ∈ s.retryDataList) (hlen : q.length ≤ s.retryDataList.length)
    (hqueue : s.retryDataList.map RawData.content = removed obs ++ q.map RawData.content)
    (hdirects : directs obs = []) (hfails : fails obs = [])
    (hok : returnsOf (fun c => c = success) obs = []) (herr : returnsOf isSendError obs = []) :
    Balanced ({ s with retryDataList := q }.observe obs) active := by
  obtain ⟨hd, hf, hr, hret⟩ := log_append s.log obs
  rw [hdirects, List.append_nil] at hd
  rw [hfails, List.append_nil] at hf
  exact {
    working := h.working
    valid := fun d hd => h.valid d (hsub d hd)
    validActive := h.validActive
    length_le := hlen.trans h.length_le
    queue := by
      simp only [Writers.observe, hf, hr]
      rw [h.queue, hqueue, List.append_assoc]
    submitted := by simpa only [Writers.observe, hd, hf] using h.submitted
    succeeded := by simp only [Writers.observe, hret, hok, List.append_nil, h.succeeded, hd]
    failed := by simp only [Writers.observe, hret, herr, List.append_nil, h.failed, hf]
    code := h.code }

/-- A call that hands nothing over and queues nothing returns. -/
theorem Balanced.returned (h : Balanced s active) (hi : s.pc i = .idle) (d : RawData) {c : ℤ}
    (hok : c ≠ success) (herr : isSendError c = false) : Balanced (s.return_ i d c) active := by
  have hmove : Balanced (s.setPc i .idle) active :=
    h.move (by rw [hi]) fun _ _ hpc => by cases hpc
  refine hmove.observe (fun _ hd => hd) le_rfl rfl rfl rfl ?_ ?_
  · simp [returnsOf, hok]
  · simp [returnsOf, herr]

theorem Balanced.start (h : Balanced s active) (hi : s.pc i = .idle) (hv : d.Valid) :
    Balanced { s.setPc i (.retrying d) with submitted := s.submitted ++ [d.content] }
      ((i, d) :: active) where
  working := working_start h.working (by rw [hi]; rfl) rfl
  valid := h.valid
  validActive := List.forall_mem_cons.2 ⟨hv, h.validActive⟩
  length_le := h.length_le
  queue := h.queue
  submitted := by
    refine (h.submitted.append_right _).trans ?_
    rw [List.append_assoc]
    exact List.Perm.append_left _ (List.perm_append_singleton _ _)
  succeeded := h.succeeded
  failed := h.failed
  code := code_setPc h.code (fun _ _ hpc => by cases hpc) i

/-- A block that was in flight is logged. -/
theorem perm_logged {xs ds fs : List Bytes} (ds' fs' : List Bytes) {rest : List (ι × RawData)}
    (h : xs.Perm (ds ++ fs ++ inFlight active)) (hperm : active.Perm ((i, d) :: rest))
    (hlog : (ds' ++ fs').Perm (d.content :: (ds ++ fs))) :
    xs.Perm (ds' ++ fs' ++ inFlight rest) := by
  have hflight : (inFlight active).Perm (d.content :: inFlight rest) := hperm.map _
  have hmiddle : (ds ++ fs ++ d.content :: inFlight rest).Perm
      (d.content :: (ds ++ fs) ++ inFlight rest) := List.perm_middle
  exact (h.trans (hflight.append_left _)).trans (hmiddle.trans (hlog.symm.append_right _))

/-- A direct send succeeds, and its call returns. -/
theorem Balanced.sent (h : Balanced s active) (hi : (s.pc i).block = some d) :
    ∃ rest, Balanced ((s.observe [.direct d.content]).return_ i d success) rest := by
  obtain ⟨rest, hperm, hrest⟩ := working_finish h.working hi
  obtain ⟨hd, hf, hr, hret⟩ := log_append s.log
    [.direct d.content, .returned d.content success]
  refine ⟨rest, ?_⟩
  have hlog : ((s.observe [.direct d.content]).return_ i d success).log =
      s.log ++ [.direct d.content, .returned d.content success] := by
    simp [return_, Writers.observe, setPc]
  exact {
    working := hrest
    valid := h.valid
    validActive := fun e he => h.validActive e (hperm.mem_iff.2 (List.mem_cons_of_mem _ he))
    length_le := h.length_le
    queue := by
      rw [hlog, hf, hr, show fails [.direct d.content, .returned d.content success] = [] from rfl,
        show removed [.direct d.content, .returned d.content success] = [] from rfl,
        List.append_nil, List.append_nil]
      exact h.queue
    submitted := by
      rw [hlog]
      refine perm_logged _ _ h.submitted hperm ?_
      rw [hd, hf]
      simp [directs, fails]
    succeeded := by
      rw [hlog, hret, hd, h.succeeded]
      rfl
    failed := by
      rw [hlog, hret, hf, h.failed]
      rfl
    code := code_setPc h.code (fun _ _ hpc => by cases hpc) i }

theorem retried_spec (xs : List Bytes) :
    directs (xs.map .retried) = [] ∧ fails (xs.map .retried) = [] ∧
      removed (xs.map .retried) = xs ∧ ∀ p, returnsOf p (xs.map .retried) = [] := by
  simp [directs, fails, removed, returnsOf, List.filterMap_map]

/-- The front a full queue loses. -/
theorem dropsOf_spec (q : List RawData) :
    (∀ p, returnsOf p (dropsOf q) = []) ∧ directs (dropsOf q) = [] ∧ fails (dropsOf q) = [] ∧
      removed (dropsOf q) ++ (if q.length ≥ retryQueueSize then q.tail else q).map
        RawData.content = q.map RawData.content := by
  rcases q with _ | ⟨e, q⟩
  · exact ⟨fun _ => rfl, rfl, rfl, rfl⟩
  · unfold dropsOf
    split_ifs
    · exact ⟨fun _ => rfl, rfl, rfl, rfl⟩
    · exact ⟨fun _ => rfl, rfl, rfl, rfl⟩

/-- A call whose sends all failed queues its block, at the expense of the front of a full queue,
and returns. -/
theorem Balanced.add (h : Balanced s active) {retCode : ℤ} (hi : s.pc i = .adding d retCode)
    (results : ℕ → SendResult) :
    ∃ rest, Balanced (({ s with
      retryDataList := ((s.transport results).addFailedData d).retryDataList }.observe
        (.failed d.content :: dropsOf s.retryDataList)).return_ i d retCode) rest := by
  have hblock : (s.pc i).block = some d := by rw [hi]; rfl
  obtain ⟨rest, hperm, hrest⟩ := working_finish h.working hblock
  have hv : d.Valid := h.validActive _ (hperm.mem_iff.2 List.mem_cons_self)
  obtain ⟨hvc, hcont⟩ := RawData.copy_spec hv Alloc.next_always
  have herr := h.code i d retCode hi
  have hok : retCode ≠ success := by
    rintro rfl
    exact absurd herr (by decide)
  obtain ⟨hret, hdirects, hfails, hqueue⟩ := dropsOf_spec s.retryDataList
  have hadd : ((s.transport results).addFailedData d).retryDataList =
      (if s.retryDataList.length ≥ retryQueueSize then s.retryDataList.tail
        else s.retryDataList) ++ [(d.copy Alloc.always).1] := rfl
  obtain ⟨hd₁, hf₁, hr₁, hret₁⟩ := log_append s.log (.failed d.content :: dropsOf s.retryDataList)
  obtain ⟨hd₂, hf₂, hr₂, hret₂⟩ := log_append
    (s.log ++ .failed d.content :: dropsOf s.retryDataList) [.returned d.content retCode]
  have hlogged : directs (.failed d.content :: dropsOf s.retryDataList) = [] ∧
      fails (.failed d.content :: dropsOf s.retryDataList) = [d.content] ∧
      removed (.failed d.content :: dropsOf s.retryDataList) = removed (dropsOf s.retryDataList) ∧
      ∀ p, returnsOf p (.failed d.content :: dropsOf s.retryDataList) = [] :=
    ⟨hdirects, congrArg (d.content :: ·) hfails, rfl, hret⟩
  have hreturned : directs [.returned d.content retCode] = [] ∧
      fails [.returned d.content retCode] = [] ∧ removed [.returned d.content retCode] = [] ∧
      returnsOf (fun c => c = success) [.returned d.content retCode] = [] ∧
      returnsOf isSendError [.returned d.content retCode] = [d.content] :=
    ⟨rfl, rfl, rfl, by simp [returnsOf, hok], by simp [returnsOf, herr]⟩
  rw [hlogged.1, List.append_nil] at hd₁
  rw [hreturned.1, List.append_nil, hd₁] at hd₂
  rw [hlogged.2.1] at hf₁
  rw [hreturned.2.1, List.append_nil, hf₁] at hf₂
  rw [hlogged.2.2.1] at hr₁
  rw [hreturned.2.2.1, List.append_nil, hr₁] at hr₂
  refine ⟨rest, ?_⟩
  exact {
    working := hrest
    valid := fun e he => by
      rw [return_, Writers.observe, setPc, Writers.observe, hadd] at he
      rcases List.mem_append.1 he with he | he
      · refine h.valid e ?_
        split_ifs at he
        · exact List.mem_of_mem_tail he
        · exact he
      · rw [List.mem_singleton.1 he]
        exact hvc
    validActive := fun e he => h.validActive e (hperm.mem_iff.2 (List.mem_cons_of_mem _ he))
    length_le := by
      have hlen := h.length_le
      have hsize : 0 < retryQueueSize := Nat.succ_pos 9
      rw [return_, Writers.observe, setPc, Writers.observe, hadd, List.length_append,
        List.length_singleton]
      split_ifs with hfull
      · rw [List.length_tail]
        omega
      · omega
    queue := by
      refine hf₂.trans ?_
      rw [return_, Writers.observe, setPc, Writers.observe, hadd, hr₂, List.map_append,
        List.map_singleton, hcont, List.append_assoc,
        ← List.append_assoc (removed (dropsOf _)), hqueue,
        ← List.append_assoc, h.queue]
    submitted := by
      refine perm_logged (directs s.log) (fails s.log ++ [d.content]) h.submitted
        hperm ?_ |>.trans ?_
      · rw [← List.append_assoc]
        exact List.perm_append_singleton _ _
      · exact .of_eq (by simp only [return_, Writers.observe, setPc, hd₂, hf₂])
    succeeded := by
      refine (hret₂ _).trans ?_
      rw [hret₁, hlogged.2.2.2, hreturned.2.2.2.1, List.append_nil, List.append_nil, h.succeeded,
        ← hd₂]
      rfl
    failed := by
      refine (hret₂ _).trans ?_
      rw [hret₁, hlogged.2.2.2, hreturned.2.2.2.2, List.append_nil, h.failed, ← hf₂]
      rfl
    code := code_setPc h.code (fun _ _ hpc => by cases hpc) i }

/-- Every step keeps the balance. -/
theorem Balanced.step (h : Balanced s active) (hstep : Step s s') :
    ∃ active', Balanced s' active' := by
  cases hstep with
  | empty hi hd => exact ⟨_, h.returned hi _ (by decide) (by decide)⟩
  | overSize hi hd hlen => exact ⟨_, h.returned hi _ (by decide) (by decide)⟩
  | start hv hi hd hlen => exact ⟨_, h.start hi hv⟩
  | @retry i d results hi =>
    obtain ⟨n, -, hq, hhanded, -⟩ := retrySendFailedData_spec (t := s.transport results) rfl h.valid
    obtain ⟨hdirects, hfails, hremoved, hret⟩ :=
      retried_spec ((s.retryDataList.take n).map RawData.content)
    have hobs := h.observe (q := s.retryDataList.drop n) (fun d hd => List.mem_of_mem_drop hd)
      (by simp) (by rw [hremoved, ← List.map_append, List.take_append_drop]) hdirects hfails
      (hret _) (hret _)
    refine ⟨active, ?_⟩
    rw [hq, hhanded]
    exact hobs.move (by simp only [Writers.observe, hi]; rfl) fun _ _ hpc => by cases hpc
  | @sent i d n src hi hr => exact h.sent (by rw [hi]; rfl)
  | @notSent i d n src hi hr =>
    refine ⟨active, h.move ?_ fun e retCode hpc => ?_⟩
    · rw [hi]
      split_ifs <;> rfl
    · split_ifs at hpc
      cases hpc
      exact isSendError_send hr
  | add results hi => exact h.add hi results

/-! ## What a run conserves -/

theorem balanced_of_reachable (h : Reachable s) : ∃ active, Balanced s active := by
  induction h with
  | refl => exact ⟨[], balanced_init⟩
  | tail _ hstep ih =>
    obtain ⟨active, hactive⟩ := ih
    exact hactive.step hstep

/-- The account of the blocks submitted, with multiplicity. -/
structure Accounts (s : Writers ι) (active : List (ι × RawData)) : Prop where
  working : Working s.pc active
  length_le : s.retryDataList.length ≤ retryQueueSize
  conserved : s.submitted.Perm (handedOver s.log ++ drops s.log ++
    s.retryDataList.map RawData.content ++ inFlight active)
  ordered : fails s.log = removed s.log ++ s.retryDataList.map RawData.content
  succeeded : returnsOf (fun c => c = success) s.log = directs s.log
  failed : returnsOf isSendError s.log = fails s.log

/-- The blocks that were sent or failed are those handed over, dropped and queued. -/
theorem Balanced.perm (h : Balanced s active) : (directs s.log ++ fails s.log).Perm
    (handedOver s.log ++ drops s.log ++ s.retryDataList.map RawData.content) := by
  refine List.perm_iff_count.2 fun x => ?_
  rw [h.queue]
  simp only [List.count_append, count_handedOver, count_removed]
  omega

theorem Balanced.accounts (h : Balanced s active) : Accounts s active :=
  ⟨h.working, h.length_le, h.submitted.trans (h.perm.append_right _), h.queue, h.succeeded,
    h.failed⟩

/-- In every reachable state, no matter how the threads interleave and whether the blocks are
distinct, and with every copy granted, every block submitted is handed over, dropped, queued or
in flight, once for every time it was submitted. -/
theorem accounts_of_reachable (h : Reachable s) : ∃ active, Accounts s active := by
  obtain ⟨active, hactive⟩ := balanced_of_reachable h
  exact ⟨active, hactive.accounts⟩

/-- Two threads with the same block : the sends of the first fail, and the second retries it before
it sends its own. -/
theorem accounts_of_twice : ∃ s : Writers Bool, s.submitted = [[1], [1]] ∧ fails s.log = [[1]] ∧
    retries s.log = [[1]] ∧ directs s.log = [[1]] ∧ ∃ active, Accounts s active := by
  obtain ⟨s, hs, hsubmitted, hfails, hretries, hdirects, -⟩ :=
    @reachable_retried ⟨some [1], 1, 1⟩ ⟨⟨[1], rfl, rfl⟩, le_rfl⟩ rfl (by decide)
  exact ⟨s, hsubmitted, hfails, hretries, hdirects, accounts_of_reachable hs⟩

end Transport

end HiSysEvent
