import Mathlib.Data.List.Perm.Basic
import Mathlib.Data.List.Count
import Mathlib.Data.List.Nodup
import Mathlib.Logic.Relation
import HiSysEvent.Transport

/-!
# The retry queue under concurrent writers

Any number of threads call `SendData`. The retries and the addition of a failed block run
under the mutex, so each is one step, and so is every direct send. `Step` interleaves
the steps of the threads in any order, with any outcome of every send, and logs what
happens to each block, identified by its content (`Obs`).

The log explains the queue : the blocks that failed, in order, are those that left the
queue followed by those in it (`Inv.queue`). So as long as the submitted blocks are
distinct, every block is handed over at most once, one that failed is queued, retried or
dropped, and the queue is in the order of the failures (`conserves_of_reachable`).
-/

set_option linter.unusedSectionVars false

namespace HiSysEvent

namespace Transport

variable {ι : Type} [DecidableEq ι]

/-! ## Steps -/

/-- What happens to a block. -/
inductive Obs
  | direct (x : Bytes)
  | retried (x : Bytes)
  | failed (x : Bytes)
  | dropped (x : Bytes)
  | returned (x : Bytes) (retCode : ℤ)

/-- Where a thread is in `SendData`. -/
inductive Pc
  | idle
  | retrying (d : RawData)
  | sending (d : RawData) (tryTimes : ℕ)
  | adding (d : RawData) (retCode : ℤ)

/-- The queue and the threads, with the blocks submitted and the log. -/
structure Writers (ι : Type) where
  retryDataList : List RawData
  pc : ι → Pc
  submitted : List Bytes
  log : List Obs

namespace Writers

/-- Every thread at rest and nothing queued. -/
def init : Writers ι :=
  ⟨[], fun _ => .idle, [], []⟩

/-- Set where a thread stands. -/
def setPc (s : Writers ι) (i : ι) (pc : Pc) : Writers ι :=
  { s with pc := fun j => if j = i then pc else s.pc j }

/-- Write down what was seen. -/
def observe (s : Writers ι) (obs : List Obs) : Writers ι :=
  { s with log := s.log ++ obs }

/-- `SendData` returns. -/
def return_ (s : Writers ι) (i : ι) (d : RawData) (retCode : ℤ) : Writers ι :=
  (s.setPc i .idle).observe [.returned d.content retCode]

/-- The queue as the source functions see it, with any outcomes to come. -/
def transport (s : Writers ι) (results : ℕ → SendResult) : Transport :=
  ⟨s.retryDataList, ⟨results, []⟩, Alloc.always⟩

/-- The front of a full queue. -/
def dropsOf (q : List RawData) : List Obs :=
  if q.length ≥ retryQueueSize then (q.take 1).map fun d => .dropped d.content else []

end Writers

open Writers

/-- One step of a thread. -/
inductive Step : Writers ι → Writers ι → Prop
  | empty {s : Writers ι} {i : ι} {d : RawData} (hi : s.pc i = .idle) (hd : d.isEmpty = true) :
    Step s (s.return_ i d errEmptyEvent)
  | overSize {s : Writers ι} {i : ι} {d : RawData} (hi : s.pc i = .idle) (hd : d.isEmpty = false)
    (hlen : d.len > maxDataSize) : Step s (s.return_ i d errOverSize)
  | start {s : Writers ι} {i : ι} {d : RawData} (hv : d.Valid) (hi : s.pc i = .idle)
    (hd : d.isEmpty = false) (hlen : ¬d.len > maxDataSize) :
    Step s { s.setPc i (.retrying d) with submitted := s.submitted ++ [d.content] }
  | retry {s : Writers ι} {i : ι} {d : RawData} (results : ℕ → SendResult)
    (hi : s.pc i = .retrying d) :
    Step s (({ s with
      retryDataList := (s.transport results).retrySendFailedData.retryDataList }.observe
        ((s.transport results).retrySendFailedData.source.handed.map .retried)).setPc i
          (.sending d retryTimes))
  | sent {s : Writers ι} {i : ι} {d : RawData} {n : ℕ} (src : DataSource)
    (hi : s.pc i = .sending d (n + 1)) (hr : (sendToHiSysEventDataSource d src).1 = success) :
    Step s ((s.observe [.direct d.content]).return_ i d success)
  | notSent {s : Writers ι} {i : ι} {d : RawData} {n : ℕ} (src : DataSource)
    (hi : s.pc i = .sending d (n + 1)) (hr : (sendToHiSysEventDataSource d src).1 ≠ success) :
    Step s (s.setPc i (if n = 0 then .adding d (sendToHiSysEventDataSource d src).1
      else .sending d n))
  | add {s : Writers ι} {i : ι} {d : RawData} {retCode : ℤ} (results : ℕ → SendResult)
    (hi : s.pc i = .adding d retCode) :
    Step s (({ s with
      retryDataList := ((s.transport results).addFailedData d).retryDataList }.observe
        (.failed d.content :: dropsOf s.retryDataList)).return_ i d retCode)

/-! ## Reading the log -/

/-- The blocks handed over by their own call. -/
def directs (log : List Obs) : List Bytes :=
  log.filterMap fun | .direct x => some x | _ => none

/-- The blocks handed over from the queue. -/
def retries (log : List Obs) : List Bytes :=
  log.filterMap fun | .retried x => some x | _ => none

/-- The blocks that left the queue unsent. -/
def drops (log : List Obs) : List Bytes :=
  log.filterMap fun | .dropped x => some x | _ => none

/-- The blocks that failed all direct sends, in order. -/
def fails (log : List Obs) : List Bytes :=
  log.filterMap fun | .failed x => some x | _ => none

/-- The blocks handed over, in order. -/
def handedOver (log : List Obs) : List Bytes :=
  log.filterMap fun | .direct x => some x | .retried x => some x | _ => none

/-- The blocks that left the queue, in order. -/
def removed (log : List Obs) : List Bytes :=
  log.filterMap fun | .retried x => some x | .dropped x => some x | _ => none

theorem count_handedOver (x : Bytes) :
    ∀ log, (handedOver log).count x = (directs log).count x + (retries log).count x
  | [] => rfl
  | o :: log => by
    have := count_handedOver x log
    cases o <;> simp only [handedOver, directs, retries, List.filterMap_cons, List.count_cons] at * <;>
      omega

theorem count_removed (x : Bytes) :
    ∀ log, (removed log).count x = (retries log).count x + (drops log).count x
  | [] => rfl
  | o :: log => by
    have := count_removed x log
    cases o <;> simp only [removed, drops, retries, List.filterMap_cons, List.count_cons] at * <;>
      omega

/-! ## Positions in the log -/

/-- `P` holds of every observation and the log before it. -/
def EachAt (P : List Obs → Obs → Prop) (log : List Obs) : Prop :=
  ∀ l₁ o l₂, log = l₁ ++ o :: l₂ → P l₁ o

theorem eachAt_nil (P : List Obs → Obs → Prop) : EachAt P [] :=
  fun _ _ _ h => absurd h (by simp)

theorem EachAt.append {P : List Obs → Obs → Prop} {log obs : List Obs} (h : EachAt P log)
    (hobs : ∀ l₁ o l₂, obs = l₁ ++ o :: l₂ → P (log ++ l₁) o) : EachAt P (log ++ obs) := by
  intro l₁ o l₂ heq
  rcases List.append_eq_append_iff.1 heq with ⟨m, rfl, hm⟩ | ⟨m, rfl, hm⟩
  · exact hobs m o l₂ hm
  · rcases m with _ | ⟨o', m⟩
    · simpa using hobs [] o l₂ hm.symm
    · obtain ⟨rfl, -⟩ : o' = o ∧ _ := by simpa [eq_comm] using hm
      exact h l₁ o' m rfl

theorem EachAt.snoc {P : List Obs → Obs → Prop} {log : List Obs} {o : Obs} (h : EachAt P log)
    (ho : P log o) : EachAt P (log ++ [o]) := by
  refine h.append fun l₁ o' l₂ heq => ?_
  rcases l₁ with _ | ⟨_, _⟩
  · obtain ⟨rfl, -⟩ : o = o' ∧ _ := by simpa using heq
    simpa using ho
  · simp at heq

/-- What must have happened before an observation. A block is retried after it failed, it is
dropped after ten others failed while it was queued, and `SendData` returns what happened. -/
def Justified (log : List Obs) : Obs → Prop
  | .retried x => x ∈ fails log
  | .dropped x => ∃ l₁ l₂, log = l₁ ++ .failed x :: l₂ ∧ retryQueueSize ≤ (fails l₂).length ∧
      x ∉ removed l₂
  | .returned x retCode => (retCode = success → x ∈ directs log) ∧
      (retCode = errDoesNotInit ∨ retCode = errSendFail → x ∈ fails log)
  | _ => True

/-! ## The invariant -/

/-- The block a thread is working on. -/
def Pc.block : Pc → Option RawData
  | .idle => none
  | .retrying d => some d
  | .sending d _ => some d
  | .adding d _ => some d

/-- The log explains the queue, and the threads work on blocks the log does not mention. -/
structure Inv (s : Writers ι) : Prop where
  valid : ∀ d ∈ s.retryDataList, d.Valid
  length_le : s.retryDataList.length ≤ retryQueueSize
  queue : fails s.log = removed s.log ++ s.retryDataList.map RawData.content
  once : (directs s.log ++ fails s.log).Nodup
  submitted : ∀ x ∈ directs s.log ++ fails s.log, x ∈ s.submitted
  sized : ∀ x ∈ s.submitted, x ≠ [] ∧ x.length ≤ maxDataSize
  justified : EachAt Justified s.log
  active : ∀ i d, (s.pc i).block = some d →
    d.Valid ∧ d.content ∈ s.submitted ∧ d.content ∉ directs s.log ++ fails s.log
  own : ∀ i j d e, (s.pc i).block = some d → (s.pc j).block = some e → d.content = e.content →
    i = j
  failure : ∀ i d retCode, s.pc i = .adding d retCode → retCode ≠ success

theorem inv_init : Inv (init : Writers ι) where
  valid := by simp [init]
  length_le := by simp [init]
  queue := rfl
  once := List.nodup_nil
  submitted := by simp [init, directs, fails]
  sized := by simp [init]
  justified := eachAt_nil _
  active := by simp [init, Pc.block]
  own := by simp [init, Pc.block]
  failure := by simp [init]

theorem block_setPc (s : Writers ι) (i j : ι) (pc : Pc) :
    ((s.setPc i pc).pc j).block = if j = i then pc.block else (s.pc j).block := by
  simp only [setPc]
  split_ifs <;> rfl

/-! ### Changes of one thread -/

/-- A thread goes on with the same block. -/
theorem Inv.move {s : Writers ι} (h : Inv s) {i : ι} {pc : Pc} (hpc : pc.block = (s.pc i).block)
    (hfail : ∀ d retCode, pc = .adding d retCode → retCode ≠ success) : Inv (s.setPc i pc) := by
  have hblock : ∀ j, ((s.setPc i pc).pc j).block = (s.pc j).block := fun j => by
    rw [block_setPc]
    split_ifs with hj
    · rw [hj, hpc]
    · rfl
  refine { h with active := fun j d hd => ?_, own := fun j j' d e hd he => ?_, failure := ?_ }
  · rw [hblock] at hd
    exact h.active j d hd
  · rw [hblock] at hd he
    exact h.own j j' d e hd he
  · intro j d retCode hj
    simp only [setPc] at hj
    split_ifs at hj
    · exact hfail d retCode hj
    · exact h.failure j d retCode hj

/-- A thread is done. -/
theorem Inv.idle {s : Writers ι} (h : Inv s) (i : ι) : Inv (s.setPc i .idle) := by
  have hblock : ∀ j d, ((s.setPc i .idle).pc j).block = some d → (s.pc j).block = some d := by
    intro j d hd
    rw [block_setPc] at hd
    split_ifs at hd
    · cases hd
    · exact hd
  refine { h with
    active := fun j d hd => h.active j d (hblock j d hd)
    own := fun j j' d e hd he => h.own j j' d e (hblock j d hd) (hblock j' e he)
    failure := ?_ }
  intro j d retCode hj
  simp only [setPc] at hj
  split_ifs at hj
  exact h.failure j d retCode hj

/-- A block submitted that no thread works on and the log does not mention. -/
structure Fresh (s : Writers ι) (x : Bytes) : Prop where
  submitted : x ∈ s.submitted
  unlogged : x ∉ directs s.log ++ fails s.log
  free : ∀ i d, (s.pc i).block = some d → d.content ≠ x

theorem Inv.fresh {s : Writers ι} (h : Inv s) {i : ι} {d : RawData}
    (hd : (s.pc i).block = some d) : Fresh (s.setPc i .idle) d.content := by
  refine ⟨(h.active i d hd).2.1, (h.active i d hd).2.2, fun j e he heq => ?_⟩
  rw [block_setPc] at he
  split_ifs at he with hj
  · cases he
  · exact hj (h.own j i e d he hd heq)

/-! ### Changes of the log -/

theorem Inv.returned {s : Writers ι} (h : Inv s) {x : Bytes} {retCode : ℤ}
    (hj : Justified s.log (.returned x retCode)) : Inv (s.observe [.returned x retCode]) where
  valid := h.valid
  length_le := h.length_le
  queue := by simpa [observe, fails, removed] using h.queue
  once := by simpa [observe, directs, fails] using h.once
  submitted := by simpa [observe, directs, fails] using h.submitted
  sized := h.sized
  justified := h.justified.snoc hj
  active := by simpa [observe, directs, fails] using h.active
  own := h.own
  failure := h.failure

/-- Logging a fresh block keeps the blocks of the log distinct, submitted, and apart from those
the threads work on. -/
theorem Inv.logs {s : Writers ι} (h : Inv s) {x : Bytes} (hx : Fresh s x) (log : List Obs)
    (hperm : (directs log ++ fails log).Perm (x :: (directs s.log ++ fails s.log))) :
    (directs log ++ fails log).Nodup ∧ (∀ y ∈ directs log ++ fails log, y ∈ s.submitted) ∧
      ∀ i d, (s.pc i).block = some d →
        d.Valid ∧ d.content ∈ s.submitted ∧ d.content ∉ directs log ++ fails log := by
  refine ⟨hperm.nodup_iff.2 (List.nodup_cons.2 ⟨hx.unlogged, h.once⟩), fun y hy => ?_,
    fun i d hd => ?_⟩
  · rcases List.mem_cons.1 (hperm.mem_iff.1 hy) with rfl | hy
    · exact hx.submitted
    · exact h.submitted y hy
  · obtain ⟨hv, hsub, hlog⟩ := h.active i d hd
    refine ⟨hv, hsub, fun hmem => ?_⟩
    rcases List.mem_cons.1 (hperm.mem_iff.1 hmem) with heq | hmem
    · exact hx.free i d hd heq
    · exact hlog hmem

theorem Inv.direct {s : Writers ι} (h : Inv s) {x : Bytes} (hx : Fresh s x) :
    Inv (s.observe [.direct x]) := by
  obtain ⟨honce, hsub, hact⟩ := h.logs hx (s.log ++ [.direct x]) (by
    simp [directs, fails])
  exact {
    valid := h.valid
    length_le := h.length_le
    queue := by simpa [observe, fails, removed] using h.queue
    once := honce
    submitted := hsub
    sized := h.sized
    justified := h.justified.snoc trivial
    active := hact
    own := h.own
    failure := h.failure }

/-- The retries take blocks off the front of the queue. -/
theorem Inv.retry {s : Writers ι} (h : Inv s) (n : ℕ) :
    Inv ({ s with retryDataList := s.retryDataList.drop n }.observe
      (((s.retryDataList.take n).map RawData.content).map .retried)) := by
  have hretried : ∀ xs : List Bytes, directs (xs.map .retried) = [] ∧
      fails (xs.map .retried) = [] ∧ removed (xs.map .retried) = xs := fun xs => by
    simp [directs, fails, removed, List.filterMap_map]
  obtain ⟨hd, hf, hr⟩ := hretried ((s.retryDataList.take n).map RawData.content)
  have hdirects : directs (s.log ++ ((s.retryDataList.take n).map RawData.content).map .retried) =
      directs s.log := by
    rw [directs, List.filterMap_append, ← directs, ← directs, hd, List.append_nil]
  have hfails : fails (s.log ++ ((s.retryDataList.take n).map RawData.content).map .retried) =
      fails s.log := by
    rw [fails, List.filterMap_append, ← fails, ← fails, hf, List.append_nil]
  exact {
    valid := fun d hd => h.valid d (List.mem_of_mem_drop hd)
    length_le := le_trans (by simp [observe]) h.length_le
    queue := by
      simp only [observe, hfails]
      rw [removed, List.filterMap_append, ← removed, ← removed, hr, h.queue, List.append_assoc,
        ← List.map_append, List.take_append_drop]
    once := by simpa only [observe, hdirects, hfails] using h.once
    submitted := by simpa only [observe, hdirects, hfails] using h.submitted
    sized := h.sized
    justified := by
      refine h.justified.append fun l₁ o l₂ heq => ?_
      have hmem : o ∈ ((s.retryDataList.take n).map RawData.content).map Obs.retried := by
        rw [heq]
        simp
      obtain ⟨x, hx, rfl⟩ := List.mem_map.1 hmem
      have hx' : x ∈ fails s.log := by
        rw [h.queue, List.map_take] at *
        exact List.mem_append_right _ (List.mem_of_mem_take hx)
      rw [Justified, fails, List.filterMap_append]
      exact List.mem_append_left _ hx'
    active := by simpa only [observe, hdirects, hfails] using h.active
    own := h.own
    failure := h.failure }

/-- A block among those that failed, found in the log. -/
theorem split_fails {log : List Obs} {xs ys : List Bytes} {y : Bytes}
    (h : fails log = xs ++ y :: ys) :
    ∃ l₁ l₂, log = l₁ ++ .failed y :: l₂ ∧ fails l₂ = ys := by
  obtain ⟨a, b, rfl, -, hb⟩ := List.filterMap_eq_append_iff.1 h
  obtain ⟨b₁, o, b₂, rfl, -, ho, hb₂⟩ := List.filterMap_eq_cons_iff.1 hb
  have hfailed : o = .failed y := by
    cases o <;> simp_all
  subst hfailed
  exact ⟨a ++ b₁, b₂, by simp, hb₂⟩

/-- Ten blocks failed after the front of a full queue once the next one did. -/
theorem Inv.justified_drop {s : Writers ι} (h : Inv s) {y : RawData} {rest : List RawData}
    (hq : s.retryDataList = y :: rest) (hfull : retryQueueSize ≤ s.retryDataList.length)
    (x : Bytes) : Justified (s.log ++ [.failed x]) (.dropped y.content) := by
  have hqueue := h.queue
  rw [hq, List.map_cons] at hqueue
  obtain ⟨l₁, l₂, hlog, hl₂⟩ := split_fails hqueue
  refine ⟨l₁, l₂ ++ [.failed x], by simp [hlog], ?_, ?_⟩
  · rw [hq, List.length_cons] at hfull
    rw [fails, List.filterMap_append, ← fails, hl₂]
    simpa using hfull
  · have hnodup := (List.nodup_append.1 h.once).2.1
    rw [hqueue] at hnodup
    have hnot : y.content ∉ removed s.log := fun hmem =>
      (List.nodup_append.1 hnodup).2.2 _ hmem _ (by simp) rfl
    intro hmem
    apply hnot
    rw [hlog]
    simp only [removed, List.filterMap_append, List.filterMap_cons, List.filterMap_nil,
      List.append_nil] at hmem ⊢
    exact List.mem_append_right _ hmem

/-- A fresh block that failed enters at the back of what is left of the queue. -/
theorem Inv.push {s : Writers ι} (h : Inv s) {d : RawData} (hv : d.Valid)
    (hx : Fresh s d.content) {q : List RawData} {obs : List Obs}
    (hq : ∀ e ∈ q, e ∈ s.retryDataList) (hlen : q.length < retryQueueSize)
    (hqueue : removed obs ++ q.map RawData.content = s.retryDataList.map RawData.content)
    (hdirects : directs obs = []) (hfails : fails obs = [d.content])
    (hj : EachAt Justified (s.log ++ obs)) :
    Inv ({ s with retryDataList := q ++ [(d.copy Alloc.always).1] }.observe obs) := by
  obtain ⟨hvc, hcont⟩ := RawData.copy_spec hv Alloc.next_always
  have hd : directs (s.log ++ obs) = directs s.log := by
    rw [directs, List.filterMap_append, ← directs, ← directs, hdirects, List.append_nil]
  have hf : fails (s.log ++ obs) = fails s.log ++ [d.content] := by
    rw [fails, List.filterMap_append, ← fails, ← fails, hfails]
  have hr : removed (s.log ++ obs) = removed s.log ++ removed obs := by
    rw [removed, List.filterMap_append, ← removed, ← removed]
  obtain ⟨honce, hsub, hact⟩ := h.logs hx (s.log ++ obs) (by
    rw [hd, hf, ← List.append_assoc]
    exact List.perm_append_singleton _ _)
  exact {
    valid := fun e he => by
      rcases List.mem_append.1 he with he | he
      · exact h.valid e (hq e he)
      · rw [List.mem_singleton.1 he]
        exact hvc
    length_le := by
      simp only [observe, List.length_append, List.length_singleton]
      omega
    queue := by
      simp only [observe, hf, hr, List.map_append, List.map_cons, List.map_nil, hcont]
      rw [h.queue, ← hqueue]
      simp only [List.append_assoc]
    once := honce
    submitted := hsub
    sized := h.sized
    justified := hj
    active := hact
    own := h.own
    failure := h.failure }

/-- The queue takes in a block that failed, at the expense of its front when it is full. -/
theorem Inv.add {s : Writers ι} (h : Inv s) {d : RawData} (hv : d.Valid) (hx : Fresh s d.content)
    (results : ℕ → SendResult) :
    Inv ({ s with
      retryDataList := ((s.transport results).addFailedData d).retryDataList }.observe
        (.failed d.content :: dropsOf s.retryDataList)) := by
  have hadd : ((s.transport results).addFailedData d).retryDataList =
      (if s.retryDataList.length ≥ retryQueueSize then s.retryDataList.tail
        else s.retryDataList) ++ [(d.copy Alloc.always).1] := rfl
  have hfailed : EachAt Justified (s.log ++ [.failed d.content]) := h.justified.snoc trivial
  rw [hadd]
  by_cases hfull : s.retryDataList.length ≥ retryQueueSize
  · obtain ⟨y, rest, hq⟩ : ∃ y rest, s.retryDataList = y :: rest :=
      List.exists_cons_of_length_pos (lt_of_lt_of_le (by decide) hfull)
    have hlen := h.length_le
    have hdrop := hfailed.snoc (h.justified_drop hq hfull d.content)
    rw [dropsOf, if_pos hfull, if_pos hfull, hq]
    rw [hq, List.length_cons] at hlen
    refine h.push hv hx (fun e he => hq ▸ List.mem_cons_of_mem y he) hlen ?_ rfl rfl ?_
    · simp [removed, hq]
    · simpa using hdrop
  · rw [dropsOf, if_neg hfull, if_neg hfull]
    exact h.push hv hx (fun e he => he) (not_le.1 hfull) (by simp [removed]) rfl rfl hfailed

/-- A thread takes on a block that was not submitted before. -/
theorem Inv.start {s : Writers ι} (h : Inv s) {i : ι} {d : RawData} (hv : d.Valid)
    (hd : d.isEmpty = false) (hlen : ¬d.len > maxDataSize) (hnew : d.content ∉ s.submitted) :
    Inv { s.setPc i (.retrying d) with submitted := s.submitted ++ [d.content] } where
  valid := h.valid
  length_le := h.length_le
  queue := h.queue
  once := h.once
  submitted := fun x hx => List.mem_append_left _ (h.submitted x hx)
  sized := fun x hx => by
    rcases List.mem_append.1 hx with hx | hx
    · exact h.sized x hx
    · rw [List.mem_singleton.1 hx, hv.length_content]
      exact ⟨fun hnil => by simp [(isEmpty_iff hv).2 hnil] at hd, not_lt.1 hlen⟩
  justified := h.justified
  active := fun j e he => by
    have hblock := block_setPc s i j (.retrying d)
    by_cases hj : j = i
    · rw [if_pos hj] at hblock
      obtain rfl : d = e := Option.some.inj (hblock.symm.trans he)
      exact ⟨hv, by simp, fun hmem => hnew (h.submitted _ hmem)⟩
    · rw [if_neg hj] at hblock
      obtain ⟨hve, hsub, hlog⟩ := h.active j e (hblock.symm.trans he)
      exact ⟨hve, List.mem_append_left _ hsub, hlog⟩
  own := fun j j' e e' he he' heq => by
    have hblock : ∀ l f, ((s.setPc i (.retrying d)).pc l).block = some f →
        (l = i ∧ f = d) ∨ (l ≠ i ∧ (s.pc l).block = some f) := fun l f hf => by
      rw [block_setPc] at hf
      split_ifs at hf with hl
      · exact Or.inl ⟨hl, (Option.some.inj hf).symm⟩
      · exact Or.inr ⟨hl, hf⟩
    rcases hblock j e he with ⟨hj, rfl⟩ | ⟨hj, hb⟩ <;>
      rcases hblock j' e' he' with ⟨hj', rfl⟩ | ⟨hj', hb'⟩
    · exact hj.trans hj'.symm
    · exact absurd (heq ▸ (h.active j' e' hb').2.1) hnew
    · exact absurd (heq ▸ (h.active j e hb).2.1) hnew
    · exact h.own j j' e e' hb hb' heq
  failure := fun j e retCode hj => by
    simp only [setPc] at hj
    split_ifs at hj
    exact h.failure j e retCode hj

/-! ### Every step -/

theorem retrySendFailedData_spec {t : Transport} (ht : t.alloc = Alloc.always)
    (hv : ∀ d ∈ t.retryDataList, d.Valid) :
    ∃ n ≤ t.retryDataList.length,
      t.retrySendFailedData.retryDataList = t.retryDataList.drop n ∧
      t.retrySendFailedData.source.handed =
        t.source.handed ++ (t.retryDataList.take n).map RawData.content ∧
      t.retrySendFailedData.alloc = Alloc.always := by
  obtain ⟨n, hn, results, hloop⟩ := retryLoop_spec t.retryDataList t.source hv
  rw [← ht] at hloop
  exact ⟨n, hn, by rw [retrySendFailedData, hloop], by rw [retrySendFailedData, hloop],
    by rw [retrySendFailedData, hloop, ht]⟩

/-- As long as the submitted blocks are distinct, every step keeps the invariant. -/
theorem Inv.step {s s' : Writers ι} (h : Inv s) (hstep : Step s s') (hdist : s'.submitted.Nodup) :
    Inv s' := by
  cases hstep with
  | @empty i d hi hd =>
    exact (h.idle i).returned ⟨fun hs => absurd hs (by decide), fun hs => absurd hs (by decide)⟩
  | @overSize i d hi hd hlen =>
    exact (h.idle i).returned ⟨fun hs => absurd hs (by decide), fun hs => absurd hs (by decide)⟩
  | @start i d hv hi hd hlen =>
    refine h.start hv hd hlen fun hmem => ?_
    exact (List.nodup_append.1 hdist).2.2 _ hmem _ (by simp) rfl
  | @retry i d results hi =>
    obtain ⟨n, -, hq, hhanded, -⟩ := retrySendFailedData_spec (t := s.transport results) rfl h.valid
    rw [hq, hhanded]
    refine (h.retry n).move ?_ fun e retCode he => by cases he
    simp only [observe, hi]
    rfl
  | @sent i d n src hi hr =>
    have hblock : (s.pc i).block = some d := by rw [hi]; rfl
    refine ((h.idle i).direct (h.fresh hblock)).returned ⟨fun _ => ?_, fun hs => ?_⟩
    · simp [observe, directs]
    · exact absurd hs (by decide)
  | @notSent i d n src hi hr =>
    refine h.move ?_ fun e retCode he => ?_
    · rw [hi]
      split_ifs <;> rfl
    · split_ifs at he
      cases he
      exact hr
  | @add i d retCode results hi =>
    have hblock : (s.pc i).block = some d := by rw [hi]; rfl
    have hadded := (h.idle i).add (h.active i d hblock).1 (h.fresh hblock) results
    refine hadded.returned ⟨fun hs => absurd hs (h.failure i d retCode hi), fun _ => ?_⟩
    simp [observe, fails]

/-! ## What a run conserves -/

/-- A state the threads can reach. -/
def Reachable (s : Writers ι) : Prop :=
  Relation.ReflTransGen Step init s

theorem submitted_step {s s' : Writers ι} (h : Step s s') : s.submitted <+: s'.submitted := by
  cases h <;> first | exact List.prefix_refl _ | exact List.prefix_append _ _

theorem inv_of_reachable {s : Writers ι} (h : Reachable s) (hdist : s.submitted.Nodup) : Inv s := by
  induction h with
  | refl => exact inv_init
  | tail _ hstep ih =>
    exact (ih (hdist.sublist (submitted_step hstep).sublist)).step hstep hdist

/-- What became of a block that failed : it is queued, or it was handed over by a later retry,
or it was dropped. -/
inductive Fate (s : Writers ι) (x : Bytes) : Prop
  | queued (hq : (s.retryDataList.map RawData.content).count x = 1)
    (hh : x ∉ handedOver s.log) (hd : .dropped x ∉ s.log)
  | retried (hq : x ∉ s.retryDataList.map RawData.content)
    (hh : (handedOver s.log).count x = 1) (hd : .dropped x ∉ s.log)
    (hlog : ∃ l₁ l₂, s.log = l₁ ++ .retried x :: l₂ ∧ .failed x ∈ l₁)
  | dropped (hq : x ∉ s.retryDataList.map RawData.content) (hh : x ∉ handedOver s.log)
    (hd : (drops s.log).count x = 1)

/-- Conservation and delivery at most once. -/
structure Conserves (s : Writers ι) : Prop where
  length_le : s.retryDataList.length ≤ retryQueueSize
  once : (handedOver s.log).Nodup
  success : ∀ x, .returned x HiSysEvent.success ∈ s.log →
    x ∈ handedOver s.log ∧ .failed x ∉ s.log ∧ x ∉ s.retryDataList.map RawData.content
  failure : ∀ x retCode, .returned x retCode ∈ s.log →
    retCode = errDoesNotInit ∨ retCode = errSendFail → Fate s x
  drop : ∀ l₁ x l₂, s.log = l₁ ++ .dropped x :: l₂ → ∃ m₁ m₂, l₁ = m₁ ++ .failed x :: m₂ ∧
    retryQueueSize ≤ (fails m₂).length ∧ x ∉ removed m₂
  ordered : s.retryDataList.map RawData.content <:+ fails s.log
  sized : ∀ x, x ∈ handedOver s.log ∨ x ∈ s.retryDataList.map RawData.content →
    x ≠ [] ∧ x.length ≤ maxDataSize

theorem mem_fails {log : List Obs} {x : Bytes} : x ∈ fails log ↔ .failed x ∈ log := by
  simp only [fails, List.mem_filterMap]
  constructor
  · rintro ⟨o, ho, heq⟩
    cases o <;> simp_all
  · exact fun h => ⟨_, h, rfl⟩

theorem mem_drops {log : List Obs} {x : Bytes} : x ∈ drops log ↔ .dropped x ∈ log := by
  simp only [drops, List.mem_filterMap]
  constructor
  · rintro ⟨o, ho, heq⟩
    cases o <;> simp_all
  · exact fun h => ⟨_, h, rfl⟩

theorem mem_retries {log : List Obs} {x : Bytes} : x ∈ retries log ↔ .retried x ∈ log := by
  simp only [retries, List.mem_filterMap]
  constructor
  · rintro ⟨o, ho, heq⟩
    cases o <;> simp_all
  · exact fun h => ⟨_, h, rfl⟩

/-- How often each kind of observation mentions a block. -/
theorem Inv.count {s : Writers ι} (h : Inv s) (x : Bytes) :
    (handedOver s.log).count x = (directs s.log).count x + (retries s.log).count x ∧
      (fails s.log).count x = (retries s.log).count x + (drops s.log).count x +
        (s.retryDataList.map RawData.content).count x ∧
      (directs s.log).count x + (fails s.log).count x ≤ 1 := by
  refine ⟨count_handedOver x s.log, ?_, ?_⟩
  · rw [h.queue, List.count_append, count_removed]
  · rw [← List.count_append]
    exact List.nodup_iff_count_le_one.1 h.once x

theorem Inv.fate {s : Writers ι} (h : Inv s) {x : Bytes} (hx : x ∈ fails s.log) : Fate s x := by
  obtain ⟨hhanded, hfails, honce⟩ := h.count x
  have hpos : 0 < (fails s.log).count x := List.count_pos_iff.2 hx
  have hcases : (retries s.log).count x + (drops s.log).count x +
      (s.retryDataList.map RawData.content).count x = 1 := by omega
  by_cases hq : (s.retryDataList.map RawData.content).count x = 1
  · refine .queued hq (List.count_eq_zero.1 (by omega)) fun hd => ?_
    have := List.count_pos_iff.2 (mem_drops.2 hd)
    omega
  · have hq0 : x ∉ s.retryDataList.map RawData.content := List.count_eq_zero.1 (by omega)
    by_cases hr : (retries s.log).count x = 1
    · refine .retried hq0 (by omega) (fun hd => ?_) ?_
      · have := List.count_pos_iff.2 (mem_drops.2 hd)
        omega
      · have hmem := mem_retries.1 (List.count_pos_iff.1 (show 0 < (retries s.log).count x by omega))
        obtain ⟨l₁, l₂, hlog⟩ := List.append_of_mem hmem
        exact ⟨l₁, l₂, hlog, mem_fails.1 (h.justified l₁ _ l₂ hlog)⟩
    · exact .dropped hq0 (List.count_eq_zero.1 (by omega)) (by omega)

/-- As long as the submitted blocks are distinct, the queue and the log conserve them. -/
theorem conserves_of_reachable {s : Writers ι} (h : Reachable s) (hdist : s.submitted.Nodup) :
    Conserves s := by
  have hinv := inv_of_reachable h hdist
  have hjust : ∀ x retCode, .returned x retCode ∈ s.log → ∃ l₁ l₂,
      s.log = l₁ ++ .returned x retCode :: l₂ ∧ Justified l₁ (.returned x retCode) :=
    fun x retCode hx => by
      obtain ⟨l₁, l₂, hlog⟩ := List.append_of_mem hx
      exact ⟨l₁, l₂, hlog, hinv.justified l₁ _ l₂ hlog⟩
  refine ⟨hinv.length_le, ?_, ?_, ?_, ?_, ?_, ?_⟩
  · refine List.nodup_iff_count_le_one.2 fun x => ?_
    obtain ⟨hhanded, hfails, honce⟩ := hinv.count x
    omega
  · intro x hx
    obtain ⟨l₁, l₂, hlog, hj⟩ := hjust x _ hx
    have hdirect : x ∈ directs s.log := by
      rw [hlog, directs, List.filterMap_append]
      exact List.mem_append_left _ (hj.1 rfl)
    obtain ⟨hhanded, hfails, honce⟩ := hinv.count x
    have hpos := List.count_pos_iff.2 hdirect
    refine ⟨List.count_pos_iff.1 (by omega), fun hf => ?_, List.count_eq_zero.1 (by omega)⟩
    have := List.count_pos_iff.2 (mem_fails.2 hf)
    omega
  · intro x retCode hx hret
    obtain ⟨l₁, l₂, hlog, hj⟩ := hjust x _ hx
    refine hinv.fate ?_
    rw [hlog, fails, List.filterMap_append]
    exact List.mem_append_left _ (hj.2 hret)
  · exact fun l₁ x l₂ hlog => hinv.justified l₁ _ l₂ hlog
  · rw [hinv.queue]
    exact List.suffix_append _ _
  · intro x hx
    obtain ⟨hhanded, hfails, honce⟩ := hinv.count x
    refine hinv.sized x (hinv.submitted x (List.count_pos_iff.1 ?_))
    rw [List.count_append]
    rcases hx with hx | hx
    · have := List.count_pos_iff.2 hx
      omega
    · have := List.count_pos_iff.2 hx
      omega

/-- A block whose three sends fail while another call is under way, which then finds it in the
queue, retries it and sends its own. -/
theorem reachable_retried {d : RawData} (hv : d.Valid) (hd : d.isEmpty = false)
    (hlen : ¬d.len > maxDataSize) : ∃ s : Writers Bool, Reachable s ∧
      s.submitted = [[1], d.content] ∧ fails s.log = [[1]] ∧ retries s.log = [[1]] ∧
      directs s.log = [d.content] ∧ s.retryDataList = [] := by
  let x : RawData := ⟨some [1], 1, 1⟩
  let refused : DataSource := ⟨fun _ => .sendFail, []⟩
  let granted : DataSource := ⟨fun _ => .success, []⟩
  have hx : x.Valid := ⟨⟨[1], rfl, rfl⟩, le_rfl⟩
  have hfail : (sendToHiSysEventDataSource x refused).1 ≠ success := by decide
  have first : Reachable _ := .single (@Step.start Bool _ init false x hx rfl rfl (by decide))
  have second := first.tail (@Step.start Bool _ _ true d hv rfl hd hlen)
  have sending := second.tail (@Step.retry Bool _ _ false x refused.results rfl)
  have once := sending.tail (@Step.notSent Bool _ _ false x 2 refused rfl hfail)
  have twice := once.tail (@Step.notSent Bool _ _ false x 1 refused rfl hfail)
  have thrice := twice.tail (@Step.notSent Bool _ _ false x 0 refused rfl hfail)
  have queued := thrice.tail (@Step.add Bool _ _ false x errSendFail refused.results rfl)
  have retried := queued.tail (@Step.retry Bool _ _ true d granted.results rfl)
  exact ⟨_, retried.tail (@Step.sent Bool _ _ true d 2 granted rfl rfl), rfl, rfl, rfl, rfl, rfl⟩

/-- A block that is queued and retried by the call of another thread. -/
theorem conserves_of_retried : ∃ s : Writers Bool, fails s.log = [[1]] ∧ retries s.log = [[1]] ∧
    directs s.log = [[2]] ∧ Conserves s := by
  obtain ⟨s, hs, hsubmitted, hfails, hretries, hdirects, -⟩ :=
    @reachable_retried ⟨some [2], 1, 1⟩ ⟨⟨[2], rfl, rfl⟩, le_rfl⟩ rfl (by decide)
  have hcontent : (⟨some [2], 1, 1⟩ : RawData).content = [2] := rfl
  rw [hcontent] at hsubmitted hdirects
  exact ⟨s, hfails, hretries, hdirects,
    conserves_of_reachable hs (by rw [hsubmitted]; decide)⟩

/-! ## A call without interruption -/

theorem setPc_setPc (s : Writers ι) (i : ι) (pc pc' : Pc) :
    (s.setPc i pc).setPc i pc' = s.setPc i pc' := by
  simp only [setPc, Writers.mk.injEq, true_and, and_true]
  funext j
  split_ifs <;> rfl

theorem pc_setPc (s : Writers ι) (i : ι) (pc : Pc) : (s.setPc i pc).pc i = pc :=
  if_pos rfl

theorem return_setPc (s : Writers ι) (i : ι) (pc : Pc) (obs : List Obs) (d : RawData)
    (retCode : ℤ) :
    ((s.setPc i pc).observe obs).return_ i d retCode = (s.observe obs).return_ i d retCode := by
  have hcomm : (s.setPc i pc).observe obs = (s.observe obs).setPc i pc := rfl
  rw [hcomm, return_, setPc_setPc, return_]

/-- Where the direct sends leave a thread. -/
def afterSends (s : Writers ι) (i : ι) (d : RawData) (retCode : ℤ) : Writers ι :=
  if retCode = success then (s.observe [.direct d.content]).return_ i d retCode
  else s.setPc i (.adding d retCode)

theorem afterSends_setPc (s : Writers ι) (i : ι) (pc : Pc) (d : RawData) (retCode : ℤ) :
    afterSends (s.setPc i pc) i d retCode = afterSends s i d retCode := by
  unfold afterSends
  rw [return_setPc, setPc_setPc]

/-- The steps of the direct sends. -/
theorem steps_sendLoop (i : ι) (d : RawData) : ∀ (n : ℕ) (retCode : ℤ) (src : DataSource)
    {s : Writers ι}, s.pc i = .sending d (n + 1) →
      Relation.ReflTransGen Step s (afterSends s i d (sendLoop d (n + 1) retCode src).1)
  | 0, retCode, src, s, hi => by
    by_cases hr : (sendToHiSysEventDataSource d src).1 = success
    · have hloop : (sendLoop d (0 + 1) retCode src).1 = success := by
        simp only [sendLoop, hr, if_true]
      rw [hloop, afterSends, if_pos rfl]
      exact .single (.sent src hi hr)
    · have hloop : (sendLoop d (0 + 1) retCode src).1 = (sendToHiSysEventDataSource d src).1 := by
        simp only [sendLoop, if_neg hr]
      rw [hloop, afterSends, if_neg hr]
      exact .single (.notSent src hi hr)
  | n + 1, retCode, src, s, hi => by
    by_cases hr : (sendToHiSysEventDataSource d src).1 = success
    · have hloop : (sendLoop d (n + 1 + 1) retCode src).1 = success := by
        rw [sendLoop]
        simp only [hr, if_true]
      rw [hloop, afterSends, if_pos rfl]
      exact .single (.sent src hi hr)
    · have hloop : sendLoop d (n + 1 + 1) retCode src =
          sendLoop d (n + 1) (sendToHiSysEventDataSource d src).1
            (sendToHiSysEventDataSource d src).2 := by
        rw [sendLoop]
        simp only [if_neg hr]
      have hstep := Step.notSent src hi hr
      rw [if_neg (Nat.succ_ne_zero n)] at hstep
      have hrest := steps_sendLoop i d n (sendToHiSysEventDataSource d src).1
        (sendToHiSysEventDataSource d src).2 (pc_setPc s i (.sending d (n + 1)))
      rw [afterSends_setPc, ← hloop] at hrest
      exact .head hstep hrest

/-- A thread at rest, the other threads as in `s`. -/
theorem pc_return_ {s : Writers ι} {i : ι} (hi : s.pc i = .idle) {s₁ : Writers ι}
    (h : ∀ j ≠ i, s₁.pc j = s.pc j) (d : RawData) (retCode : ℤ) :
    (s₁.return_ i d retCode).pc = s.pc := by
  funext j
  simp only [return_, observe, setPc]
  split_ifs with hj
  · rw [hj, hi]
  · exact h j hj

/-- `SendData` run without interruption is a sequence of steps of its thread, with the same
queue, the same data handed over and the same code returned. -/
theorem steps_sendData {s : Writers ι} {i : ι} (hi : s.pc i = .idle)
    (hq : ∀ e ∈ s.retryDataList, e.Valid) {d : RawData} (hv : d.Valid)
    (results : ℕ → SendResult) :
    ∃ s' obs, Relation.ReflTransGen Step s s' ∧ s'.pc = s.pc ∧
      s'.retryDataList = (sendData d (s.transport results)).2.retryDataList ∧
      s'.log = s.log ++ obs ++ [.returned d.content (sendData d (s.transport results)).1] ∧
      handedOver obs = (sendData d (s.transport results)).2.source.handed := by
  by_cases hd : d.isEmpty = true
  · refine ⟨_, [], .single (.empty hi hd), pc_return_ hi (fun _ _ => rfl) d _, ?_⟩
    simp only [sendData, hd, if_true, List.append_nil]
    exact ⟨rfl, rfl, rfl⟩
  rw [Bool.not_eq_true] at hd
  by_cases hlen : d.len > maxDataSize
  · refine ⟨_, [], .single (.overSize hi hd hlen), pc_return_ hi (fun _ _ => rfl) d _, ?_⟩
    simp only [sendData, hd, hlen, Bool.false_eq_true, if_true, if_false, List.append_nil]
    exact ⟨rfl, rfl, rfl⟩
  obtain ⟨n, -, -, -, halloc⟩ := retrySendFailedData_spec (t := s.transport results) rfl hq
  have hstart := Step.start hv hi hd hlen
  have hretry := Step.retry (s := { s.setPc i (.retrying d) with
    submitted := s.submitted ++ [d.content] }) results (pc_setPc s i (.retrying d))
  have htransport : Writers.transport { s.setPc i (.retrying d) with
    submitted := s.submitted ++ [d.content] } results = s.transport results := rfl
  rw [htransport] at hretry
  have hhanded := handed_sendLoop d (s.transport results).retrySendFailedData.source
  have hsends := steps_sendLoop i d 2 success (s.transport results).retrySendFailedData.source
    (pc_setPc ({ s.setPc i (.retrying d) with
      submitted := s.submitted ++ [d.content]
      retryDataList := (s.transport results).retrySendFailedData.retryDataList }.observe
        ((s.transport results).retrySendFailedData.source.handed.map .retried)) i
      (.sending d retryTimes))
  have hpath := (Relation.ReflTransGen.single hstart).trans
    ((Relation.ReflTransGen.single hretry).trans hsends)
  rw [afterSends_setPc] at hpath
  simp only [sendData, hd, hlen, Bool.false_eq_true, if_false]
  generalize (s.transport results).retrySendFailedData = t at *
  have hretried : handedOver (t.source.handed.map .retried) = t.source.handed := by
    simp [handedOver, List.filterMap_map]
  by_cases hcode : (sendLoop d retryTimes success t.source).1 = success
  · rw [afterSends, if_pos hcode] at hpath
    rw [if_pos hcode] at hhanded
    refine ⟨_, t.source.handed.map .retried ++ [.direct d.content], hpath,
      pc_return_ hi (fun j hj => if_neg hj) d _, ?_⟩
    simp only [if_pos hcode, hhanded]
    refine ⟨rfl, by simp [return_, observe, setPc], ?_⟩
    rw [handedOver, List.filterMap_append, ← handedOver, ← handedOver, hretried]
    rfl
  · rw [afterSends, if_neg hcode] at hpath
    rw [if_neg hcode] at hhanded
    refine ⟨_, t.source.handed.map .retried ++ (.failed d.content :: dropsOf t.retryDataList),
      hpath.tail (.add results (pc_setPc _ i _)), pc_return_ hi (fun j hj => ?_) d _, ?_⟩
    · simp only [observe, setPc, if_neg hj]
    · simp only [if_neg hcode, addFailedData, hhanded]
      refine ⟨?_, by simp [return_, observe, setPc], ?_⟩
      · simp only [return_, observe, setPc, Writers.transport, halloc]
        rfl
      · have hdrops : handedOver (.failed d.content :: dropsOf t.retryDataList) = [] := by
          unfold dropsOf
          cases t.retryDataList <;> split_ifs <;> rfl
        rw [handedOver, List.filterMap_append, ← handedOver, ← handedOver, hretried, hdrops,
          List.append_nil]

end Transport

end HiSysEvent
