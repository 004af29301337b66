import HiSysEvent.EventSocketFactory
import HiSysEvent.Occupancy

/-!
# The socket of the data source

`SendToHiSysEventDataSource` opens a socket of its own, tries `sendto` at most three times as long
as the error is a transient one, and closes the socket. `SendData` calls it for the front
of the queue, under the mutex and as long as it succeeds, and then for the block itself.

Here every system call of every thread is a step, and the steps interleave. No allocation fails : a
copy that is refused would lose the bytes of its block. A block of the queue stays at the front
from the `sendto` that takes it until the socket is closed and the block is popped. Still none is
lost or doubled : the blocks submitted are those of the datagrams, those dropped, those that wait
in the queue, and those of threads that have not sent theirs (`delivers_of_reachable`). Every
open socket belongs to one thread, and every datagram went to the address of its block.
-/

set_option linter.unusedSectionVars false

namespace HiSysEvent

open Occupancy

namespace DataSocket

variable {ι : Type} [DecidableEq ι]

/-! ## Steps -/

abbrev eintr : ℤ := 4
abbrev eagain : ℤ := 11
abbrev ewouldblock : ℤ := 11

/-- The errors after which `sendto` is called again. -/
def isTransient (errno : ℤ) : Bool :=
  errno = eagain || errno = ewouldblock || errno = eintr

/-- Who calls `SendToHiSysEventDataSource` : `RetrySendFailedData`, or `SendData` with this many
tries left after the call. -/
inductive Caller
  | retry
  | direct (tryTimes : ℕ)

/-- The send is a retry. -/
def Caller.isRetry : Caller → Bool
  | .retry => true
  | .direct _ => false

/-- Where `SendToHiSysEventDataSource` is. -/
inductive SendStage
  | opening
  | writing (socketId retryTimes : ℕ)
  | closing (socketId : ℕ) (retCode : ℤ)

/-- Where a thread is in `SendData` of `d`. -/
inductive Pc
  | idle
  | locking (d : RawData)
  | checking (d : RawData)
  | sending (d : RawData) (caller : Caller) (rawData : RawData) (stage : SendStage)
  | adding (d : RawData) (retCode : ℤ)

/-- A block that `sendto` took. -/
structure Datagram where
  serverAddr : EventSocket
  data : Bytes
  retried : Bool

/-- The queue with its mutex, the threads and the open sockets. Beside them what happened so far :
the datagrams, the blocks submitted and those whose sends all failed, the blocks that left the
queue, with whether they were sent, and the codes returned. -/
structure Sockets (ι : Type) where
  retryDataList : List RawData
  mutex : Option ι
  pc : ι → Pc
  opened : List ℕ
  datagrams : List Datagram
  submitted : List Bytes
  failed : List Bytes
  removed : List (Bytes × Bool)
  returned : List (Bytes × ℤ)

namespace Sockets

/-- Nothing was sent. -/
def init : Sockets ι :=
  ⟨[], none, fun _ => .idle, [], [], [], [], [], []⟩

/-- Move a thread. -/
def setPc (s : Sockets ι) (i : ι) (pc : Pc) : Sockets ι :=
  { s with pc := fun j => if j = i then pc else s.pc j }

/-- `SendData` returns. -/
def return_ (s : Sockets ι) (i : ι) (d : RawData) (retCode : ℤ) : Sockets ι :=
  { s.setPc i .idle with returned := s.returned ++ [(d.content, retCode)] }

/-- The mutex is released, and the first direct try begins. -/
def unlock (s : Sockets ι) (i : ι) (d : RawData) : Sockets ι :=
  { s with mutex := none }.setPc i (.sending d (.direct (Transport.retryTimes - 1)) d .opening)

/-- The front of the queue was sent. -/
def popFront (s : Sockets ι) (i : ι) (d : RawData) : Sockets ι :=
  { s with
    retryDataList := s.retryDataList.tail
    removed := s.removed ++ (s.retryDataList.take 1).map fun f : RawData => (f.content, true)
  }.setPc i (.checking d)

/-- `SendToHiSysEventDataSource` returns to its caller. -/
def resume (s : Sockets ι) (i : ι) (d : RawData) (caller : Caller) (retCode : ℤ) : Sockets ι :=
  match caller with
  | .retry => if retCode ≠ success then s.unlock i d else s.popFront i d
  | .direct 0 => if retCode = success then s.return_ i d retCode else s.setPc i (.adding d retCode)
  | .direct (n + 1) =>
    if retCode = success then s.return_ i d retCode
    else s.setPc i (.sending d (.direct n) d .opening)

/-- The front that `AddFailedData` drops from a full queue. -/
def dropsOf (q : List RawData) : List (Bytes × Bool) :=
  if q.length ≥ Transport.retryQueueSize then (q.take 1).map fun f => (f.content, false) else []

/-- `AddFailedData`, and `SendData` returns. -/
def add (s : Sockets ι) (i : ι) (d : RawData) (retCode : ℤ) (src : DataSource) : Sockets ι :=
  { s with
    retryDataList :=
      (Transport.addFailedData d ⟨s.retryDataList, src, Alloc.always⟩).retryDataList
    failed := s.failed ++ [d.content]
    removed := s.removed ++ dropsOf s.retryDataList
  }.return_ i d retCode

end Sockets

/-- One step of a thread. A call of `socket` that is interrupted is made again at once. -/
inductive Step : Sockets ι → Sockets ι → Prop
  | empty {s : Sockets ι} {i : ι} {d : RawData} (hi : s.pc i = .idle) (hd : d.isEmpty = true) :
    Step s (s.return_ i d errEmptyEvent)
  | overSize {s : Sockets ι} {i : ι} {d : RawData} (hi : s.pc i = .idle) (hd : d.isEmpty = false)
    (hlen : d.len > maxDataSize) : Step s (s.return_ i d errOverSize)
  | start {s : Sockets ι} {i : ι} {d : RawData} (hv : d.Valid) (hi : s.pc i = .idle)
    (hd : d.isEmpty = false) (hlen : ¬d.len > maxDataSize) :
    Step s { s.setPc i (.locking d) with submitted := s.submitted ++ [d.content] }
  | lock {s : Sockets ι} {i : ι} {d : RawData} (hi : s.pc i = .locking d) (hm : s.mutex = none) :
    Step s ({ s with mutex := some i }.setPc i (.checking d))
  | drained {s : Sockets ι} {i : ι} {d : RawData} (hi : s.pc i = .checking d)
    (hq : s.retryDataList = []) : Step s (s.unlock i d)
  | front {s : Sockets ι} {i : ι} {d f : RawData} {q : List RawData} (hi : s.pc i = .checking d)
    (hq : s.retryDataList = f :: q) :
    Step s (s.setPc i (.sending d .retry (f.copy Alloc.always).1 .opening))
  | noSocket {s : Sockets ι} {i : ι} {d x : RawData} {caller : Caller}
    (hi : s.pc i = .sending d caller x .opening) : Step s (s.resume i d caller errDoesNotInit)
  | socket {s : Sockets ι} {i : ι} {d x : RawData} {caller : Caller} {socketId : ℕ}
    (hi : s.pc i = .sending d caller x .opening) (hnew : socketId ∉ s.opened) :
    Step s ({ s with opened := socketId :: s.opened }.setPc i
      (.sending d caller x (.writing socketId Transport.retryTimes)))
  | sent {s : Sockets ι} {i : ι} {d x : RawData} {caller : Caller} {socketId n : ℕ}
    (hi : s.pc i = .sending d caller x (.writing socketId n)) :
    Step s ({ s with datagrams := s.datagrams ++
        [Datagram.mk (EventSocketFactory.getEventSocket x) x.content caller.isRetry] }.setPc i
      (.sending d caller x (.closing socketId success)))
  | again {s : Sockets ι} {i : ι} {d x : RawData} {caller : Caller} {socketId n : ℕ} {errno : ℤ}
    (hi : s.pc i = .sending d caller x (.writing socketId n)) (hn : 0 < n - 1)
    (he : isTransient errno = true) :
    Step s (s.setPc i (.sending d caller x (.writing socketId (n - 1))))
  | notSent {s : Sockets ι} {i : ι} {d x : RawData} {caller : Caller} {socketId n : ℕ} {errno : ℤ}
    (hi : s.pc i = .sending d caller x (.writing socketId n))
    (he : ¬(0 < n - 1 ∧ isTransient errno = true)) :
    Step s (s.setPc i (.sending d caller x (.closing socketId errSendFail)))
  | close {s : Sockets ι} {i : ι} {d x : RawData} {caller : Caller} {socketId : ℕ} {retCode : ℤ}
    (hi : s.pc i = .sending d caller x (.closing socketId retCode)) :
    Step s ({ s with opened := s.opened.erase socketId }.resume i d caller retCode)
  | add {s : Sockets ι} {i : ι} {d : RawData} {retCode : ℤ} (src : DataSource)
    (hi : s.pc i = .adding d retCode) (hm : s.mutex = none) : Step s (s.add i d retCode src)

/-- A state the threads can reach. -/
def Reachable (s : Sockets ι) : Prop :=
  Relation.ReflTransGen Step Sockets.init s

/-! ## What a thread holds -/

namespace Pc

/-- The block of the call. -/
def block : Pc → Option RawData
  | .idle => none
  | .locking d | .checking d | .sending d _ _ _ | .adding d _ => some d

/-- A direct `sendto` has taken the block, and the call has not returned. -/
def delivered : Pc → Option RawData
  | .sending d (.direct _) _ (.closing _ retCode) => if retCode = success then some d else none
  | _ => none

/-- The block of a call that has not sent it. -/
def pending (pc : Pc) : Option RawData :=
  if pc.delivered.isSome then none else pc.block

/-- The open socket. -/
def socketId : Pc → Option ℕ
  | .sending _ _ _ (.writing socketId _) | .sending _ _ _ (.closing socketId _) => some socketId
  | _ => none

/-- The thread has the mutex. -/
def locked : Pc → Bool
  | .checking _ | .sending _ .retry _ _ => true
  | _ => false

/-- The block at the front of the queue that was sent and is not popped. -/
def sentFront : Pc → List Bytes
  | .sending _ .retry x (.closing _ retCode) => if retCode = success then [x.content] else []
  | _ => []

end Pc

namespace Sockets

/-- The front of the queue, while the thread with the mutex has sent it. -/
def sentFront (s : Sockets ι) : List Bytes :=
  s.mutex.elim [] fun i => (s.pc i).sentFront

/-- The blocks sent by `SendData` itself. -/
def directs (s : Sockets ι) : List Bytes :=
  (s.datagrams.filter fun y => !y.retried).map Datagram.data

/-- The blocks sent out of the queue. -/
def retries (s : Sockets ι) : List Bytes :=
  (s.datagrams.filter fun y => y.retried).map Datagram.data

/-- The blocks of the calls that returned success. -/
def succeeded (s : Sockets ι) : List Bytes :=
  (s.returned.filter fun r => r.2 = success).map Prod.fst

/-- The blocks that were popped after they were sent. -/
def popped (s : Sockets ι) : List Bytes :=
  (s.removed.filter fun r => r.2).map Prod.fst

/-- The blocks that a full queue lost. -/
def dropped (s : Sockets ι) : List Bytes :=
  (s.removed.filter fun r => !r.2).map Prod.fst

/-- The blocks in the queue that are not sent. -/
def waiting (s : Sockets ι) : List Bytes :=
  (s.retryDataList.map RawData.content).drop s.sentFront.length

end Sockets

/-- The socket is the one for the domain, the name and the type in the block. -/
def Addressed (y : Datagram) : Prop :=
  ∀ (size rest : Bytes) (header : HiSysEventHeader), size.length = 4 →
    y.data = size ++ (header.toBytes ++ rest) →
      (y.serverAddr = .higherPriorityAddr ↔ EventSocketFactory.isHigherPriorityEvent
        (EventSocketFactory.headerString header 0)
        (EventSocketFactory.headerString header (maxDomainLength + 1))
        (header.type.toNat + 1) = true)

theorem addressed_getEventSocket {x : RawData} (hx : x.Valid) (retried : Bool) :
    Addressed ⟨EventSocketFactory.getEventSocket x, x.content, retried⟩ := by
  intro size rest header hsize hdata
  have hinfo := EventSocketFactory.parseEventInfo_headed ⟨hx, size, rest, hsize, hdata⟩ [] []
    EventSocketFactory.fault
  simp only [EventSocketFactory.getEventSocket, hinfo]
  split_ifs with h
  · exact iff_of_true rfl h
  · exact iff_of_false (by simp) h

/-! ## The invariant -/

/-- Whoever works on the queue has the mutex, and what is sent is the front of the queue or the
block of the call. -/
structure Guarded (s : Sockets ι) : Prop where
  mutex : ∀ i, s.mutex = some i ↔ (s.pc i).locked = true
  front : ∀ i d x stage, s.pc i = .sending d .retry x stage →
    ∃ f q, s.retryDataList = f :: q ∧ x.Valid ∧ x.content = f.content
  own : ∀ i d n x stage, s.pc i = .sending d (.direct n) x stage → x = d
  valid : ∀ f ∈ s.retryDataList, f.Valid
  validBlock : ∀ i d, (s.pc i).block = some d → d.Valid

/-- Every open socket belongs to one thread. -/
structure Owned (s : Sockets ι) (held : List (ι × ℕ)) : Prop where
  lists : Lists (fun i => (s.pc i).socketId) held
  opened : s.opened.Perm (held.map Prod.snd)
  once : s.opened.Nodup

/-- The blocks of threads. -/
def contents (l : List (ι × RawData)) : List Bytes :=
  l.map fun e => e.2.content

/-- The blocks submitted are those sent directly, those that failed and those that threads have not
sent. The failed ones left the queue or are in it, in order. -/
structure Booked (s : Sockets ι) (pending delivered : List (ι × RawData)) : Prop where
  pendingLists : Lists (fun i => (s.pc i).pending) pending
  deliveredLists : Lists (fun i => (s.pc i).delivered) delivered
  submitted : ∀ x, s.submitted.count x =
    s.directs.count x + s.failed.count x + (contents pending).count x
  direct : ∀ x, s.directs.count x = s.succeeded.count x + (contents delivered).count x
  retried : s.retries = s.popped ++ s.sentFront
  queue : s.failed = s.removed.map Prod.fst ++ s.retryDataList.map RawData.content
  length_le : s.retryDataList.length ≤ Transport.retryQueueSize
  addressed : ∀ y ∈ s.datagrams, Addressed y
  code : ∀ i d retCode, s.pc i = .adding d retCode → retCode ≠ success

variable {s s' : Sockets ι} {i : ι} {d x : RawData}

theorem pc_setPc (s : Sockets ι) (i j : ι) (pc : Pc) :
    (s.setPc i pc).pc j = if j = i then pc else s.pc j :=
  rfl

theorem pc_self (s : Sockets ι) (i : ι) (pc : Pc) : (s.setPc i pc).pc i = pc :=
  if_pos rfl

theorem pc_of_ne (s : Sockets ι) {i j : ι} (hj : j ≠ i) (pc : Pc) :
    (s.setPc i pc).pc j = s.pc j :=
  if_neg hj

/-! ## The mutex -/

theorem guarded_init : Guarded (Sockets.init : Sockets ι) where
  mutex _ := iff_of_false (by simp [Sockets.init]) (by simp [Sockets.init, Pc.locked])
  front _ _ _ _ hi := by simp [Sockets.init] at hi
  own _ _ _ _ _ hi := by simp [Sockets.init] at hi
  valid := by simp [Sockets.init]
  validBlock _ _ hi := by simp [Sockets.init, Pc.block] at hi

theorem Guarded.unlocked (h : Guarded s) (hi : (s.pc i).locked = true) {j : ι} (hj : j ≠ i) :
    (s.pc j).locked = false := by
  have hm := (h.mutex i).2 hi
  rw [← Bool.not_eq_true, ← h.mutex j, hm]
  exact fun heq => hj (Option.some.inj heq).symm

/-- With the mutex free no thread works on the queue. -/
theorem Guarded.free (h : Guarded s) (hm : s.mutex = none) (j : ι) : (s.pc j).locked = false := by
  rw [← Bool.not_eq_true, ← h.mutex j, hm]
  simp

/-- One thread goes on, and the others have no block of the queue in hand if the queue changes. -/
theorem Guarded.set (h : Guarded s) {pc : Pc} (hpc : s'.pc = (s.setPc i pc).pc)
    (hm : ∀ j, s'.mutex = some j ↔ (s'.pc j).locked = true)
    (hqueue : s'.retryDataList = s.retryDataList ∨ ∀ j ≠ i, (s.pc j).locked = false)
    (hfront : ∀ d x stage, pc = .sending d .retry x stage →
      ∃ f q, s'.retryDataList = f :: q ∧ x.Valid ∧ x.content = f.content)
    (hown : ∀ d n x stage, pc = .sending d (.direct n) x stage → x = d)
    (hvalid : ∀ f ∈ s'.retryDataList, f.Valid) (hblock : ∀ d, pc.block = some d → d.Valid) :
    Guarded s' where
  mutex := hm
  front j d x stage hj := by
    rw [hpc, pc_setPc] at hj
    split_ifs at hj with hji
    · exact hfront d x stage hj
    · rcases hqueue with hq | hother
      · rw [hq]
        exact h.front j d x stage hj
      · have hlocked := hother j hji
        rw [hj] at hlocked
        cases hlocked
  own j d n x stage hj := by
    rw [hpc, pc_setPc] at hj
    split_ifs at hj
    · exact hown d n x stage hj
    · exact h.own j d n x stage hj
  valid := hvalid
  validBlock j d hj := by
    rw [hpc, pc_setPc] at hj
    split_ifs at hj
    · exact hblock d hj
    · exact h.validBlock j d hj

/-- A thread goes on without touching the mutex or the queue. -/
theorem Guarded.move (h : Guarded s) {pc : Pc} (hpc : s'.pc = (s.setPc i pc).pc)
    (hmutex : s'.mutex = s.mutex) (hq : s'.retryDataList = s.retryDataList)
    (hlocked : pc.locked = (s.pc i).locked)
    (hfront : ∀ d x stage, pc = .sending d .retry x stage →
      ∃ f q, s.retryDataList = f :: q ∧ x.Valid ∧ x.content = f.content)
    (hown : ∀ d n x stage, pc = .sending d (.direct n) x stage → x = d)
    (hblock : ∀ d, pc.block = some d → d.Valid) : Guarded s' := by
  refine h.set hpc (fun j => ?_) (Or.inl hq) (by rwa [hq]) hown (by rw [hq]; exact h.valid) hblock
  rw [hmutex, h.mutex j, hpc, pc_setPc]
  split_ifs with hj
  · rw [hj, hlocked]
  · rfl

/-- The same send in another stage. -/
theorem Guarded.stage (h : Guarded s) {caller : Caller} {stage stage' : SendStage}
    (hi : s.pc i = .sending d caller x stage)
    (hpc : s'.pc = (s.setPc i (.sending d caller x stage')).pc)
    (hmutex : s'.mutex = s.mutex) (hq : s'.retryDataList = s.retryDataList) : Guarded s' := by
  refine h.move hpc hmutex hq (by rw [hi]; cases caller <;> rfl) ?_ ?_ ?_
  · rintro d x stage ⟨⟩
    exact h.front i _ _ _ hi
  · rintro d n x stage ⟨⟩
    exact h.own i _ _ _ _ hi
  · rintro d ⟨⟩
    exact h.validBlock i _ (by rw [hi]; rfl)

theorem Guarded.return_ (h : Guarded s) (hi : (s.pc i).locked = false) (retCode : ℤ) :
    Guarded (s.return_ i d retCode) := by
  refine h.move rfl rfl rfl (by rw [hi]; rfl) ?_ ?_ ?_
  · rintro d x stage ⟨⟩
  · rintro d n x stage ⟨⟩
  · rintro d ⟨⟩

theorem Guarded.unlock (h : Guarded s) (hi : (s.pc i).locked = true)
    (hblock : (s.pc i).block = some d) : Guarded (s.unlock i d) := by
  refine h.set rfl (fun j => ?_) (Or.inl rfl) ?_ ?_ h.valid ?_
  · refine iff_of_false (by simp [Sockets.unlock, Sockets.setPc]) ?_
    rw [Sockets.unlock, pc_setPc]
    split_ifs with hj
    · exact Bool.false_ne_true
    · rw [h.unlocked hi hj]
      exact Bool.false_ne_true
  · rintro d x stage ⟨⟩
  · rintro d n x stage ⟨⟩
    rfl
  · rintro d ⟨⟩
    exact h.validBlock i _ hblock

theorem Guarded.popFront (h : Guarded s) (hi : (s.pc i).locked = true)
    (hblock : (s.pc i).block = some d) : Guarded (s.popFront i d) := by
  refine h.set rfl (fun j => ?_) (Or.inr fun j hj => h.unlocked hi hj) ?_ ?_ ?_ ?_
  · refine (h.mutex j).trans ?_
    rw [Sockets.popFront, pc_setPc]
    split_ifs with hj
    · rw [hj, hi, Pc.locked]
    · rfl
  · rintro d x stage ⟨⟩
  · rintro d n x stage ⟨⟩
  · exact fun f hf => h.valid f (List.mem_of_mem_tail hf)
  · rintro d ⟨⟩
    exact h.validBlock i _ hblock

theorem Guarded.resume (h : Guarded s) {caller : Caller} {stage : SendStage}
    (hi : s.pc i = .sending d caller x stage) (retCode : ℤ) :
    Guarded (s.resume i d caller retCode) := by
  have hblock : (s.pc i).block = some d := by rw [hi]; rfl
  rcases caller with _ | _ | n
  · rw [Sockets.resume]
    split_ifs
    · exact h.unlock (by rw [hi]; rfl) hblock
    · exact h.popFront (by rw [hi]; rfl) hblock
  · rw [Sockets.resume]
    split_ifs
    · exact h.return_ (by rw [hi]; rfl) _
    · refine h.move rfl rfl rfl (by rw [hi]; rfl) ?_ ?_ ?_
      · rintro d x stage ⟨⟩
      · rintro d n x stage ⟨⟩
      · rintro d ⟨⟩
        exact h.validBlock i _ hblock
  · rw [Sockets.resume]
    split_ifs
    · exact h.return_ (by rw [hi]; rfl) _
    · refine h.move rfl rfl rfl (by rw [hi]; rfl) ?_ ?_ ?_
      · rintro d x stage ⟨⟩
      · rintro d n x stage ⟨⟩
        rfl
      · rintro d ⟨⟩
        exact h.validBlock i _ hblock

theorem Guarded.add (h : Guarded s) {retCode : ℤ} (src : DataSource)
    (hi : s.pc i = .adding d retCode) (hm : s.mutex = none) : Guarded (s.add i d retCode src) := by
  have hd : d.Valid := h.validBlock i d (by rw [hi]; rfl)
  refine h.set rfl (fun j => ?_) (Or.inr fun j _ => h.free hm j) ?_ ?_ (fun f hf => ?_) ?_
  · refine (h.mutex j).trans ?_
    rw [Sockets.add, Sockets.return_, pc_setPc]
    split_ifs with hj
    · rw [hj, hi]
      rfl
    · rfl
  · rintro d x stage ⟨⟩
  · rintro d n x stage ⟨⟩
  · simp only [Sockets.add, Sockets.return_, Sockets.setPc, Transport.addFailedData] at hf
    rcases List.mem_append.1 hf with hf | hf
    · refine h.valid f ?_
      split_ifs at hf
      · exact List.mem_of_mem_tail hf
      · exact hf
    · rw [List.mem_singleton.1 hf]
      exact (RawData.copy_spec hd Alloc.next_always).1
  · rintro d ⟨⟩

theorem Guarded.step (h : Guarded s) (hstep : Step s s') : Guarded s' := by
  cases hstep with
  | empty hi hd => exact h.return_ (by rw [hi]; rfl) _
  | overSize hi hd hlen => exact h.return_ (by rw [hi]; rfl) _
  | start hv hi hd hlen =>
    refine h.move rfl rfl rfl (by rw [hi]; rfl) ?_ ?_ ?_
    · rintro d x stage ⟨⟩
    · rintro d n x stage ⟨⟩
    · rintro d ⟨⟩
      exact hv
  | @lock i d hi hm =>
    refine h.set rfl (fun j => ?_) (Or.inl rfl) ?_ ?_ h.valid ?_
    · rw [pc_setPc]
      split_ifs with hj
      · exact iff_of_true (congrArg some hj.symm) rfl
      · refine iff_of_false (fun heq => hj (Option.some.inj heq).symm) ?_
        rw [h.free hm j]
        exact Bool.false_ne_true
    · rintro d x stage ⟨⟩
    · rintro d n x stage ⟨⟩
    · rintro d ⟨⟩
      exact h.validBlock i _ (by rw [hi]; rfl)
  | drained hi hq => exact h.unlock (by rw [hi]; rfl) (by rw [hi]; rfl)
  | @front i d f q hi hq =>
    refine h.move rfl rfl rfl (by rw [hi]; rfl) ?_ ?_ ?_
    · rintro d x stage ⟨⟩
      obtain ⟨hv, hcont⟩ := RawData.copy_spec (h.valid f (by rw [hq]; exact List.mem_cons_self))
        Alloc.next_always
      exact ⟨f, q, hq, hv, hcont⟩
    · rintro d n x stage ⟨⟩
    · rintro d ⟨⟩
      exact h.validBlock i _ (by rw [hi]; rfl)
  | noSocket hi => exact h.resume hi _
  | socket hi hnew => exact h.stage hi rfl rfl rfl
  | sent hi => exact h.stage hi rfl rfl rfl
  | again hi hn he => exact h.stage hi rfl rfl rfl
  | notSent hi he => exact h.stage hi rfl rfl rfl
  | @close i d x caller socketId retCode hi =>
    exact @Guarded.resume _ _ { s with opened := s.opened.erase socketId } i d x
      ⟨h.mutex, h.front, h.own, h.valid, h.validBlock⟩ caller _ hi _
  | add src hi hm => exact h.add src hi hm

/-! ## The open sockets -/

theorem owned_init : Owned (Sockets.init : Sockets ι) [] where
  lists := lists_nil fun _ => rfl
  opened := .nil
  once := List.nodup_nil

variable {held : List (ι × ℕ)}

theorem Owned.keep (h : Owned s held) (hopened : s'.opened = s.opened) {pc : Pc}
    (hpc : s'.pc = (s.setPc i pc).pc) (hsocket : pc.socketId = (s.pc i).socketId) :
    Owned s' held where
  lists := by
    refine h.lists.congr fun j => ?_
    rw [hpc, pc_setPc]
    split_ifs with hj
    · rw [hj, hsocket]
    · rfl
  opened := hopened ▸ h.opened
  once := hopened ▸ h.once

theorem Owned.resume (h : Owned s held) {caller : Caller} {stage : SendStage}
    (hi : s.pc i = .sending d caller x stage)
    (hsocket : (Pc.sending d caller x stage).socketId = none) (retCode : ℤ) :
    Owned (s.resume i d caller retCode) held := by
  rw [← hi] at hsocket
  rcases caller with _ | _ | n
  · rw [Sockets.resume]
    split_ifs
    · exact h.keep rfl rfl hsocket.symm
    · exact h.keep rfl rfl hsocket.symm
  · rw [Sockets.resume]
    split_ifs
    · exact h.keep rfl rfl hsocket.symm
    · exact h.keep rfl rfl hsocket.symm
  · rw [Sockets.resume]
    split_ifs
    · exact h.keep rfl rfl hsocket.symm
    · exact h.keep rfl rfl hsocket.symm

/-- The call that resumes leaves the stage it was in. -/
theorem resume_setPc (s : Sockets ι) (i : ι) (pc : Pc) (d : RawData) (caller : Caller)
    (retCode : ℤ) : (s.setPc i pc).resume i d caller retCode = s.resume i d caller retCode := by
  have hpc : ∀ pc', (fun j => if j = i then pc' else (s.setPc i pc).pc j) =
      fun j => if j = i then pc' else s.pc j := by
    intro pc'
    ext j
    split_ifs with hj
    · rfl
    · exact pc_of_ne s hj pc
  rcases caller with _ | _ | n
  · simp only [Sockets.resume, Sockets.unlock, Sockets.popFront, Sockets.setPc] at hpc ⊢
    simp only [hpc]
  · simp only [Sockets.resume, Sockets.return_, Sockets.setPc] at hpc ⊢
    simp only [hpc]
  · simp only [Sockets.resume, Sockets.return_, Sockets.setPc] at hpc ⊢
    simp only [hpc]

theorem Owned.socket (h : Owned s held) {pc : Pc} {socketId : ℕ}
    (hi : (s.pc i).socketId = none) (hpc : pc.socketId = some socketId)
    (hnew : socketId ∉ s.opened) :
    Owned ({ s with opened := socketId :: s.opened }.setPc i pc) ((i, socketId) :: held) where
  lists := h.lists.take hi (by rw [pc_self, hpc]) fun j hj => by rw [pc_of_ne _ hj]
  opened := h.opened.cons socketId
  once := List.nodup_cons.2 ⟨hnew, h.once⟩

/-- The socket of a thread is closed while it goes on without one. -/
theorem Owned.close (h : Owned s held) {p : Pc} {socketId : ℕ}
    (hi : (s.pc i).socketId = some socketId) (hpc : p.socketId = none) :
    ∃ rest, Owned ({ s with opened := s.opened.erase socketId }.setPc i p) rest := by
  obtain ⟨rest, hperm, hrest⟩ := h.lists.leave (g := fun j => ((s.setPc i p).pc j).socketId) hi
    (by rw [pc_self, hpc]) fun j hj => by rw [pc_of_ne _ hj]
  have hopened : s.opened.Perm (socketId :: rest.map Prod.snd) := h.opened.trans (hperm.map _)
  refine ⟨rest, hrest, ?_, h.once.erase _⟩
  have herase := hopened.erase socketId
  rwa [List.erase_cons_head] at herase

theorem Owned.step (h : Owned s held) (hstep : Step s s') : ∃ held', Owned s' held' := by
  cases hstep with
  | empty hi hd => exact ⟨held, h.keep rfl rfl (by rw [hi])⟩
  | overSize hi hd hlen => exact ⟨held, h.keep rfl rfl (by rw [hi])⟩
  | start hv hi hd hlen => exact ⟨held, h.keep rfl rfl (by rw [hi]; rfl)⟩
  | lock hi hm => exact ⟨held, h.keep rfl rfl (by rw [hi]; rfl)⟩
  | drained hi hq => exact ⟨held, h.keep rfl rfl (by rw [hi]; rfl)⟩
  | front hi hq => exact ⟨held, h.keep rfl rfl (by rw [hi]; rfl)⟩
  | noSocket hi => exact ⟨held, h.resume hi rfl _⟩
  | socket hi hnew => exact ⟨_, h.socket (by rw [hi]; rfl) rfl hnew⟩
  | sent hi => exact ⟨held, h.keep rfl rfl (by rw [hi]; rfl)⟩
  | again hi hn he => exact ⟨held, h.keep rfl rfl (by rw [hi]; rfl)⟩
  | notSent hi he => exact ⟨held, h.keep rfl rfl (by rw [hi]; rfl)⟩
  | @close i d x caller socketId retCode hi =>
    -- the thread is left without a socket first, and resumes then
    obtain ⟨rest, hrest⟩ := h.close (i := i) (p := .sending d caller x .opening)
      (by rw [hi]; rfl) rfl
    have hresume := hrest.resume (pc_self _ i _) rfl retCode
    rw [resume_setPc] at hresume
    exact ⟨rest, hresume⟩
  | add src hi hm => exact ⟨held, h.keep rfl rfl (by rw [hi]; rfl)⟩

/-! ## The books -/

variable {pending delivered : List (ι × RawData)}

/-- How often a thread holds a block. -/
def holds (o : Option RawData) (x : Bytes) : ℕ :=
  (o.toList.map fun d => d.content).count x

@[simp] theorem holds_none (x : Bytes) : holds none x = 0 :=
  rfl

@[simp] theorem holds_some (d : RawData) (x : Bytes) : holds (some d) x = [d.content].count x :=
  rfl

theorem booked_init : Booked (Sockets.init : Sockets ι) [] [] where
  pendingLists := lists_nil fun _ => rfl
  deliveredLists := lists_nil fun _ => rfl
  submitted _ := rfl
  direct _ := rfl
  retried := rfl
  queue := rfl
  length_le := Nat.zero_le _
  addressed := by simp [Sockets.init]
  code := by simp [Sockets.init]

/-- One thread changes what it holds. -/
theorem count_change {view : Pc → Option RawData} {l : List (ι × RawData)}
    (h : Lists (fun j => view (s.pc j)) l) {pc : Pc} (hpc : s'.pc = (s.setPc i pc).pc) :
    ∃ l', Lists (fun j => view (s'.pc j)) l' ∧ ∀ x,
      (contents l').count x + holds (view (s.pc i)) x =
        (contents l).count x + holds (view pc) x := by
  obtain ⟨rest, l', hl', hperm, hperm'⟩ := h.change (g := fun j => view (s'.pc j)) (i := i)
    fun j hj => by rw [hpc, pc_of_ne _ hj]
  rw [hpc, pc_self] at hperm'
  refine ⟨l', hl', fun x => ?_⟩
  have hcount := (hperm.map fun e => e.2.content).count_eq x
  have hcount' := (hperm'.map fun e => e.2.content).count_eq x
  simp only [List.map_append, List.map_map, List.count_append, Function.comp_def] at hcount hcount'
  rw [contents, contents, hcount, hcount', holds, holds]
  omega

/-- One thread goes on, with the books brought up to date. -/
theorem Booked.set (h : Booked s pending delivered) {p : Pc} (hpc : s'.pc = (s.setPc i p).pc)
    (hsubmitted : ∀ x, s'.submitted.count x + s.directs.count x + s.failed.count x +
        holds (s.pc i).pending x =
      s.submitted.count x + s'.directs.count x + s'.failed.count x + holds p.pending x)
    (hdirect : ∀ x, s'.directs.count x + s.succeeded.count x + holds (s.pc i).delivered x =
      s.directs.count x + s'.succeeded.count x + holds p.delivered x)
    (hretried : s'.retries = s'.popped ++ s'.sentFront)
    (hqueue : s'.failed = s'.removed.map Prod.fst ++ s'.retryDataList.map RawData.content)
    (hlen : s'.retryDataList.length ≤ Transport.retryQueueSize)
    (haddressed : ∀ y ∈ s'.datagrams, Addressed y)
    (hcode : ∀ d retCode, p = .adding d retCode → retCode ≠ success) :
    ∃ pending' delivered', Booked s' pending' delivered' := by
  obtain ⟨pending', hpending, hcountp⟩ := count_change h.pendingLists hpc
  obtain ⟨delivered', hdelivered, hcountd⟩ := count_change h.deliveredLists hpc
  refine ⟨pending', delivered', hpending, hdelivered, fun x => ?_, fun x => ?_, hretried, hqueue,
    hlen, haddressed, fun j d retCode hj => ?_⟩
  · have h₁ := h.submitted x
    have h₂ := hsubmitted x
    have h₃ := hcountp x
    omega
  · have h₁ := h.direct x
    have h₂ := hdirect x
    have h₃ := hcountd x
    omega
  · rw [hpc, pc_setPc] at hj
    split_ifs at hj
    · exact hcode d retCode hj
    · exact h.code j d retCode hj

/-- A thread that does not have the mutex keeps the front, and so does the one that has it if it
neither sends nor pops. -/
theorem sentFront_move {pc : Pc} (hpc : s'.pc = (s.setPc i pc).pc) (hmutex : s'.mutex = s.mutex)
    (hfront : pc.sentFront = (s.pc i).sentFront) : s'.sentFront = s.sentFront := by
  rw [Sockets.sentFront, Sockets.sentFront, hmutex]
  rcases s.mutex with _ | j
  · rfl
  · rw [Option.elim_some, Option.elim_some, hpc, pc_setPc]
    split_ifs with hj
    · rw [hfront, hj]
    · rfl

/-- A thread goes on, and the books stay as they are. -/
theorem Booked.move (h : Booked s pending delivered) {pc : Pc}
    (hpc : s'.pc = (s.setPc i pc).pc) (hmutex : s'.mutex = s.mutex)
    (hlogs : s'.datagrams = s.datagrams ∧ s'.submitted = s.submitted ∧ s'.failed = s.failed ∧
      s'.removed = s.removed ∧ s'.retryDataList = s.retryDataList ∧
      s'.succeeded = s.succeeded)
    (hpending : pc.pending = (s.pc i).pending) (hdelivered : pc.delivered = (s.pc i).delivered)
    (hfront : pc.sentFront = (s.pc i).sentFront)
    (hcode : ∀ d retCode, pc = .adding d retCode → retCode ≠ success) :
    ∃ pending' delivered', Booked s' pending' delivered' := by
  obtain ⟨hdatagrams, hsubmitted, hfailed, hremoved, hq, hsucceeded⟩ := hlogs
  have hdirects : s'.directs = s.directs := by rw [Sockets.directs, hdatagrams, Sockets.directs]
  have hretries : s'.retries = s.retries := by rw [Sockets.retries, hdatagrams, Sockets.retries]
  have hpopped : s'.popped = s.popped := by rw [Sockets.popped, hremoved, Sockets.popped]
  refine h.set hpc (fun x => ?_) (fun x => ?_) ?_ ?_ ?_ ?_ hcode
  · rw [hsubmitted, hdirects, hfailed, hpending]
  · rw [hdirects, hsucceeded, hdelivered]
  · rw [hretries, hpopped, sentFront_move hpc hmutex hfront, h.retried]
  · rw [hfailed, hremoved, hq, h.queue]
  · rw [hq]
    exact h.length_le
  · rw [hdatagrams]
    exact h.addressed

/-- A call that hands nothing over and queues nothing returns. -/
theorem Booked.returned (h : Booked s pending delivered) (hi : s.pc i = .idle) (d : RawData)
    {retCode : ℤ} (hfail : retCode ≠ success) :
    ∃ pending' delivered', Booked (s.return_ i d retCode) pending' delivered' := by
  refine h.move rfl rfl ⟨rfl, rfl, rfl, rfl, rfl, ?_⟩ (by rw [hi]) (by rw [hi]) (by rw [hi]) ?_
  · simp [Sockets.succeeded, Sockets.return_, Sockets.setPc, hfail]
  · rintro d retCode ⟨⟩

/-- A send is over for the books if it succeeded, and else it never was. -/
structure Over (pc : Pc) (d x : RawData) (caller : Caller) (retCode : ℤ) : Prop where
  sentFront : pc.sentFront = if caller.isRetry = true ∧ retCode = success then [x.content] else []
  delivered : pc.delivered = if caller.isRetry = false ∧ retCode = success then some d else none
  pending : pc.pending = if caller.isRetry = false ∧ retCode = success then none else some d

theorem over_opening (d x : RawData) (caller : Caller) :
    Over (.sending d caller x .opening) d x caller errDoesNotInit := by
  have hcode : errDoesNotInit ≠ success := by decide
  rcases caller with _ | n
  · exact ⟨by rw [if_neg fun h => hcode h.2]; rfl, by rw [if_neg fun h => hcode h.2]; rfl,
      by rw [if_neg fun h => hcode h.2]; rfl⟩
  · exact ⟨by rw [if_neg fun h => hcode h.2]; rfl, by rw [if_neg fun h => hcode h.2]; rfl,
      by rw [if_neg fun h => hcode h.2]; rfl⟩

theorem over_closing (d x : RawData) (caller : Caller) (socketId : ℕ) (retCode : ℤ) :
    Over (.sending d caller x (.closing socketId retCode)) d x caller retCode := by
  rcases caller with _ | n
  · constructor
    · simp [Pc.sentFront, Caller.isRetry]
    · simp [Pc.delivered, Caller.isRetry]
    · simp [Pc.pending, Pc.delivered, Pc.block, Caller.isRetry]
  · constructor
    · simp [Pc.sentFront, Caller.isRetry]
    · simp [Pc.delivered, Caller.isRetry]
    · simp only [Pc.pending, Pc.delivered, Pc.block, Caller.isRetry, true_and]
      split_ifs <;> simp_all

/-- In this stage a send has not succeeded, whoever called. -/
def Unsent (d x : RawData) (stage : SendStage) : Prop :=
  ∀ caller, (Pc.sending d caller x stage).pending = some d ∧
    (Pc.sending d caller x stage).delivered = none ∧ (Pc.sending d caller x stage).sentFront = []

theorem unsent_opening (d x : RawData) : Unsent d x .opening := by
  intro caller
  cases caller <;> exact ⟨rfl, rfl, rfl⟩

theorem unsent_writing (d x : RawData) (socketId n : ℕ) :
    Unsent d x (.writing socketId n) := by
  intro caller
  cases caller <;> exact ⟨rfl, rfl, rfl⟩

theorem unsent_closing (d x : RawData) (socketId : ℕ) :
    Unsent d x (.closing socketId errSendFail) := by
  intro caller
  cases caller <;> exact ⟨rfl, rfl, rfl⟩

/-- A send that has not succeeded goes on. -/
theorem Booked.stage (h : Booked s pending delivered) {caller : Caller} {stage stage' : SendStage}
    (hi : s.pc i = .sending d caller x stage)
    (hpc : s'.pc = (s.setPc i (.sending d caller x stage')).pc) (hmutex : s'.mutex = s.mutex)
    (hlogs : s'.datagrams = s.datagrams ∧ s'.submitted = s.submitted ∧ s'.failed = s.failed ∧
      s'.removed = s.removed ∧ s'.retryDataList = s.retryDataList ∧ s'.succeeded = s.succeeded)
    (hstage : Unsent d x stage) (hstage' : Unsent d x stage') :
    ∃ pending' delivered', Booked s' pending' delivered' := by
  obtain ⟨hpending, hdelivered, hfront⟩ := hstage caller
  obtain ⟨hpending', hdelivered', hfront'⟩ := hstage' caller
  refine h.move hpc hmutex hlogs ?_ ?_ ?_ ?_
  · rw [hi, hpending, hpending']
  · rw [hi, hdelivered, hdelivered']
  · rw [hi, hfront, hfront']
  · rintro d retCode ⟨⟩

/-- The front that was sent is popped. -/
theorem Booked.popFront (h : Booked s pending delivered) (hg : Guarded s) {stage : SendStage}
    (hi : s.pc i = .sending d .retry x stage) (ho : Over (s.pc i) d x .retry success) :
    ∃ pending' delivered', Booked (s.popFront i d) pending' delivered' := by
  obtain ⟨f, q, hq, -, hcont⟩ := hg.front i d x stage hi
  have hm : s.mutex = some i := (hg.mutex i).2 (by rw [hi]; rfl)
  have hfront : s.sentFront = [f.content] := by
    rw [Sockets.sentFront, hm, Option.elim_some, ho.sentFront, if_pos ⟨rfl, rfl⟩, hcont]
  have hremoved : (s.popFront i d).removed = s.removed ++ [(f.content, true)] := by
    simp [Sockets.popFront, Sockets.setPc, hq]
  have hafter : (s.popFront i d).sentFront = [] := by
    simp only [Sockets.sentFront, Sockets.popFront, Sockets.setPc, hm]
    simp [Pc.sentFront]
  have hpending : (s.pc i).pending = some d := by
    rw [ho.pending, if_neg (by simp [Caller.isRetry])]
  have hdelivered : (s.pc i).delivered = none := by
    rw [ho.delivered, if_neg (by simp [Caller.isRetry])]
  have hlen := h.length_le
  refine h.set (p := .checking d) rfl (fun y => ?_) (fun y => ?_) ?_ ?_ ?_ h.addressed ?_
  · rw [hpending]
    rfl
  · rw [hdelivered]
    rfl
  · have hretries : (s.popFront i d).retries = s.retries := rfl
    rw [hretries, h.retried, hfront, hafter, Sockets.popped, Sockets.popped, hremoved,
      List.append_nil]
    simp
  · have hfailed : (s.popFront i d).failed = s.failed := rfl
    have htail : (s.popFront i d).retryDataList = q := by
      simp [Sockets.popFront, Sockets.setPc, hq]
    rw [hfailed, hremoved, htail, h.queue, hq]
    simp
  · simp only [Sockets.popFront, Sockets.setPc, List.length_tail]
    omega
  · rintro d retCode ⟨⟩

/-- The mutex is released with nothing sent. -/
theorem Booked.unlock (h : Booked s pending delivered) (hg : Guarded s)
    (hlocked : (s.pc i).locked = true) (hpending : (s.pc i).pending = some d)
    (hdelivered : (s.pc i).delivered = none) (hfront : (s.pc i).sentFront = []) :
    ∃ pending' delivered', Booked (s.unlock i d) pending' delivered' := by
  have hnone : s.sentFront = [] := by
    rw [Sockets.sentFront, (hg.mutex i).2 hlocked, Option.elim_some, hfront]
  refine h.set (p := .sending d (.direct (Transport.retryTimes - 1)) d .opening) rfl (fun y => ?_)
    (fun y => ?_) ?_ h.queue h.length_le h.addressed ?_
  · rw [hpending]
    rfl
  · rw [hdelivered]
    rfl
  · have hretried := h.retried
    rwa [hnone] at hretried
  · rintro d retCode ⟨⟩

/-- The call of a direct send that succeeded returns. -/
theorem Booked.succeed (h : Booked s pending delivered) (hpending : (s.pc i).pending = none)
    (hdelivered : (s.pc i).delivered = some d) (hfront : (s.pc i).sentFront = []) :
    ∃ pending' delivered', Booked (s.return_ i d success) pending' delivered' := by
  have hsucceeded : (s.return_ i d success).succeeded = s.succeeded ++ [d.content] := by
    simp [Sockets.succeeded, Sockets.return_, Sockets.setPc]
  refine h.set (p := .idle) rfl (fun y => ?_) (fun y => ?_) ?_ h.queue h.length_le h.addressed ?_
  · rw [hpending]
    rfl
  · rw [hdelivered, hsucceeded, List.count_append]
    have hdirects : (s.return_ i d success).directs = s.directs := rfl
    rw [hdirects, holds_some, show Pc.idle.delivered = none from rfl, holds_none]
    omega
  · have hkept : (s.return_ i d success).sentFront = s.sentFront :=
      @sentFront_move _ _ s _ i .idle rfl rfl (by rw [hfront]; rfl)
    rw [hkept]
    exact h.retried
  · rintro d retCode ⟨⟩

/-- The caller goes on after a send. -/
theorem Booked.resume (h : Booked s pending delivered) (hg : Guarded s) {caller : Caller}
    {stage : SendStage} {retCode : ℤ} (hi : s.pc i = .sending d caller x stage)
    (ho : Over (s.pc i) d x caller retCode) :
    ∃ pending' delivered', Booked (s.resume i d caller retCode) pending' delivered' := by
  rcases caller with _ | n
  · rw [Sockets.resume]
    split_ifs with hcode
    · refine h.unlock hg (by rw [hi]; rfl) ?_ ?_ ?_
      · rw [ho.pending, if_neg fun hand => hcode hand.2]
      · rw [ho.delivered, if_neg fun hand => hcode hand.2]
      · rw [ho.sentFront, if_neg fun hand => hcode hand.2]
    · rw [not_not] at hcode
      rw [hcode] at ho
      exact h.popFront hg hi ho
  · by_cases hcode : retCode = success
    · have hreturn : s.resume i d (.direct n) retCode = s.return_ i d success := by
        rcases n with _ | n
        · rw [Sockets.resume, if_pos hcode, hcode]
        · rw [Sockets.resume, if_pos hcode, hcode]
      rw [hreturn]
      refine h.succeed ?_ ?_ ?_
      · rw [ho.pending, if_pos ⟨rfl, hcode⟩]
      · rw [ho.delivered, if_pos ⟨rfl, hcode⟩]
      · rw [ho.sentFront, if_neg fun hand => absurd hand.1 Bool.false_ne_true]
    · have hpending : (s.pc i).pending = some d := by rw [ho.pending, if_neg fun h => hcode h.2]
      have hdelivered : (s.pc i).delivered = none := by
        rw [ho.delivered, if_neg fun h => hcode h.2]
      have hfront : (s.pc i).sentFront = [] := by
        rw [ho.sentFront, if_neg fun h => hcode h.2]
      rcases n with _ | n
      · rw [Sockets.resume, if_neg hcode]
        refine h.move rfl rfl ⟨rfl, rfl, rfl, rfl, rfl, rfl⟩ (by rw [hpending]; rfl)
          (by rw [hdelivered]; rfl) (by rw [hfront]; rfl) ?_
        rintro d retCode ⟨⟩
        exact hcode
      · rw [Sockets.resume, if_neg hcode]
        refine h.move rfl rfl ⟨rfl, rfl, rfl, rfl, rfl, rfl⟩ (by rw [hpending]; rfl)
          (by rw [hdelivered]; rfl) (by rw [hfront]; rfl) ?_
        rintro d retCode ⟨⟩

/-- `sendto` takes a block. -/
theorem Booked.sent (h : Booked s pending delivered) (hg : Guarded s) {caller : Caller}
    {socketId n : ℕ} (hi : s.pc i = .sending d caller x (.writing socketId n)) :
    ∃ pending' delivered', Booked ({ s with datagrams := s.datagrams ++
        [Datagram.mk (EventSocketFactory.getEventSocket x) x.content caller.isRetry] }.setPc i
      (.sending d caller x (.closing socketId success))) pending' delivered' := by
  have hdone := over_closing d x caller socketId success
  have hbefore := unsent_writing d x socketId n caller
  rw [← hi] at hbefore
  have hx : x.Valid := by
    rcases caller with _ | n
    · obtain ⟨f, q, -, hv, -⟩ := hg.front i d x _ hi
      exact hv
    · rw [hg.own i d _ x _ hi]
      exact hg.validBlock i d (by rw [hi]; rfl)
  refine h.set rfl (fun y => ?_) (fun y => ?_) ?_ h.queue h.length_le ?_ ?_
  · rw [hbefore.1, hdone.pending]
    rcases caller with _ | n
    · simp [Sockets.directs, Sockets.setPc, Caller.isRetry]
    · rw [hg.own i d _ x _ hi]
      simp only [Sockets.directs, Sockets.setPc, Caller.isRetry, List.filter_append,
        List.map_append, List.count_append, and_self, if_true, holds_some, holds_none]
      simp
      omega
  · rw [hbefore.2.1, hdone.delivered]
    rcases caller with _ | n
    · simp [Sockets.directs, Sockets.succeeded, Sockets.setPc, Caller.isRetry]
    · rw [hg.own i d _ x _ hi]
      simp only [Sockets.directs, Sockets.succeeded, Sockets.setPc, Caller.isRetry,
        List.filter_append, List.map_append, List.count_append, and_self, if_true, holds_some,
        holds_none]
      simp
      omega
  · rcases caller with _ | n
    · have hm : s.mutex = some i := (hg.mutex i).2 (by rw [hi]; rfl)
      have hnone : s.sentFront = [] := by
        rw [Sockets.sentFront, hm, Option.elim_some, hbefore.2.2]
      have hretried := h.retried
      rw [hnone, List.append_nil] at hretried
      simp only [Sockets.retries, Sockets.popped, Sockets.sentFront, Sockets.setPc, hm,
        Option.elim_some, if_true, hdone.sentFront, Caller.isRetry] at hretried ⊢
      simp [hretried]
    · rw [sentFront_move rfl rfl (by rw [hdone.sentFront, hbefore.2.2]; simp [Caller.isRetry])]
      have hretried := h.retried
      simp only [Sockets.retries, Sockets.popped, Sockets.setPc, Caller.isRetry] at hretried ⊢
      simp only [List.filter_append, List.map_append, hretried]
      exact List.append_nil _
  · intro y hy
    rcases List.mem_append.1 hy with hy | hy
    · exact h.addressed y hy
    · rw [List.mem_singleton.1 hy]
      exact addressed_getEventSocket hx _
  · rintro d retCode ⟨⟩

/-- The front that a full queue loses leaves it in order. -/
theorem dropsOf_spec (q : List RawData) : (Sockets.dropsOf q).filter (fun r => r.2) = [] ∧
    (Sockets.dropsOf q).map Prod.fst ++
      (if q.length ≥ Transport.retryQueueSize then q.tail else q).map RawData.content =
        q.map RawData.content := by
  rcases q with _ | ⟨f, q⟩
  · exact ⟨rfl, rfl⟩
  · unfold Sockets.dropsOf
    split_ifs
    · exact ⟨rfl, rfl⟩
    · exact ⟨rfl, rfl⟩

/-- A call whose sends all failed queues its block and returns. -/
theorem Booked.add (h : Booked s pending delivered) (hg : Guarded s) {retCode : ℤ}
    (src : DataSource) (hi : s.pc i = .adding d retCode) :
    ∃ pending' delivered', Booked (s.add i d retCode src) pending' delivered' := by
  have hd : d.Valid := hg.validBlock i d (by rw [hi]; rfl)
  have hcont := (RawData.copy_spec hd Alloc.next_always).2
  have hcode := h.code i d retCode hi
  have hlen := h.length_le
  have hsize : 0 < Transport.retryQueueSize := Nat.succ_pos 9
  obtain ⟨hnone, hqueue⟩ := dropsOf_spec s.retryDataList
  have hsucceeded : (s.add i d retCode src).succeeded = s.succeeded := by
    simp [Sockets.succeeded, Sockets.add, Sockets.return_, Sockets.setPc, hcode]
  have hpopped : (s.add i d retCode src).popped = s.popped := by
    simp only [Sockets.popped, Sockets.add, Sockets.return_, Sockets.setPc, List.filter_append,
      hnone, List.append_nil]
  have hfront : (s.add i d retCode src).sentFront = s.sentFront :=
    @sentFront_move _ _ s _ i .idle rfl rfl (by rw [hi]; rfl)
  refine h.set (p := .idle) rfl (fun y => ?_) (fun y => ?_) ?_ ?_ ?_ h.addressed ?_
  · have hfailed : (s.add i d retCode src).failed = s.failed ++ [d.content] := rfl
    have hdirects : (s.add i d retCode src).directs = s.directs := rfl
    have hsubmitted : (s.add i d retCode src).submitted = s.submitted := rfl
    rw [hi, hfailed, hdirects, hsubmitted, List.count_append, show (Pc.adding d retCode).pending =
      some d from rfl, show Pc.idle.pending = none from rfl, holds_some, holds_none]
    omega
  · rw [hi, hsucceeded]
    rfl
  · rw [hpopped, hfront]
    exact h.retried
  · simp only [Sockets.add, Sockets.return_, Sockets.setPc, Transport.addFailedData,
      List.map_append, List.map_cons, List.map_nil, hcont, h.queue, List.append_assoc]
    rw [← List.append_assoc ((Sockets.dropsOf _).map _), hqueue]
  · simp only [Sockets.add, Sockets.return_, Sockets.setPc, Transport.addFailedData,
      List.length_append, List.length_singleton]
    split_ifs with hfull
    · rw [List.length_tail]
      omega
    · omega
  · rintro d retCode ⟨⟩

theorem Booked.step (h : Booked s pending delivered) (hg : Guarded s) (hstep : Step s s') :
    ∃ pending' delivered', Booked s' pending' delivered' := by
  cases hstep with
  | empty hi hd => exact h.returned hi _ (by decide)
  | overSize hi hd hlen => exact h.returned hi _ (by decide)
  | @start i d hv hi hd hlen =>
    refine h.set (p := .locking d) rfl (fun y => ?_) (fun y => ?_) ?_ h.queue h.length_le
      h.addressed ?_
    · have hsubmitted : ({ s.setPc i (.locking d) with
          submitted := s.submitted ++ [d.content] } : Sockets ι).submitted.count y =
          s.submitted.count y + [d.content].count y := List.count_append
      rw [hsubmitted, hi, show (Pc.locking d).pending = some d from rfl,
        show Pc.idle.pending = none from rfl, holds_some, holds_none]
      simp only [Sockets.directs, Sockets.setPc]
      omega
    · rw [hi]
      rfl
    · have hkept : ({ s.setPc i (.locking d) with
          submitted := s.submitted ++ [d.content] } : Sockets ι).sentFront = s.sentFront :=
        @sentFront_move _ _ s _ i (.locking d) rfl rfl (by rw [hi]; rfl)
      rw [hkept]
      exact h.retried
    · rintro d retCode ⟨⟩
  | @lock i d hi hm =>
    refine h.set (p := .checking d) rfl (fun y => ?_) (fun y => ?_) ?_ h.queue h.length_le
      h.addressed ?_
    · rw [hi]
      rfl
    · rw [hi]
      rfl
    · have hretried := h.retried
      have hnone : s.sentFront = [] := by rw [Sockets.sentFront, hm, Option.elim_none]
      have hafter : ({ s with mutex := some i }.setPc i (.checking d)).sentFront = [] := by
        simp [Sockets.sentFront, Sockets.setPc, Pc.sentFront]
      rw [hnone] at hretried
      rw [hafter]
      exact hretried
    · rintro d retCode ⟨⟩
  | drained hi hq =>
    exact h.unlock hg (by rw [hi]; rfl) (by rw [hi]; rfl) (by rw [hi]; rfl) (by rw [hi]; rfl)
  | front hi hq =>
    refine h.move rfl rfl ⟨rfl, rfl, rfl, rfl, rfl, rfl⟩ (by rw [hi]; rfl) (by rw [hi]; rfl)
      (by rw [hi]; rfl) ?_
    rintro d retCode ⟨⟩
  | noSocket hi => exact h.resume hg hi (hi ▸ over_opening _ _ _)
  | socket hi hnew =>
    exact h.stage hi rfl rfl ⟨rfl, rfl, rfl, rfl, rfl, rfl⟩ (unsent_opening _ _)
      (unsent_writing _ _ _ _)
  | sent hi => exact h.sent hg hi
  | again hi hn he =>
    exact h.stage hi rfl rfl ⟨rfl, rfl, rfl, rfl, rfl, rfl⟩ (unsent_writing _ _ _ _)
      (unsent_writing _ _ _ _)
  | notSent hi he =>
    exact h.stage hi rfl rfl ⟨rfl, rfl, rfl, rfl, rfl, rfl⟩ (unsent_writing _ _ _ _)
      (unsent_closing _ _ _)
  | @close i d x caller socketId retCode hi =>
    have hbooked : Booked { s with opened := s.opened.erase socketId } pending delivered :=
      { h with }
    have hguarded : Guarded { s with opened := s.opened.erase socketId } :=
      ⟨hg.mutex, hg.front, hg.own, hg.valid, hg.validBlock⟩
    exact hbooked.resume hguarded hi (hi ▸ over_closing d x caller socketId retCode)
  | add src hi hm => exact h.add hg src hi

/-! ## What a run delivers -/

/-- The blocks, the mutex and the sockets, with the threads that have not sent their block and those
that have a socket. -/
structure Delivers (s : Sockets ι) (pending : List (ι × RawData)) (held : List (ι × ℕ)) :
    Prop where
  exclusive : ∀ i j, (s.pc i).locked = true → (s.pc j).locked = true → i = j
  pendingLists : Lists (fun i => (s.pc i).pending) pending
  conserved : s.submitted.Perm (s.datagrams.map Datagram.data ++ s.dropped ++ s.waiting ++
    contents pending)
  ordered : s.failed = s.removed.map Prod.fst ++ s.retryDataList.map RawData.content
  length_le : s.retryDataList.length ≤ Transport.retryQueueSize
  succeeded : s.succeeded.Subperm s.directs
  owned : Owned s held
  addressed : ∀ y ∈ s.datagrams, Addressed y

/-- A block that was sent is still the front of the queue. -/
theorem Guarded.queue_eq (h : Guarded s) :
    s.retryDataList.map RawData.content = s.sentFront ++ s.waiting := by
  suffices hprefix : ∃ rest, s.retryDataList.map RawData.content = s.sentFront ++ rest by
    obtain ⟨rest, hrest⟩ := hprefix
    rw [Sockets.waiting, hrest, List.drop_left]
  rw [Sockets.sentFront]
  rcases hm : s.mutex with _ | i
  · exact ⟨_, rfl⟩
  · rw [Option.elim_some]
    rcases hi : s.pc i with _ | _ | _ | ⟨d, _ | n, x, _ | _ | ⟨socketId, retCode⟩⟩ | _
    all_goals try exact ⟨_, rfl⟩
    obtain ⟨f, q, hq, -, hcont⟩ := h.front i d x _ hi
    simp only [Pc.sentFront]
    split_ifs
    · exact ⟨q.map RawData.content, by rw [hq, hcont]; rfl⟩
    · exact ⟨_, rfl⟩

theorem count_filter {α β : Type} [BEq α] (p : β → Bool) (f : β → α) (l : List β) (a : α) :
    (l.map f).count a =
      ((l.filter fun b => p b).map f).count a + ((l.filter fun b => !p b).map f).count a := by
  have hperm := (List.filter_append_perm p l).map f
  rw [List.map_append] at hperm
  rw [← hperm.count_eq a, List.count_append]

theorem Booked.delivers (h : Booked s pending delivered) (hg : Guarded s) (ho : Owned s held) :
    Delivers s pending held where
  exclusive i j hi hj := by
    have hm := (hg.mutex i).2 hi
    rw [(hg.mutex j).2 hj] at hm
    exact (Option.some.inj hm).symm
  pendingLists := h.pendingLists
  conserved := by
    refine List.perm_iff_count.2 fun y => ?_
    have hsubmitted := h.submitted y
    have hdatagrams := count_filter Datagram.retried Datagram.data s.datagrams y
    have hremoved := count_filter Prod.snd Prod.fst s.removed y
    have hretried := congrArg (List.count y) h.retried
    have hqueue := congrArg (List.count y) hg.queue_eq
    rw [List.count_append] at hretried hqueue
    rw [h.queue, List.count_append] at hsubmitted
    simp only [Sockets.directs, Sockets.retries, Sockets.popped, Sockets.dropped] at *
    simp only [List.count_append]
    omega
  ordered := h.queue
  length_le := h.length_le
  succeeded := by
    refine List.subperm_ext_iff.2 fun y _ => ?_
    have hdirect := h.direct y
    omega
  owned := ho
  addressed := h.addressed

theorem books_of_reachable (h : Reachable s) :
    Guarded s ∧ (∃ held, Owned s held) ∧ ∃ pending delivered, Booked s pending delivered := by
  induction h with
  | refl => exact ⟨guarded_init, ⟨[], owned_init⟩, [], [], booked_init⟩
  | tail _ hstep ih =>
    obtain ⟨hg, ⟨held, ho⟩, pending, delivered, hb⟩ := ih
    exact ⟨hg.step hstep, ho.step hstep, hb.step hg hstep⟩

/-- In every reachable state, with every copy granted, the blocks submitted are those of the
datagrams, those dropped, those that wait and those the threads have not sent, once for every time
they were submitted. Each open socket belongs to one thread, one thread at most works on the queue,
and every datagram went to the address of its block. -/
theorem delivers_of_reachable (h : Reachable s) : ∃ pending held, Delivers s pending held := by
  obtain ⟨hg, ⟨held, ho⟩, pending, delivered, hb⟩ := books_of_reachable h
  exact ⟨pending, held, hb.delivers hg ho⟩

/-- A block whose three direct sends fail, the last one after its socket was opened, and which
another call retries, through an interruption, before it sends its own. -/
theorem delivers_of_retried : ∃ s : Sockets Bool,
    s.datagrams.map (fun y => (y.data, y.retried)) = [([1], true), ([2], false)] ∧
      s.failed = [[1]] ∧ s.returned = [([1], errSendFail), ([2], success)] ∧
      ∃ pending held, Delivers s pending held := by
  let x : RawData := ⟨some [1], 1, 1⟩
  let d : RawData := ⟨some [2], 1, 1⟩
  let x' : RawData := (x.copy Alloc.always).1
  have hx : x.Valid := ⟨⟨[1], rfl, rfl⟩, le_rfl⟩
  have hd : d.Valid := ⟨⟨[2], rfl, rfl⟩, le_rfl⟩
  -- the first call finds the queue empty, and fails
  have started : Reachable _ :=
    .single (@Step.start Bool _ Sockets.init false x hx rfl rfl (by decide))
  have locked := started.tail (@Step.lock Bool _ _ false x rfl rfl)
  have drained := locked.tail (@Step.drained Bool _ _ false x rfl rfl)
  have once := drained.tail (@Step.noSocket Bool _ _ false x x (.direct 2) rfl)
  have twice := once.tail (@Step.noSocket Bool _ _ false x x (.direct 1) rfl)
  have opened := twice.tail (@Step.socket Bool _ _ false x x (.direct 0) 7 rfl (by decide))
  have refused := opened.tail
    (@Step.notSent Bool _ _ false x x (.direct 0) 7 Transport.retryTimes 1 rfl (by decide))
  have closed := refused.tail (@Step.close Bool _ _ false x x (.direct 0) 7 errSendFail rfl)
  have queued := closed.tail
    (@Step.add Bool _ _ false x errSendFail ⟨fun _ => .success, []⟩ rfl rfl)
  -- the second retries its block, and then sends its own
  have started' := queued.tail (@Step.start Bool _ _ true d hd rfl rfl (by decide))
  have locked' := started'.tail (@Step.lock Bool _ _ true d rfl rfl)
  have front := locked'.tail (@Step.front Bool _ _ true d x' [] rfl rfl)
  have opened' := front.tail
    (@Step.socket Bool _ _ true d (x'.copy Alloc.always).1 .retry 8 rfl (by decide))
  have again := opened'.tail (@Step.again Bool _ _ true d (x'.copy Alloc.always).1 .retry 8
    Transport.retryTimes eintr rfl (by decide) rfl)
  have sent := again.tail
    (@Step.sent Bool _ _ true d (x'.copy Alloc.always).1 .retry 8 2 rfl)
  have popped := sent.tail
    (@Step.close Bool _ _ true d (x'.copy Alloc.always).1 .retry 8 success rfl)
  have drained' := popped.tail (@Step.drained Bool _ _ true d rfl rfl)
  have own := drained'.tail (@Step.socket Bool _ _ true d d (.direct 2) 9 rfl (by decide))
  have sent' := own.tail
    (@Step.sent Bool _ _ true d d (.direct 2) 9 Transport.retryTimes rfl)
  have done := sent'.tail (@Step.close Bool _ _ true d d (.direct 2) 9 success rfl)
  exact ⟨_, rfl, rfl, rfl, delivers_of_reachable done⟩

end DataSocket

end HiSysEvent
