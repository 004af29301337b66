import HiSysEvent.RawData

/-!
# The transport

`SendData` hands a block over to the data source. It first retries the blocks that failed
earlier, in order and up to the first failure, then tries the block itself three times,
and queues it if all three fail. The queue drops its oldest block when it is full.

Opening the socket and sending is one outcome (`SendResult`). A `DataSource` holds the
coming outcomes and the blocks handed over so far.
-/

namespace HiSysEvent

/-- What `SendToHiSysEventDataSource` ends in. -/
inductive SendResult
  | success
  | doesNotInit
  | sendFail
  deriving DecidableEq

/-- The code `SendToHiSysEventDataSource` returns. -/
def SendResult.code : SendResult → ℤ
  | .success => HiSysEvent.success
  | .doesNotInit => errDoesNotInit
  | .sendFail => errSendFail

/-- The outcomes of the coming sends, and the data handed over by the earlier ones. -/
structure DataSource where
  results : ℕ → SendResult
  handed : List Bytes := []

namespace DataSource

/-- The outcomes after the next `n` sends. -/
def drop (src : DataSource) (n : ℕ) : DataSource :=
  { src with results := fun i => src.results (n + i) }

/-- Hand data over. -/
def hand (src : DataSource) (data : Bytes) : DataSource :=
  { src with handed := src.handed ++ [data] }

@[simp] theorem handed_drop (src : DataSource) (n : ℕ) : (src.drop n).handed = src.handed :=
  rfl

@[simp] theorem handed_hand (src : DataSource) (data : Bytes) :
    (src.hand data).handed = src.handed ++ [data] :=
  rfl

end DataSource

/-- The queue of failed blocks, with the socket and the allocations to come. -/
structure Transport where
  retryDataList : List RawData
  source : DataSource
  alloc : Alloc

namespace Transport

abbrev retryQueueSize : ℕ := 10
abbrev retryTimes : ℕ := 3

/-- One attempt to hand a block over. -/
def sendToHiSysEventDataSource (d : RawData) (src : DataSource) : ℤ × DataSource :=
  match src.results 0 with
  | .success => (success, (src.drop 1).hand d.content)
  | r => (r.code, src.drop 1)

/-- A full queue loses its front. The queue holds copies. -/
def addFailedData (d : RawData) (t : Transport) : Transport :=
  let q := if t.retryDataList.length ≥ retryQueueSize then t.retryDataList.tail
    else t.retryDataList
  let (copy, a) := d.copy t.alloc
  { t with retryDataList := q ++ [copy], alloc := a }

/-- The loop of `RetrySendFailedData`. -/
def retryLoop : List RawData → DataSource → Alloc → Transport
  | [], src, a => ⟨[], src, a⟩
  | d :: q, src, a =>
    let (copy, a) := d.copy a
    let (r, src) := sendToHiSysEventDataSource copy src
    if r ≠ success then ⟨d :: q, src, a⟩ else retryLoop q src a

/-- `RetrySendFailedData`: every queued block once. -/
def retrySendFailedData (t : Transport) : Transport :=
  retryLoop t.retryDataList t.source t.alloc

/-- The loop of `SendData` over the remaining tries. -/
def sendLoop (d : RawData) : ℕ → ℤ → DataSource → ℤ × DataSource
  | 0, retCode, src => (retCode, src)
  | tryTimes + 1, _, src =>
    let (retCode, src) := sendToHiSysEventDataSource d src
    if retCode = success then (retCode, src) else sendLoop d tryTimes retCode src

/-- `SendData`: the queue first, then the block, which is queued when every try fails. -/
def sendData (d : RawData) (t : Transport) : ℤ × Transport :=
  if d.isEmpty then (errEmptyEvent, t)
  else if d.len > maxDataSize then (errOverSize, t)
  else
    let t := t.retrySendFailedData
    let (retCode, src) := sendLoop d retryTimes success t.source
    let t := { t with source := src }
    if retCode = success then (retCode, t) else (retCode, t.addFailedData d)

/-! ## Specifications -/

theorem isEmpty_iff {d : RawData} (h : d.Valid) : d.isEmpty = true ↔ d.content = [] := by
  obtain ⟨buf, hbuf, -⟩ := h.buffer
  rw [← List.length_eq_zero_iff, h.length_content]
  simp [RawData.isEmpty, hbuf]

/-- One send hands the data over and succeeds, or does neither. -/
theorem send_cases (d : RawData) (src : DataSource) :
    (src.results 0 = .success ∧
      sendToHiSysEventDataSource d src = (success, (src.drop 1).hand d.content)) ∨
    (∃ r : SendResult, r ≠ .success ∧ src.results 0 = r ∧
      sendToHiSysEventDataSource d src = (r.code, src.drop 1)) := by
  unfold sendToHiSysEventDataSource
  cases h : src.results 0 with
  | success => exact Or.inl ⟨rfl, rfl⟩
  | doesNotInit => exact Or.inr ⟨.doesNotInit, by decide, rfl, rfl⟩
  | sendFail => exact Or.inr ⟨.sendFail, by decide, rfl, rfl⟩

theorem code_ne_success {r : SendResult} (h : r ≠ .success) : r.code ≠ success := by
  cases r <;> first | exact absurd rfl h | decide

theorem code_lt_zero {r : SendResult} (h : r ≠ .success) : r.code < 0 := by
  cases r <;> first | exact absurd rfl h | decide

/-- The retries hand over a part of the queue from its front. -/
theorem retryLoop_spec : ∀ (q : List RawData) (src : DataSource), (∀ d ∈ q, d.Valid) →
    ∃ n ≤ q.length, ∃ results, retryLoop q src Alloc.always =
      ⟨q.drop n, ⟨results, src.handed ++ (q.take n).map RawData.content⟩, Alloc.always⟩
  | [], src, _ => ⟨0, le_rfl, src.results, by simp [retryLoop]⟩
  | d :: q, src, hq => by
    have hcopy : (d.copy Alloc.always).2 = Alloc.always := RawData.copy_alloc_always d
    obtain ⟨-, hcont⟩ := RawData.copy_spec (hq d (by simp)) Alloc.next_always
    rcases send_cases (d.copy Alloc.always).1 src with ⟨-, hs⟩ | ⟨r, hr, -, hs⟩
    · obtain ⟨n, hn, results, hloop⟩ := retryLoop_spec q ((src.drop 1).hand d.content)
        fun x hx => hq x (by simp [hx])
      refine ⟨n + 1, by simpa using hn, results, ?_⟩
      simp only [retryLoop, hs, hcopy, hcont, ne_eq, not_true_eq_false, if_false, hloop]
      simp
    · refine ⟨0, Nat.zero_le _, (src.drop 1).results, ?_⟩
      simp only [retryLoop, hs, hcopy, ne_eq, code_ne_success hr, not_false_eq_true, if_true]
      simp [DataSource.drop]

/-- The tries stop at the first that succeeds, and hand the data over then. -/
theorem sendLoop_spec (d : RawData) : ∀ (n : ℕ) (retCode : ℤ) (src : DataSource),
    (∃ i < n, src.results i = .success) →
      (sendLoop d n retCode src).1 = success ∧
        (sendLoop d n retCode src).2.handed = src.handed ++ [d.content]
  | 0, _, _, h => by
    obtain ⟨i, hi, -⟩ := h
    exact absurd hi (Nat.not_lt_zero i)
  | n + 1, retCode, src, h => by
    rcases send_cases d src with ⟨-, hs⟩ | ⟨r, hr, h0, hs⟩
    · simp [sendLoop, hs]
    · have hrest : ∃ i < n, (src.drop 1).results i = .success := by
        obtain ⟨i, hi, hri⟩ := h
        rcases i with _ | i
        · exact absurd (h0.symm.trans hri) hr
        · exact ⟨i, by omega, by simpa [DataSource.drop, Nat.add_comm] using hri⟩
      have := sendLoop_spec d n r.code (src.drop 1) hrest
      simpa only [sendLoop, hs, if_neg (code_ne_success hr), DataSource.handed_drop] using this

/-- With no try that succeeds, nothing is handed over and a failure is returned. -/
theorem sendLoop_fails (d : RawData) : ∀ (n : ℕ) (retCode : ℤ) (src : DataSource),
    (∀ i < n, src.results i ≠ .success) →
      (sendLoop d n retCode src).2.handed = src.handed ∧
        (0 < n → ∃ r : SendResult, r ≠ .success ∧ (sendLoop d n retCode src).1 = r.code)
  | 0, _, _, _ => ⟨rfl, fun h => absurd h (Nat.lt_irrefl 0)⟩
  | n + 1, retCode, src, h => by
    rcases send_cases d src with ⟨h0, -⟩ | ⟨r, hr, -, hs⟩
    · exact absurd h0 (h 0 (by omega))
    · have hrest : ∀ i < n, (src.drop 1).results i ≠ .success := fun i hi => by
        have := h (i + 1) (by omega)
        simpa [DataSource.drop, Nat.add_comm] using this
      obtain ⟨hh, hc⟩ := sendLoop_fails d n r.code (src.drop 1) hrest
      simp only [sendLoop, hs, if_neg (code_ne_success hr), hh, DataSource.handed_drop]
      refine ⟨trivial, fun _ => ?_⟩
      rcases Nat.eq_zero_or_pos n with rfl | hn
      · exact ⟨r, hr, rfl⟩
      · exact hc hn

/-- The code says whether the data was handed over. -/
theorem handed_sendLoop (d : RawData) (src : DataSource) :
    (sendLoop d retryTimes success src).2.handed =
      if (sendLoop d retryTimes success src).1 = success then src.handed ++ [d.content]
      else src.handed := by
  by_cases h : ∃ i < retryTimes, src.results i = .success
  · obtain ⟨hcode, hhanded⟩ := sendLoop_spec d retryTimes success src h
    rw [if_pos hcode, hhanded]
  · obtain ⟨hhanded, hcode⟩ := sendLoop_fails d retryTimes success src fun i hi hr => h ⟨i, hi, hr⟩
    obtain ⟨r, hr, hcode⟩ := hcode (by decide)
    rw [hhanded, if_neg (hcode ▸ code_ne_success hr)]

end Transport

end HiSysEvent
