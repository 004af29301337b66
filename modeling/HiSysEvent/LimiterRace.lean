import Mathlib.Data.Set.Basic
import HiSysEvent.Run
import HiSysEvent.WriteController

/-!
# The limiter under concurrent writers

`Get` and `Put` lock the cache each on its own, so the calls of different threads interleave
between the two. Two threads that read the same record both count from it, and both may
be accepted (`not_accepted_le`).

As long as every `Put` finds the record its `Get` has read (`Undisturbed`), no run accepts
more calls of one cycle than the threshold (`accepted_le`).
-/

namespace HiSysEvent

open Run

namespace WriteController

variable {ι : Type} [DecidableEq ι]

/-- The cache, what the threads between `Get` and `Put` have read, and their time stamps, and
how many calls were accepted. -/
structure Limiter (ι : Type) where
  cache : EventWroteLruCache
  reading : ι → Option (EventWroteRecord × UInt64)
  accepted : ℕ

/-- A call reads its record, and writes it back. -/
inductive Action (ι : Type)
  | get (i : ι) (cur : UInt64)
  | put (i : ι)

namespace Limiter

/-- Every thread is before its `Get`. -/
def idle (c : EventWroteLruCache) : Limiter ι :=
  ⟨c, fun _ => none, 0⟩

/-- Set what a thread has read. -/
def setReading (i : ι) (r : Option (EventWroteRecord × UInt64)) (s : Limiter ι) : Limiter ι :=
  { s with reading := fun j => if j = i then r else s.reading j }

/-- One critical section of a thread. -/
def step (param : ControlParam) (key : UInt64) (s : Limiter ι) : Action ι → Limiter ι
  | .get i cur =>
    match s.reading i with
    | some _ => s
    | none =>
      { s with cache := (s.cache.get key).2 }.setReading i (some ((s.cache.get key).1, cur))
  | .put i =>
    match s.reading i with
    | none => s
    | some (record, cur) =>
      { s with
        cache := s.cache.put key (nextRecord param record cur)
        accepted := s.accepted + (admits param record cur).toNat }.setReading i none

end Limiter

open Limiter

/-- A thread that is not interrupted makes a call of `CheckLimitWritingEvent`. -/
theorem exec_get_put (k : CharKind) (param : ControlParam) (eventName : Bytes) (info : CallerInfo)
    (c : EventWroteLruCache) (i : ι) :
    let key := concatenateInfoAsKey k eventName info.func info.line
    let s := exec (step param key) (idle c) [.get i info.timeStamp, .put i]
    checkLimitWritingEvent k param eventName info c =
      (if s.accepted = 1 then info.timeStamp else invalidTimeStamp, s.cache) := by
  simp [exec, step, idle, setReading, checkLimitWritingEvent_eq]

/-! ## Runs in one cycle -/

/-- No time stamp is past the cycle of another. -/
def OneCycle (param : ControlParam) (times : Set UInt64) : Prop :=
  ∀ a ∈ times, ∀ b ∈ times, ¬a / secToMillis + param.period < b / secToMillis

/-- A call has one of the time stamps. -/
def Timed (times : Set UInt64) : Action ι → Prop
  | .get _ cur => cur ∈ times
  | .put _ => True

/-- A record of an earlier cycle, or none. -/
def Expired (param : ControlParam) (times : Set UInt64) (record : EventWroteRecord) : Prop :=
  record.count = 0 ∨ ∀ b ∈ times, record.timestamp / secToMillis + param.period < b / secToMillis

/-- `Put` finds the record that was read, which is not from a later second and whose count does not
wrap around. -/
def Undisturbed (key : UInt64) (s : Limiter ι) : Action ι → Prop
  | .get _ _ => True
  | .put i => ∀ record cur, s.reading i = some (record, cur) →
      (s.cache.get key).1 = record ∧
        record.timestamp / secToMillis ≤ cur / secToMillis ∧ record.count + 1 ≠ 0

/-- A cache that holds entries and has room. -/
def Sound (c : EventWroteLruCache) : Prop :=
  0 < c.capacity ∧ ∃ l, c.Shows l

theorem sound_new : Sound (.new lruCacheDefaultSize) :=
  ⟨by decide, [], EventWroteLruCache.shows_new _⟩

variable {param : ControlParam} {key : UInt64} {times : Set UInt64} {c : EventWroteLruCache}

theorem Sound.get (h : Sound c) :
    Sound (c.get key).2 ∧ ((c.get key).2.get key).1 = (c.get key).1 := by
  obtain ⟨hcap, l, hl⟩ := h
  obtain ⟨hget, hread⟩ := EventWroteLruCache.get_spec hl key
  refine ⟨⟨by rwa [EventWroteLruCache.capacity_get], _, hget⟩, ?_⟩
  rw [(EventWroteLruCache.get_spec hget key).2, hread, Lru.lookup_get]

theorem Sound.put (h : Sound c) (key : UInt64) (record : EventWroteRecord) :
    Sound (c.put key record) ∧ ((c.put key record).get key).1 = record := by
  obtain ⟨hcap, l, hl⟩ := h
  obtain ⟨iter, hput⟩ := EventWroteLruCache.put_spec hl hcap key record
  refine ⟨⟨by rwa [EventWroteLruCache.capacity_put], _, hput⟩, ?_⟩
  rw [(EventWroteLruCache.get_spec hput key).2, Lru.lookup_put]
  rfl

/-- The count of the running cycle covers the calls accepted in it. -/
structure Bounded (param : ControlParam) (key : UInt64) (times : Set UInt64) (s : Limiter ι) :
    Prop where
  sound : Sound s.cache
  timed : ∀ i record cur, s.reading i = some (record, cur) → cur ∈ times
  counted : (s.accepted = 0 ∧ Expired param times (s.cache.get key).1) ∨
    ((s.cache.get key).1.timestamp ∈ times ∧ (s.cache.get key).1.count ≠ 0 ∧
      s.accepted ≤ (s.cache.get key).1.count.toNat ∧ s.accepted ≤ param.threshold.toNat)

/-- A `Put` that finds the record it continues counts its call. -/
theorem counted_next (hthreshold : 1 ≤ param.threshold) (htimes : OneCycle param times)
    {record : EventWroteRecord} {cur : UInt64} {n : ℕ} (hcur : cur ∈ times)
    (hlater : record.timestamp / secToMillis ≤ cur / secToMillis) (hwrap : record.count + 1 ≠ 0)
    (h : (n = 0 ∧ Expired param times record) ∨ (record.timestamp ∈ times ∧ record.count ≠ 0 ∧
      n ≤ record.count.toNat ∧ n ≤ param.threshold.toNat)) :
    (nextRecord param record cur).timestamp ∈ times ∧ (nextRecord param record cur).count ≠ 0 ∧
      n + (admits param record cur).toNat ≤ (nextRecord param record cur).count.toNat ∧
      n + (admits param record cur).toNat ≤ param.threshold.toNat := by
  have hone : 1 ≤ param.threshold.toNat := UInt64.le_iff_toNat_le.1 hthreshold
  rcases h with ⟨rfl, hexpired⟩ | ⟨hmem, hcount, hn, hle⟩
  · have hstarts : startsCycle param record cur = true := by
      rcases hexpired with h0 | hlt
      · simp [startsCycle, h0]
      · simp [startsCycle, hlt cur hcur]
    have hnext : nextRecord param record cur = ⟨1, cur⟩ := by rw [nextRecord, if_pos hstarts]
    rw [hnext]
    refine ⟨hcur, show (1 : UInt64) ≠ 0 by decide, ?_, ?_⟩
    · simp [admits, hstarts]
    · simpa [admits, hstarts] using hone
  · have hstarts : startsCycle param record cur = false := by
      have h1 := htimes _ hmem cur hcur
      have h2 := UInt64.not_lt.2 hlater
      simp only [startsCycle, hcount, h1, gt_iff_lt, h2, decide_false, Bool.or_false]
    have hnext : nextRecord param record cur = ⟨record.count + 1, record.timestamp⟩ := by
      rw [nextRecord, hstarts]
      rfl
    have hadd : (record.count + 1).toNat = record.count.toNat + 1 := by
      have hlt := record.count.toNat_lt
      have hne : (record.count + 1).toNat ≠ 0 := fun h0 => hwrap (UInt64.toNat_inj.1 h0)
      rw [UInt64.toNat_add, UInt64.toNat_one] at *
      omega
    rw [hnext]
    refine ⟨hmem, hwrap, ?_, ?_⟩
    · have := Bool.toNat_le (admits param record cur)
      simp only [hadd]
      omega
    · rw [admits, hstarts, Bool.false_or]
      by_cases hok : record.count + 1 ≤ param.threshold
      · have := UInt64.le_iff_toNat_le.1 hok
        simp only [hok, decide_true, Bool.toNat_true]
        omega
      · simpa [hok] using hle

theorem Bounded.step (hthreshold : 1 ≤ param.threshold) (htimes : OneCycle param times)
    {s : Limiter ι} {a : Action ι} (h : Bounded param key times s) (htimed : Timed times a)
    (hgood : Undisturbed key s a) : Bounded param key times (s.step param key a) := by
  cases a with
  | get i cur =>
    simp only [Limiter.step]
    split
    case h_1 => exact h
    case h_2 =>
      refine ⟨h.sound.get.1, fun j record cur' hj => ?_, ?_⟩
      · simp only [setReading] at hj
        split at hj
        · cases hj
          exact htimed
        · exact h.timed j record cur' hj
      · simpa only [setReading, h.sound.get.2] using h.counted
  | put i =>
    simp only [Limiter.step]
    split
    case h_1 => exact h
    case h_2 record cur hi =>
      obtain ⟨hread, hlater, hwrap⟩ := hgood record cur hi
      have hput := h.sound.put key (nextRecord param record cur)
      refine ⟨hput.1, fun j record' cur' hj => ?_, Or.inr ?_⟩
      · simp only [setReading] at hj
        split at hj
        · cases hj
        · exact h.timed j record' cur' hj
      · simp only [setReading, hput.2]
        have hcounted := h.counted
        rw [hread] at hcounted
        exact counted_next hthreshold htimes (h.timed i record cur hi) hlater hwrap hcounted

theorem bounded_exec (hthreshold : 1 ≤ param.threshold) (htimes : OneCycle param times) :
    ∀ {acts : List (Action ι)} {s : Limiter ι}, Bounded param key times s →
      (∀ a ∈ acts, Timed times a) → Each (Limiter.step param key) (Undisturbed key) s acts →
        Bounded param key times (exec (Limiter.step param key) s acts)
  | [], _, h, _, _ => h
  | a :: _, _, h, htimed, hgood => by
    rw [exec]
    exact bounded_exec hthreshold htimes
      (h.step hthreshold htimes (htimed a List.mem_cons_self) hgood.1)
      (fun b hb => htimed b (List.mem_cons_of_mem _ hb)) hgood.2

/-- Undisturbed threads accept at most the threshold in one cycle. -/
theorem accepted_le (param : ControlParam) (hthreshold : 1 ≤ param.threshold) (key : UInt64)
    (times : Set UInt64) (htimes : OneCycle param times) (c : EventWroteLruCache) (hc : Sound c)
    (hstart : Expired param times (c.get key).1) (acts : List (Action ι))
    (htimed : ∀ a ∈ acts, Timed times a)
    (hgood : Each (Limiter.step param key) (Undisturbed key) (idle c) acts) :
    (exec (Limiter.step param key) (idle c) acts).accepted ≤ param.threshold.toNat := by
  have hidle : Bounded param key times (idle c : Limiter ι) :=
    ⟨hc, fun _ _ _ h => absurd h (by simp [idle]), Or.inl ⟨rfl, hstart⟩⟩
  rcases (bounded_exec hthreshold htimes hidle htimed hgood).counted with ⟨h0, -⟩ | ⟨-, -, -, hle⟩
  · omega
  · exact hle

theorem oneCycle_singleton : OneCycle ⟨5, 1⟩ {1000} := by
  rintro a rfl b rfl
  decide

/-- Two threads, one after the other. -/
theorem accepted_le_serial :
    (exec (Limiter.step ⟨5, 1⟩ 7) (idle (.new lruCacheDefaultSize))
      [.get false 1000, .put false, .get true 1000, .put true]).accepted ≤ 1 :=
  accepted_le ⟨5, 1⟩ (by decide) 7 {1000} oneCycle_singleton _ sound_new (Or.inl rfl) _
    (by simp [Timed])
    ⟨trivial, fun record cur h => by
      have h : some ({}, 1000) = some (record, cur) := h
      cases h
      decide,
    trivial, fun record cur h => by
      have h : some (⟨1, 1000⟩, 1000) = some (record, cur) := h
      cases h
      decide,
    trivial⟩

/-- Two threads that read before either writes are both accepted. -/
theorem not_accepted_le :
    OneCycle ⟨5, 1⟩ {1000} ∧ Sound (.new lruCacheDefaultSize) ∧
    Expired ⟨5, 1⟩ {1000} ((EventWroteLruCache.new lruCacheDefaultSize).get 7).1 ∧
    (∀ a ∈ [Action.get false 1000, .get true 1000, .put false, .put true], Timed {1000} a) ∧
    (exec (Limiter.step ⟨5, 1⟩ 7) (idle (.new lruCacheDefaultSize))
      [.get false 1000, .get true 1000, .put false, .put true]).accepted = 2 :=
  ⟨oneCycle_singleton, sound_new, Or.inl rfl, by simp [Timed], by decide⟩

end WriteController

end HiSysEvent
