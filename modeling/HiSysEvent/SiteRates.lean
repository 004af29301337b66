import Mathlib.Data.Finset.Card
import HiSysEvent.LimiterRace
import HiSysEvent.WriteSystem

/-!
# The rate of a site among parallel writers

`accepted_le` bounds the calls of one site by threads that call nothing else. Here the threads call
any of at most 30 sites, which the cache has room for, and only the steps of one site
have to find the record they continue (`Calm`). No more of its calls are accepted in one cycle
than the threshold, so no more of its events are handed over to the receiver
(`handed_le_threshold`).
-/

set_option linter.unusedSectionVars false

namespace HiSysEvent

open Occupancy StringFilter WriteController

namespace Writing

variable {ι : Type} [DecidableEq ι] {k : CharKind} {sites : Finset UInt64} {key : UInt64}
  {param : ControlParam} {times : Set UInt64} {s s' : Writing ι} {a : Move ι} {i : ι} {n : ℕ}
  {c : EventWroteLruCache}

/-! ## A cache with room for all sites -/

/-- A cache of the default size with records of the sites. -/
structure Kept (sites : Finset UInt64) (c : EventWroteLruCache) : Prop where
  room : sites.card ≤ lruCacheDefaultSize
  capacity : c.capacity = lruCacheDefaultSize
  shows : ∃ l, c.Shows l ∧ ∀ key ∈ Lru.keys l, key ∈ sites

theorem kept_new (h : sites.card ≤ lruCacheDefaultSize) : Kept sites (.new lruCacheDefaultSize) :=
  ⟨h, rfl, [], EventWroteLruCache.shows_new _, by simp⟩

/-- A read changes no record. -/
theorem Kept.get (h : Kept sites c) (key : UInt64) :
    Kept sites (c.get key).2 ∧ ∀ key', ((c.get key).2.get key').1 = (c.get key').1 := by
  obtain ⟨hroom, hcap, l, hl, hsites⟩ := h
  obtain ⟨hget, -⟩ := EventWroteLruCache.get_spec hl key
  refine ⟨⟨hroom, by rw [EventWroteLruCache.capacity_get, hcap], _, hget,
    fun key' hkey => hsites key' (Lru.mem_keys_get hkey)⟩, fun key' => ?_⟩
  rw [(EventWroteLruCache.get_spec hget key').2, (EventWroteLruCache.get_spec hl key').2]
  by_cases hkey : key' = key
  · rw [hkey, Lru.lookup_get]
  · rw [Lru.lookup_get_of_ne hkey]

/-- A write of a site changes its record and no other. -/
theorem Kept.put (h : Kept sites c) {key : UInt64} (hkey : key ∈ sites)
    (record : EventWroteRecord) :
    Kept sites (c.put key record) ∧ ((c.put key record).get key).1 = record ∧
      ∀ key' ≠ key, ((c.put key record).get key').1 = (c.get key').1 := by
  obtain ⟨hroom, hcap, l, hl, hsites⟩ := h
  have hpos : 0 < c.capacity := by rw [hcap]; decide
  obtain ⟨iter, hput⟩ := EventWroteLruCache.put_spec hl hpos key record
  have hspace : key ∉ Lru.keys l → l.length ≠ c.capacity := fun hnew => by
    have hsub : (Lru.keys l).toFinset ⊆ sites.erase key := fun key' hmem =>
      Finset.mem_erase.2 ⟨fun heq => hnew (heq ▸ List.mem_toFinset.1 hmem),
        hsites key' (List.mem_toFinset.1 hmem)⟩
    have hle := Finset.card_le_card hsub
    rw [List.toFinset_card_of_nodup hl.nodup, Finset.card_erase_of_mem hkey, Lru.keys,
      List.length_map] at hle
    have hone : 0 < sites.card := Finset.card_pos.2 ⟨key, hkey⟩
    omega
  refine ⟨⟨hroom, by rw [EventWroteLruCache.capacity_put, hcap], _, hput, fun key' hmem => ?_⟩,
    ?_, fun key' hne => ?_⟩
  · rcases Lru.mem_keys_put hmem with rfl | hmem
    · exact hkey
    · exact hsites key' hmem
  · rw [(EventWroteLruCache.get_spec hput key).2, Lru.lookup_put]
    rfl
  · rw [(EventWroteLruCache.get_spec hput key').2, (EventWroteLruCache.get_spec hl key').2,
      Lru.lookup_put_of_ne hne _ hspace]

/-! ## The accepted calls of a site -/

/-- The calls of the site. -/
def countOf (k : CharKind) (key : UInt64) (rs : List WriteRequest) : ℕ :=
  rs.countP fun r => r.key k = key

/-- A call of one of the sites. Those of the site `key` have its parameters and one of the time
stamps. -/
def OfSites (k : CharKind) (sites : Finset UInt64) (key : UInt64) (param : ControlParam)
    (times : Set UInt64) (r : WriteRequest) : Prop :=
  r.key k ∈ sites ∧ (r.key k = key → r.param = param ∧ r.callerInfo.timeStamp ∈ times)

/-- The calls are of the sites, and a `put` of the site `key` finds the record its `get` has read,
which is not from a later second and whose count does not wrap around. -/
def Calm (k : CharKind) (sites : Finset UInt64) (key : UInt64) (param : ControlParam)
    (times : Set UInt64) (s : Writing ι) : Move ι → Prop
  | .get _ r => OfSites k sites key param times r
  | .put i => ∀ r record, s.stage i = .checking r record → r.key k = key →
      (s.cache.get key).1 = record ∧
        record.timestamp / secToMillis ≤ r.callerInfo.timeStamp / secToMillis ∧
        record.count + 1 ≠ 0
  | _ => True

/-- A run of calm steps. -/
def CalmRun (k : CharKind) (sites : Finset UInt64) (key : UInt64) (param : ControlParam)
    (times : Set UInt64) : Writing ι → Writing ι → Prop :=
  Relation.ReflTransGen fun s s' => ∃ a, Step k s a s' ∧ Calm k sites key param times s a

/-- No call of the site is between its `get` and its `put`, and its record is of an earlier
cycle. -/
structure Quiet (k : CharKind) (sites : Finset UInt64) (key : UInt64) (param : ControlParam)
    (times : Set UInt64) (s : Writing ι) : Prop where
  kept : Kept sites s.cache
  checking : ∀ i r record, s.stage i = .checking r record → r.key k ∈ sites ∧ r.key k ≠ key
  expired : Expired param times (s.cache.get key).1

theorem quiet_init (h : sites.card ≤ lruCacheDefaultSize) :
    Quiet k sites key param times (init : Writing ι) :=
  ⟨kept_new h, fun _ _ _ hi => absurd hi (by simp [init]), Or.inl rfl⟩

/-- The count of the running cycle covers the calls accepted since `n`. -/
structure Counted (k : CharKind) (sites : Finset UInt64) (key : UInt64) (param : ControlParam)
    (times : Set UInt64) (n : ℕ) (s : Writing ι) : Prop where
  kept : Kept sites s.cache
  checking : ∀ i r record, s.stage i = .checking r record → OfSites k sites key param times r
  counted : ∃ m, countOf k key s.accepted = n + m ∧
    ((m = 0 ∧ Expired param times (s.cache.get key).1) ∨
      ((s.cache.get key).1.timestamp ∈ times ∧ (s.cache.get key).1.count ≠ 0 ∧
        m ≤ (s.cache.get key).1.count.toNat ∧ m ≤ param.threshold.toNat))

theorem Quiet.counted (h : Quiet k sites key param times s) :
    Counted k sites key param times (countOf k key s.accepted) s :=
  ⟨h.kept, fun i r record hi => ⟨(h.checking i r record hi).1,
    fun heq => absurd heq (h.checking i r record hi).2⟩, 0, rfl, Or.inl ⟨rfl, h.expired⟩⟩

theorem countOf_append (rs : List WriteRequest) (r : WriteRequest) :
    countOf k key (rs ++ [r]) = countOf k key rs + if r.key k = key then 1 else 0 := by
  simp only [countOf, List.countP_append, List.countP_singleton, decide_eq_true_eq]

/-- The record and the number of accepted calls after a `put`. -/
theorem Counted.write (hthreshold : 1 ≤ param.threshold) (htimes : OneCycle param times)
    (h : Counted k sites key param times n s) {r : WriteRequest} {record : EventWroteRecord}
    (hi : s.stage i = .checking r record) (hcalm : Calm k sites key param times s (.put i))
    (rs : List WriteRequest)
    (hrs : countOf k key rs = countOf k key s.accepted +
      if r.key k = key ∧ r.passes record = true then 1 else 0) :
    Kept sites (s.write k r record).cache ∧ ∃ m, countOf k key rs = n + m ∧
      ((m = 0 ∧ Expired param times ((s.write k r record).cache.get key).1) ∨
        (((s.write k r record).cache.get key).1.timestamp ∈ times ∧
          ((s.write k r record).cache.get key).1.count ≠ 0 ∧
          m ≤ ((s.write k r record).cache.get key).1.count.toNat ∧
          m ≤ param.threshold.toNat)) := by
  obtain ⟨hsite, hown⟩ := h.checking i r record hi
  obtain ⟨hkept, hself, hothers⟩ := h.kept.put hsite
    (nextRecord r.param record r.callerInfo.timeStamp)
  obtain ⟨m, hm, hcounted⟩ := h.counted
  refine ⟨hkept, ?_⟩
  by_cases hkey : r.key k = key
  · obtain ⟨hparam, htime⟩ := hown hkey
    obtain ⟨hread, hlater, hwrap⟩ := hcalm r record hi hkey
    have hcache : ((s.write k r record).cache.get key).1 =
        nextRecord param record r.callerInfo.timeStamp := by
      rw [← hkey, ← hparam]
      exact hself
    rw [hread] at hcounted
    obtain ⟨hmem, hcount, hle, hlim⟩ :=
      counted_next hthreshold htimes htime hlater hwrap hcounted
    have hallows : (if r.key k = key ∧ r.passes record = true then 1 else 0) ≤
        (admits param record r.callerInfo.timeStamp).toNat := by
      split_ifs with hpass
      · have hallow := (Bool.and_eq_true_iff.1 hpass.2).1
        rw [hparam] at hallow
        rw [hallow]
        rfl
      · exact Nat.zero_le _
    rw [hcache]
    refine ⟨m + if r.key k = key ∧ r.passes record = true then 1 else 0, by omega,
      Or.inr ⟨hmem, hcount, by omega, by omega⟩⟩
  · rw [if_neg fun hand => hkey hand.1] at hrs
    have hcache : ((s.write k r record).cache.get key).1 = (s.cache.get key).1 :=
      hothers key (Ne.symm hkey)
    rw [hcache]
    exact ⟨m, by omega, hcounted⟩

/-- A calm step keeps the count. -/
theorem Counted.step (hthreshold : 1 ≤ param.threshold) (htimes : OneCycle param times)
    (h : Counted k sites key param times n s) (hstep : Step k s a s')
    (hcalm : Calm k sites key param times s a) : Counted k sites key param times n s' := by
  -- a thread that is not checking afterwards
  have hleaves : ∀ {i : ι} {stage : Stage} {w : Writing ι}, w.stage = s.stage →
      (∀ r record, stage ≠ .checking r record) → ∀ j r record,
        (w.setStage i stage).stage j = .checking r record → OfSites k sites key param times r := by
    intro i stage w hw hstage j r record hj
    by_cases hji : j = i
    · rw [hji, stage_self] at hj
      exact absurd hj (hstage r record)
    · rw [stage_of_ne w hji, hw] at hj
      exact h.checking j r record hj
  cases hstep with
  | @get i r hi =>
    obtain ⟨hkept, hsame⟩ := h.kept.get (r.key k)
    refine ⟨hkept, fun j q record hj => ?_, ?_⟩
    · by_cases hji : j = i
      · rw [hji, read, stage_self] at hj
        obtain rfl : r = q := (Stage.checking.inj hj).1
        exact hcalm
      · rw [read, stage_of_ne _ hji] at hj
        exact h.checking j q record hj
    · have hcache : ((s.read k i r).cache.get key).1 = (s.cache.get key).1 := hsame key
      rw [hcache]
      exact h.counted
  | @refuse i r record hi hr =>
    obtain ⟨hkept, hcounted⟩ := h.write hthreshold htimes hi hcalm s.accepted
      (by rw [if_neg fun hand => by simp [hr] at hand, Nat.add_zero])
    exact ⟨hkept, hleaves rfl (by simp), hcounted⟩
  | @accept i r record hi hr =>
    obtain ⟨hkept, hcounted⟩ := h.write hthreshold htimes hi hcalm (s.accepted ++ [r])
      (by rw [countOf_append]; simp only [hr, and_true])
    exact ⟨hkept, hleaves rfl (by simp), hcounted⟩
  | error | empty | overSize | start | return_ =>
    exact ⟨h.kept, hleaves rfl (by simp), h.counted⟩
  | send => exact ⟨h.kept, h.checking, h.counted⟩

theorem Counted.run (hthreshold : 1 ≤ param.threshold) (htimes : OneCycle param times)
    (h : Counted k sites key param times n s) (hrun : CalmRun k sites key param times s s') :
    Counted k sites key param times n s' := by
  induction hrun with
  | refl => exact h
  | tail _ hstep ih =>
    obtain ⟨a, hstep, hcalm⟩ := hstep
    exact ih.step hthreshold htimes hstep hcalm

theorem Counted.le (h : Counted k sites key param times n s) :
    countOf k key s.accepted ≤ n + param.threshold.toNat := by
  obtain ⟨m, hm, ⟨rfl, -⟩ | ⟨-, -, -, hle⟩⟩ := h.counted
  · omega
  · omega

/-- However the threads interleave, a calm run in one cycle accepts no more calls of a site than
the threshold, and of all calls of the site ever accepted no more are handed over to the
receiver. -/
theorem handed_le_threshold (hthreshold : 1 ≤ param.threshold) (htimes : OneCycle param times)
    (hquiet : Quiet k sites key param times s) (hrun : CalmRun k sites key param times s s') :
    countOf k key s'.accepted ≤ countOf k key s.accepted + param.threshold.toNat ∧
      ∀ handed dropped queued flying building,
        EndToEnd k s' handed dropped queued flying building →
          countOf k key handed ≤ countOf k key s.accepted + param.threshold.toNat := by
  have hle := (hquiet.counted.run hthreshold htimes hrun).le
  refine ⟨hle, fun handed dropped queued flying building hend => le_trans ?_ hle⟩
  have hcount := hend.accepted.countP_eq fun r => r.key k = key
  simp only [List.countP_append] at hcount
  rw [countOf, countOf]
  omega

/-- A call of a site with the threshold 1. -/
def oneRequest : WriteRequest :=
  { numberRequest with param := ⟨5, 1⟩ }

/-- Of two calls at the same time the second is refused. -/
theorem handed_le_threshold_two : ∃ s : Writing Bool, s.accepted = [oneRequest] ∧
    s.stage = (fun i => if i then .idle else .building oneRequest) ∧
    countOf .signed (oneRequest.key .signed) s.accepted ≤ 0 + 1 ∧
      ∀ handed dropped queued flying building,
        EndToEnd .signed s handed dropped queued flying building →
          countOf .signed (oneRequest.key .signed) handed ≤ 0 + 1 := by
  set key := oneRequest.key .signed with hkey
  have hget := @Step.get Bool _ .signed init false oneRequest rfl
  have haccept := @Step.accept Bool _ .signed (init.read .signed false oneRequest) false oneRequest
    {} (stage_self _ false _) (by decide)
  have hfirst : Calm .signed {key} key ⟨5, 1⟩ {1000} (init.read .signed false oneRequest)
      (.put false) := by
    intro r record hr _
    obtain ⟨rfl, rfl⟩ := Stage.checking.inj hr
    exact ⟨rfl, show (0 : UInt64) / secToMillis ≤ 1000 / secToMillis by decide,
      show (0 : UInt64) + 1 ≠ 0 by decide⟩
  set s₁ := ({ (init.read .signed false oneRequest).write .signed oneRequest {} with
    accepted := [] ++ [oneRequest] }.setStage false (.building oneRequest)) with hs₁
  have hget' := @Step.get Bool _ .signed s₁ true oneRequest rfl
  have hrefuse := @Step.refuse Bool _ .signed (s₁.read .signed true oneRequest) true oneRequest
    (s₁.cache.get key).1 (stage_self _ true _) (by decide +kernel)
  have hsecond : Calm .signed {key} key ⟨5, 1⟩ {1000} (s₁.read .signed true oneRequest)
      (.put true) := by
    intro r record hr _
    obtain ⟨rfl, rfl⟩ := Stage.checking.inj hr
    exact ⟨by decide +kernel, by decide +kernel, by decide +kernel⟩
  have hrun : CalmRun .signed {key} key ⟨5, 1⟩ {1000} init _ :=
    (((Relation.ReflTransGen.single
      ⟨_, hget, Finset.mem_singleton_self _, fun _ => ⟨rfl, rfl⟩⟩).tail
      ⟨_, haccept, hfirst⟩).tail
      ⟨_, hget', Finset.mem_singleton_self _, fun _ => ⟨rfl, rfl⟩⟩).tail ⟨_, hrefuse, hsecond⟩
  refine ⟨_, rfl, ?_, handed_le_threshold (by decide) oneCycle_singleton
    (quiet_init (by decide)) hrun⟩
  funext i
  cases i <;> rfl

end Writing

end HiSysEvent
