import HiSysEvent.Run
import HiSysEvent.WriteController

/-!
# The history of a call site

In a run of calls, what becomes of those of one call site depends on their parameters and
time stamps, and on which records the cache drops in between. A record is dropped
when 30 other keys were used since its last use (`crowded`), so the outcomes are those of
the site alone, with the crowded calls starting over (`outcomes_eq_siteOutcomes`).

Two runs with the same calls of the site that are crowded alike decide alike
(`sites_independent`). Without the condition they need not (`not_sites_independent`).
-/

namespace HiSysEvent

open Run

/-- A call of `CheckLimitWritingEvent`. -/
structure Call where
  param : ControlParam
  eventName : Bytes
  callerInfo : CallerInfo

/-- The key of the record of a call. -/
def Call.key (k : CharKind) (call : Call) : UInt64 :=
  concatenateInfoAsKey k call.eventName call.callerInfo.func call.callerInfo.line

/-- What a call did. It `starts` a cycle if it set the count to 1. -/
structure Outcome where
  second : ℕ
  starts : Bool
  accepted : Bool
  deriving DecidableEq

namespace WriteController

/-- The cache after a call. -/
def callStep (k : CharKind) (c : EventWroteLruCache) (call : Call) : EventWroteLruCache :=
  (checkLimitWritingEvent k call.param call.eventName call.callerInfo c).2

/-- What the limiter does with a call : its second, whether it starts a cycle and is accepted. -/
def outcome (k : CharKind) (c : EventWroteLruCache) (call : Call) : Outcome where
  second := (call.callerInfo.timeStamp / secToMillis).toNat
  starts := ((callStep k c call).key2Index (call.key k)).any fun node => node.record.count = 1
  accepted :=
    (checkLimitWritingEvent k call.param call.eventName call.callerInfo c).1 ≠ invalidTimeStamp

/-- What the calls with one key did in a run. -/
def outcomes (k : CharKind) (key : UInt64) : EventWroteLruCache → List Call → List Outcome
  | _, [] => []
  | c, call :: calls =>
    (if call.key k = key then [outcome k c call] else []) ++
      outcomes k key (callStep k c call) calls

/-- The parameters and time stamps of the calls with one key. -/
def site (k : CharKind) (key : UInt64) (calls : List Call) : List (ControlParam × UInt64) :=
  (calls.filter (·.key k = key)).map fun call => (call.param, call.callerInfo.timeStamp)

/-- For every call with the key, whether at least 30 distinct other keys were used since the
one before. -/
def crowded (k : CharKind) (key : UInt64) : List UInt64 → List Call → List Bool
  | _, [] => []
  | since, call :: calls =>
    if call.key k = key then
      decide (lruCacheDefaultSize ≤ since.length) :: crowded k key [] calls
    else crowded k key (since.insert (call.key k)) calls

/-! ## The site alone -/

/-- What a call that reads the record does. -/
def outcomeOf (param : ControlParam) (record : EventWroteRecord) (cur : UInt64) : Outcome where
  second := (cur / secToMillis).toNat
  starts := (nextRecord param record cur).count = 1
  accepted := admits param record cur && cur ≠ invalidTimeStamp

/-- The calls of a site, some of which find their record dropped. -/
def siteOutcomes : EventWroteRecord → List ((ControlParam × UInt64) × Bool) → List Outcome
  | _, [] => []
  | record, ((param, cur), dropped) :: visits =>
    let record := if dropped then {} else record
    outcomeOf param record cur :: siteOutcomes (nextRecord param record cur) visits

/-! ## What the cache knows -/

/-- The cache holds the 30 most recent of the records. -/
structure Remembers (c : EventWroteLruCache) (u : List (UInt64 × EventWroteRecord)) : Prop where
  capacity : c.capacity = lruCacheDefaultSize
  nodup : (Lru.keys u).Nodup
  shows : ∃ l, c.Shows l ∧ Lru.mapValues EventWroteCacheNode.record l = u.take lruCacheDefaultSize

theorem remembers_new : Remembers (.new lruCacheDefaultSize) [] :=
  ⟨rfl, List.nodup_nil, [], EventWroteLruCache.shows_new _, rfl⟩

/-- The record a call reads. -/
def recordRead (key : UInt64) (u : List (UInt64 × EventWroteRecord)) : EventWroteRecord :=
  ((u.take lruCacheDefaultSize).lookup key).getD {}

theorem checkLimitWritingEvent_call (k : CharKind) (c : EventWroteLruCache) (call : Call) :
    checkLimitWritingEvent k call.param call.eventName call.callerInfo c =
      (if admits call.param (c.get (call.key k)).1 call.callerInfo.timeStamp then
          call.callerInfo.timeStamp else invalidTimeStamp,
        (c.get (call.key k)).2.put (call.key k)
          (nextRecord call.param (c.get (call.key k)).1 call.callerInfo.timeStamp)) :=
  checkLimitWritingEvent_eq k call.param call.eventName call.callerInfo c

/-- A call reads the record of its key, acts on it and writes it back at the front. -/
theorem remembers_callStep {c : EventWroteLruCache} {u : List (UInt64 × EventWroteRecord)}
    (h : Remembers c u) (k : CharKind) (call : Call) :
    Remembers (callStep k c call) (Lru.touch (call.key k)
        (nextRecord call.param (recordRead (call.key k) u) call.callerInfo.timeStamp) u) ∧
      outcome k c call =
        outcomeOf call.param (recordRead (call.key k) u) call.callerInfo.timeStamp := by
  obtain ⟨l, hl, hu⟩ := h.shows
  have hcap : 0 < c.capacity := by rw [h.capacity]; decide
  have hread : (c.get (call.key k)).1 = recordRead (call.key k) u := by
    rw [(EventWroteLruCache.get_spec hl _).2, recordRead, ← hu, Lru.lookup_mapValues]
  have hcheck := checkLimitWritingEvent_call k c call
  rw [hread] at hcheck
  generalize hnext : nextRecord call.param (recordRead (call.key k) u)
    call.callerInfo.timeStamp = next at hcheck ⊢
  have hstep : callStep k c call = (c.get (call.key k)).2.put (call.key k) next := by
    rw [callStep, hcheck]
  obtain ⟨l', hl', hu'⟩ := EventWroteLruCache.put_get_spec hl hcap (call.key k) next
  rw [← hstep] at hl'
  rw [hu, h.capacity, Lru.put_take (by decide) _ _ h.nodup] at hu'
  refine ⟨⟨?_, Lru.nodup_touch h.nodup, l', hl', hu'⟩, ?_⟩
  · rw [hstep, EventWroteLruCache.capacity_put, EventWroteLruCache.capacity_get, h.capacity]
  · have hfound : ((callStep k c call).key2Index (call.key k)).map EventWroteCacheNode.record =
        some next := by
      rw [hl'.key2Index, ← Lru.lookup_mapValues, hu', Lru.lookup_take, Lru.ahead_touch_self,
        Lru.lookup_touch_self]
      rfl
    obtain ⟨node, hnode, rfl⟩ := Option.map_eq_some_iff.1 hfound
    simp only [outcome, outcomeOf, hnode, hnext, hcheck, Option.any_some]
    cases admits call.param (recordRead (call.key k) u) call.callerInfo.timeStamp <;> simp

/-- The record of a site as of its last call, and the other keys used since. -/
def Tracks (c : EventWroteLruCache) (key : UInt64) (record : EventWroteRecord)
    (since : List UInt64) : Prop :=
  ∃ u, Remembers c u ∧
    ((u.lookup key = some record ∧ (Lru.keys (Lru.ahead key u)).Perm since) ∨
      (u.lookup key = none ∧ record = {}))

theorem tracks_new (key : UInt64) (since : List UInt64) :
    Tracks (.new lruCacheDefaultSize) key {} since :=
  ⟨[], remembers_new, Or.inr ⟨rfl, rfl⟩⟩

variable {k : CharKind} {c : EventWroteLruCache} {key : UInt64} {record : EventWroteRecord}
  {since : List UInt64}

/-- A call with another key leaves the record as it is. -/
theorem Tracks.other (h : Tracks c key record since) {call : Call} (hkey : call.key k ≠ key) :
    Tracks (callStep k c call) key record (since.insert (call.key k)) := by
  obtain ⟨u, hu, htracks⟩ := h
  refine ⟨_, (remembers_callStep hu k call).1, ?_⟩
  rw [Lru.lookup_touch_of_ne (Ne.symm hkey)]
  rcases htracks with ⟨hl, hperm⟩ | hnone
  · exact Or.inl ⟨hl, Lru.ahead_touch hkey _ hu.nodup hperm⟩
  · exact Or.inr hnone

/-- A call with the key finds its record, unless it was dropped. -/
theorem Tracks.self (h : Tracks c key record since) {call : Call} (hkey : call.key k = key) :
    let read := if lruCacheDefaultSize ≤ since.length then {} else record
    outcome k c call = outcomeOf call.param read call.callerInfo.timeStamp ∧
      Tracks (callStep k c call) key
        (nextRecord call.param read call.callerInfo.timeStamp) [] := by
  obtain ⟨u, hu, htracks⟩ := h
  obtain ⟨hrem, hout⟩ := remembers_callStep hu k call
  have hread : recordRead (call.key k) u =
      if lruCacheDefaultSize ≤ since.length then {} else record := by
    rw [recordRead, hkey, Lru.lookup_take]
    rcases htracks with ⟨hl, hperm⟩ | ⟨hl, rfl⟩
    · have hlen : (Lru.ahead key u).length = since.length := by
        rw [← hperm.length_eq, Lru.keys, List.length_map]
      rw [hl, hlen]
      split_ifs with h1 h2 h2
      · omega
      · rfl
      · rfl
      · omega
    · rw [hl]
      simp
  rw [hread] at hrem hout
  refine ⟨hout, _, hrem, Or.inl ⟨?_, ?_⟩⟩
  · rw [hkey, Lru.lookup_touch_self]
  · rw [hkey, Lru.ahead_touch_self]
    exact List.Perm.refl _

theorem site_cons_self {call : Call} (hkey : call.key k = key) (calls : List Call) :
    site k key (call :: calls) = (call.param, call.callerInfo.timeStamp) :: site k key calls := by
  simp [site, hkey]

theorem site_cons_other {call : Call} (hkey : call.key k ≠ key) (calls : List Call) :
    site k key (call :: calls) = site k key calls := by
  simp [site, hkey]

/-- The outcomes of a site in a run are those of the site alone. -/
theorem outcomes_eq_siteOutcomes : ∀ {calls : List Call} {c : EventWroteLruCache}
    {record : EventWroteRecord} {since : List UInt64}, Tracks c key record since →
      outcomes k key c calls =
        siteOutcomes record ((site k key calls).zip (crowded k key since calls))
  | [], _, _, _, _ => rfl
  | call :: calls, c, record, since, h => by
    by_cases hkey : call.key k = key
    · obtain ⟨hout, hnext⟩ := h.self hkey
      rw [outcomes, if_pos hkey, outcomes_eq_siteOutcomes hnext, hout, crowded, if_pos hkey,
        site_cons_self hkey, List.zip_cons_cons, siteOutcomes]
      simp only [decide_eq_true_eq]
      rfl
    · rw [outcomes, if_neg hkey, outcomes_eq_siteOutcomes (h.other hkey), crowded, if_neg hkey,
        site_cons_other hkey, List.nil_append]

/-! ## Two runs -/

theorem length_crowded : ∀ (calls : List Call) (since : List UInt64),
    (crowded k key since calls).length = (site k key calls).length
  | [], _ => rfl
  | call :: calls, since => by
    by_cases hkey : call.key k = key
    · rw [crowded, if_pos hkey, site_cons_self hkey, List.length_cons, List.length_cons,
        length_crowded calls []]
    · rw [crowded, if_neg hkey, site_cons_other hkey, length_crowded calls]

/-- The first call of a site finds no record, dropped or not. -/
theorem siteOutcomes_congr {visits : List (ControlParam × UInt64)} {ds₁ ds₂ : List Bool}
    (h₁ : ds₁.length = visits.length) (h₂ : ds₂.length = visits.length)
    (htail : ds₁.tail = ds₂.tail) :
    siteOutcomes {} (visits.zip ds₁) = siteOutcomes {} (visits.zip ds₂) := by
  rcases visits with _ | ⟨v, visits⟩
  · rfl
  · obtain ⟨d₁, ds₁, rfl⟩ := List.exists_cons_of_length_eq_add_one h₁
    obtain ⟨d₂, ds₂, rfl⟩ := List.exists_cons_of_length_eq_add_one h₂
    obtain rfl : ds₁ = ds₂ := htail
    simp only [List.zip_cons_cons, siteOutcomes, ite_self]

theorem crowded_filter : ∀ calls : List Call,
    ∀ b ∈ crowded k key [] (calls.filter (·.key k = key)), b = false
  | [], b, hb => absurd hb (by simp [crowded])
  | call :: calls, b, hb => by
    by_cases hkey : call.key k = key
    · rw [List.filter_cons_of_pos (by simpa using hkey), crowded, if_pos hkey] at hb
      rcases List.mem_cons.1 hb with rfl | hb
      · rfl
      · exact crowded_filter calls b hb
    · rw [List.filter_cons_of_neg (by simpa using hkey)] at hb
      exact crowded_filter calls b hb

theorem outcomes_congr {calls₁ calls₂ : List Call}
    (hsite : site k key calls₁ = site k key calls₂)
    (hcrowded : (crowded k key [] calls₁).tail = (crowded k key [] calls₂).tail) :
    outcomes k key (.new lruCacheDefaultSize) calls₁ =
      outcomes k key (.new lruCacheDefaultSize) calls₂ := by
  rw [outcomes_eq_siteOutcomes (tracks_new key []), outcomes_eq_siteOutcomes (tracks_new key []),
    hsite]
  exact siteOutcomes_congr (by rw [length_crowded, hsite]) (length_crowded _ _) hcrowded

/-- Runs with the same calls of a site, crowded alike, decide alike. As long as no call is
crowded, the site decides as if it were alone. -/
theorem sites_independent (k : CharKind) (key : UInt64) (calls₁ calls₂ : List Call) :
    (site k key calls₁ = site k key calls₂ →
      (crowded k key [] calls₁).tail = (crowded k key [] calls₂).tail →
        outcomes k key (.new lruCacheDefaultSize) calls₁ =
          outcomes k key (.new lruCacheDefaultSize) calls₂) ∧
    ((∀ b ∈ (crowded k key [] calls₁).tail, b = false) →
      outcomes k key (.new lruCacheDefaultSize) calls₁ =
        outcomes k key (.new lruCacheDefaultSize) (calls₁.filter (·.key k = key))) := by
  refine ⟨outcomes_congr, fun hfree => ?_⟩
  have hsite : site k key (calls₁.filter (·.key k = key)) = site k key calls₁ := by
    simp [site]
  refine outcomes_congr hsite.symm ?_
  rw [List.eq_replicate_of_mem hfree, List.eq_replicate_of_mem
    fun b hb => crowded_filter calls₁ b (List.mem_of_mem_tail hb)]
  simp only [List.length_tail, length_crowded, hsite]

/-- One event a cycle, written on this line. -/
def lineCall (line : ℕ) : Call :=
  ⟨⟨5, 1⟩, [65], ⟨[66], line, 1000⟩⟩

theorem sites_independent_alone :
    outcomes .signed ((lineCall 30).key .signed) (.new lruCacheDefaultSize)
        [lineCall 30, lineCall 1, lineCall 30] =
      outcomes .signed ((lineCall 30).key .signed) (.new lruCacheDefaultSize)
        [lineCall 30, lineCall 30] :=
  (sites_independent .signed _ _ _).1 (by decide +kernel) (by decide +kernel)

/-- Thirty other lines between two calls of one line reset its record. -/
theorem not_sites_independent :
    ((List.range 31).map fun line => (lineCall line).key .signed).Nodup ∧
    site .signed ((lineCall 30).key .signed) [lineCall 30, lineCall 30] =
      site .signed ((lineCall 30).key .signed)
        (lineCall 30 :: (List.range 30).map lineCall ++ [lineCall 30]) ∧
    (outcomes .signed ((lineCall 30).key .signed) (.new lruCacheDefaultSize)
        [lineCall 30, lineCall 30]).map Outcome.accepted = [true, false] ∧
    (outcomes .signed ((lineCall 30).key .signed) (.new lruCacheDefaultSize)
        (lineCall 30 :: (List.range 30).map lineCall ++ [lineCall 30])).map Outcome.accepted =
      [true, true] := by
  decide +kernel

end WriteController

end HiSysEvent
