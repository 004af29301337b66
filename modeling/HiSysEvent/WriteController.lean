import HiSysEvent.Lru
import HiSysEvent.StringFilter

/-!
# The write controller

`CheckLimitWritingEvent` limits how often a call site, identified by a hash of the event
name and the caller, writes within one cycle of `period` seconds. The records of the call
sites are in a cache of 30 that drops the one used least recently.

The cache links a map from keys to records with a list of the keys, by iterators.
`Shows` says which list of entries a cache holds, and `Get` and `Put` are the
operations of `Lru` on it (`get_spec`, `put_spec`).
-/

set_option linter.unusedSectionVars false

namespace HiSysEvent

abbrev invalidTimeStamp : UInt64 := 0
abbrev lruCacheDefaultSize : ℕ := 30
abbrev secToMillis : UInt64 := 1000

/-- The limit of a call site. -/
structure ControlParam where
  period : UInt64
  threshold : UInt64
  deriving DecidableEq

/-- Where and when a call is made. -/
structure CallerInfo where
  func : Bytes
  line : ℤ
  timeStamp : UInt64

/-! ## Keys -/

/-- FNV over the first 256 characters. Each is a `char` promoted to 64 bits. -/
def generateHash (k : CharKind) (info : Bytes) : UInt64 :=
  (info.take 256).foldl (fun ret c => (ret ^^^ UInt64.ofInt (k.toInt c)) * 0x100000001B3)
    0xCBF29CE484222325

/-- `std::to_string`. -/
def decimal (n : ℤ) : Bytes :=
  (if n < 0 then [45] else []) ++ (Nat.toDigits 10 n.natAbs).map fun c => UInt8.ofNat c.toNat

/-- `ConcatenateInfoAsKey`. -/
def concatenateInfoAsKey (k : CharKind) (eventName func : Bytes) (line : ℤ) : UInt64 :=
  generateHash k (cString eventName ++ [95] ++ cString func ++ [95] ++ decimal line)

/-! ## The cache -/

/-- What the cache holds of a call site. -/
structure EventWroteRecord where
  count : UInt64 := 0
  timestamp : UInt64 := invalidTimeStamp
  deriving DecidableEq

/-- The iterator is the identity of a list node. -/
structure EventWroteCacheNode where
  iter : ℕ
  record : EventWroteRecord

/-- The nodes of the list are numbered as they are allocated. -/
structure EventWroteLruCache where
  key2Index : UInt64 → Option EventWroteCacheNode
  keyCache : List (ℕ × UInt64)
  capacity : ℕ
  nextNode : ℕ

namespace EventWroteLruCache

/-- An empty cache. -/
def new (capacity : ℕ) : EventWroteLruCache :=
  ⟨fun _ => none, [], capacity, 0⟩

/-- `key2Index_[key] = node`. -/
def setIndex (key : UInt64) (node : EventWroteCacheNode) (c : EventWroteLruCache) :
    EventWroteLruCache :=
  { c with key2Index := fun key' => if key' = key then some node else c.key2Index key' }

/-- `key2Index_.erase(key)`. -/
def eraseIndex (key : UInt64) (c : EventWroteLruCache) : EventWroteLruCache :=
  { c with key2Index := fun key' => if key' = key then none else c.key2Index key' }

/-- Splice the node of the key to the front. -/
def modify (key : UInt64) (c : EventWroteLruCache) : EventWroteLruCache :=
  match c.key2Index key with
  | none => c
  | some node =>
    match c.keyCache.find? (·.1 = node.iter) with
    | none => c
    | some n =>
      { c with keyCache := n :: c.keyCache.filter (·.1 ≠ node.iter) }.setIndex key
        { node with iter := n.1 }

/-- `Get`: a key that is found moves to the front. -/
def get (key : UInt64) (c : EventWroteLruCache) : EventWroteRecord × EventWroteLruCache :=
  match c.key2Index key with
  | none => ({}, c)
  | some node => (node.record, c.modify key)

/-- The oldest key leaves. -/
def popBack (c : EventWroteLruCache) : EventWroteLruCache :=
  match c.keyCache.getLast? with
  | none => c
  | some n => { c.eraseIndex n.2 with keyCache := c.keyCache.dropLast }

/-- A new node at the front. -/
def pushFront (key : UInt64) (record : EventWroteRecord) (c : EventWroteLruCache) :
    EventWroteLruCache :=
  { c with keyCache := (c.nextNode, key) :: c.keyCache, nextNode := c.nextNode + 1 }.setIndex key
    ⟨c.nextNode, record⟩

/-- `Put`: the key goes to the front, and the last one leaves a full cache. -/
def put (key : UInt64) (record : EventWroteRecord) (c : EventWroteLruCache) :
    EventWroteLruCache :=
  if c.capacity = 0 then c
  else
    match c.key2Index key with
    | some node => (c.setIndex key { node with record := record }).modify key
    | none =>
      let c := if c.keyCache.length = c.capacity then c.popBack else c
      c.pushFront key record

end EventWroteLruCache

/-! ## The limiter -/

/-- Whether a call starts a new cycle. -/
def startsCycle (param : ControlParam) (record : EventWroteRecord) (cur : UInt64) : Bool :=
  record.count = 0 || record.timestamp / secToMillis + param.period < cur / secToMillis ||
    record.timestamp / secToMillis > cur / secToMillis

/-- The time stamp of an event that may be written, or `invalidTimeStamp`. -/
def checkLimitWritingEvent (k : CharKind) (param : ControlParam) (eventName : Bytes)
    (callerInfo : CallerInfo) (c : EventWroteLruCache) : UInt64 × EventWroteLruCache :=
  let key := concatenateInfoAsKey k eventName callerInfo.func callerInfo.line
  let (record, c) := c.get key
  let cur := callerInfo.timeStamp
  if startsCycle param record cur then
    (cur, c.put key { count := 1, timestamp := cur })
  else
    let record := { record with count := record.count + 1 }
    if record.count ≤ param.threshold then (cur, c.put key record)
    else (invalidTimeStamp, c.put key record)

/-- The record a call writes back. -/
def nextRecord (param : ControlParam) (record : EventWroteRecord) (cur : UInt64) :
    EventWroteRecord :=
  if startsCycle param record cur then { count := 1, timestamp := cur }
  else { record with count := record.count + 1 }

/-- Whether the call that reads the record may write. -/
def admits (param : ControlParam) (record : EventWroteRecord) (cur : UInt64) : Bool :=
  startsCycle param record cur || record.count + 1 ≤ param.threshold

theorem checkLimitWritingEvent_eq (k : CharKind) (param : ControlParam) (eventName : Bytes)
    (info : CallerInfo) (c : EventWroteLruCache) :
    let key := concatenateInfoAsKey k eventName info.func info.line
    checkLimitWritingEvent k param eventName info c =
      (if admits param (c.get key).1 info.timeStamp then info.timeStamp else invalidTimeStamp,
        (c.get key).2.put key (nextRecord param (c.get key).1 info.timeStamp)) := by
  simp only [checkLimitWritingEvent, admits, nextRecord, Bool.or_eq_true, decide_eq_true_eq]
  split
  case isTrue h => simp [h]
  case isFalse h =>
    split
    case isTrue h' => simp [h']
    case isFalse h' => simp [h, h']

/-! ## The entries of a cache -/

namespace EventWroteLruCache

/-- The cache holds these entries, the most recently used first. -/
structure Shows (c : EventWroteLruCache) (l : List (UInt64 × EventWroteCacheNode)) : Prop where
  keyCache : c.keyCache = l.map fun e => (e.2.iter, e.1)
  key2Index : ∀ key, c.key2Index key = l.lookup key
  nodup : (Lru.keys l).Nodup
  iters : (l.map fun e => e.2.iter).Nodup
  fresh : ∀ e ∈ l, e.2.iter < c.nextNode

theorem shows_new (capacity : ℕ) : Shows (new capacity) [] :=
  ⟨rfl, fun _ => rfl, List.nodup_nil, List.nodup_nil, fun _ h => absurd h (by simp)⟩

variable {c : EventWroteLruCache} {l : List (UInt64 × EventWroteCacheNode)}

theorem mem_of_lookup {key : UInt64} {node : EventWroteCacheNode}
    (h : l.lookup key = some node) : (key, node) ∈ l := by
  obtain ⟨l₁, l₂, rfl, -⟩ := List.lookup_eq_some_iff.1 h
  simp

/-- Entries with one iterator have one key. -/
theorem Shows.iter_eq_iff (h : Shows c l) {e e' : UInt64 × EventWroteCacheNode} (he : e ∈ l)
    (he' : e' ∈ l) : e.2.iter = e'.2.iter ↔ e.1 = e'.1 := by
  constructor
  · intro heq
    rw [List.inj_on_of_nodup_map h.iters he he' heq]
  · intro heq
    rw [List.inj_on_of_nodup_map h.nodup he he' heq]

/-- The iterator of an entry leads to the node of its key. -/
theorem Shows.find_iter (h : Shows c l) {key : UInt64} {node : EventWroteCacheNode}
    (hnode : (key, node) ∈ l) :
    c.keyCache.find? (·.1 = node.iter) = some (node.iter, key) := by
  rw [h.keyCache]
  cases hf : (l.map fun e => (e.2.iter, e.1)).find? (·.1 = node.iter) with
  | none =>
    rw [List.find?_eq_none] at hf
    have := hf (node.iter, key) (List.mem_map.2 ⟨_, hnode, rfl⟩)
    simp at this
  | some n =>
    obtain ⟨e, he, rfl⟩ := List.mem_map.1 (List.mem_of_find?_eq_some hf)
    have hiter : e.2.iter = node.iter := by simpa using List.find?_some hf
    rw [hiter, (h.iter_eq_iff he hnode).1 hiter]

/-- A key that moves to the front may get a new record. -/
theorem Shows.modify (h : Shows c l) {key : UInt64} {node : EventWroteCacheNode}
    (hnode : l.lookup key = some node) (record : EventWroteRecord) :
    Shows ((c.setIndex key { node with record := record }).modify key)
      (Lru.touch key { node with record := record } l) := by
  have hmem := mem_of_lookup hnode
  have hfilter : c.keyCache.filter (·.1 ≠ node.iter) =
      (l.filter (·.1 ≠ key)).map fun e => (e.2.iter, e.1) := by
    rw [h.keyCache, List.filter_map]
    congr 1
    exact List.filter_congr fun e he => by
      simpa using h.iter_eq_iff he hmem
  have hmodify : (c.setIndex key { node with record := record }).modify key =
      { c with keyCache := (node.iter, key) :: c.keyCache.filter (·.1 ≠ node.iter) }.setIndex key
        { node with record := record } := by
    simp only [EventWroteLruCache.modify, setIndex, if_true, h.find_iter hmem]
    congr 1
    funext key'
    split <;> rfl
  rw [hmodify]
  refine ⟨?_, fun key' => ?_, Lru.nodup_touch h.nodup, ?_, ?_⟩
  · rw [Lru.touch, List.map_cons, ← hfilter]
    rfl
  · by_cases hk : key' = key
    · rw [hk, Lru.lookup_touch_self]
      simp [setIndex]
    · rw [Lru.lookup_touch_of_ne hk, ← h.key2Index]
      simp [setIndex, hk]
  · rw [Lru.touch, List.map_cons, List.nodup_cons]
    refine ⟨?_, h.iters.sublist (List.filter_sublist.map _)⟩
    rw [List.mem_map]
    rintro ⟨e, he, heq⟩
    have hne : e.1 ≠ key := by simpa using (List.mem_filter.1 he).2
    exact hne ((h.iter_eq_iff (List.mem_filter.1 he).1 hmem).1 heq)
  · intro e he
    rcases List.mem_cons.1 he with rfl | he
    · exact h.fresh (key, node) hmem
    · exact h.fresh e (List.mem_filter.1 he).1

/-- `Get` reads the record and moves the key to the front. -/
theorem get_spec (h : Shows c l) (key : UInt64) :
    Shows (c.get key).2 (Lru.get key l).2 ∧
      (c.get key).1 = ((l.lookup key).map fun node => node.record).getD {} := by
  unfold get Lru.get
  rw [h.key2Index]
  cases hnode : l.lookup key with
  | none => exact ⟨h, rfl⟩
  | some node =>
    refine ⟨?_, rfl⟩
    have hset : c.setIndex key node = c := by
      have : (fun key' => if key' = key then some node else c.key2Index key') = c.key2Index := by
        funext key'
        split
        case isTrue hk => rw [hk, h.key2Index, hnode]
        case isFalse => rfl
      rw [setIndex, this]
    have := h.modify hnode node.record
    rwa [hset] at this

theorem Shows.popBack (h : Shows c l) : Shows c.popBack l.dropLast := by
  rcases List.eq_nil_or_concat l with rfl | ⟨l', e, rfl⟩
  · simpa [EventWroteLruCache.popBack, h.keyCache] using h
  · rw [List.concat_eq_append] at *
    have hpop : c.popBack =
        { c.eraseIndex e.1 with keyCache := c.keyCache.dropLast } := by
      simp [EventWroteLruCache.popBack, h.keyCache]
    have hnodup := h.nodup
    have hiters := h.iters
    rw [Lru.keys, List.map_append, List.nodup_append] at hnodup
    rw [List.map_append, List.nodup_append] at hiters
    rw [hpop, List.dropLast_concat]
    refine ⟨?_, fun key => ?_, hnodup.1, hiters.1, fun e' he' => h.fresh e' (by simp [he'])⟩
    · simp [h.keyCache]
    · by_cases hk : key = e.1
      · have : e.1 ∉ Lru.keys l' := fun hmem => hnodup.2.2 _ hmem e.1 (by simp) rfl
        rw [hk, Lru.lookup_eq_none.2 this]
        simp [eraseIndex]
      · simp only [eraseIndex, if_neg hk, h.key2Index, List.lookup_append]
        have : (key == e.1) = false := by simpa using hk
        rw [List.lookup_cons, this]
        simp

theorem Shows.pushFront (h : Shows c l) {key : UInt64} (hkey : key ∉ Lru.keys l)
    (record : EventWroteRecord) :
    Shows (c.pushFront key record) ((key, ⟨c.nextNode, record⟩) :: l) := by
  refine ⟨?_, fun key' => ?_, ?_, ?_, fun e he => ?_⟩
  · rw [List.map_cons, ← h.keyCache]
    rfl
  · by_cases hk : key' = key
    · simp [EventWroteLruCache.pushFront, setIndex, hk]
    · have : (key' == key) = false := by simpa using hk
      simp [EventWroteLruCache.pushFront, setIndex, hk, h.key2Index, List.lookup_cons, this]
  · exact List.nodup_cons.2 ⟨hkey, h.nodup⟩
  · rw [List.map_cons, List.nodup_cons]
    refine ⟨fun hmem => ?_, h.iters⟩
    obtain ⟨e, he, heq⟩ := List.mem_map.1 hmem
    exact absurd (h.fresh e he) (by rw [heq]; exact Nat.lt_irrefl _)
  · change e.2.iter < c.nextNode + 1
    rcases List.mem_cons.1 he with rfl | he
    · exact Nat.lt_succ_self _
    · exact Nat.lt_succ_of_lt (h.fresh e he)

theorem capacity_modify (key : UInt64) (c : EventWroteLruCache) :
    (c.modify key).capacity = c.capacity := by
  unfold EventWroteLruCache.modify
  split
  · rfl
  · split <;> rfl

theorem capacity_get (key : UInt64) (c : EventWroteLruCache) :
    (c.get key).2.capacity = c.capacity := by
  unfold get
  split
  · rfl
  · exact capacity_modify key c

theorem capacity_popBack (c : EventWroteLruCache) : c.popBack.capacity = c.capacity := by
  unfold EventWroteLruCache.popBack
  split <;> rfl

theorem capacity_put (key : UInt64) (record : EventWroteRecord) (c : EventWroteLruCache) :
    (c.put key record).capacity = c.capacity := by
  unfold put
  split
  · rfl
  · split
    · exact capacity_modify _ _
    · dsimp only
      split
      · exact capacity_popBack c
      · rfl

/-- `Put` writes the record, in a node of the list. -/
theorem put_spec (h : Shows c l) (hcap : 0 < c.capacity) (key : UInt64)
    (record : EventWroteRecord) :
    ∃ iter, Shows (c.put key record) (Lru.put c.capacity key ⟨iter, record⟩ l) := by
  unfold put
  rw [if_neg (by omega), h.key2Index]
  cases hnode : l.lookup key with
  | some node =>
    refine ⟨node.iter, ?_⟩
    have hmem : key ∈ Lru.keys l := List.mem_map_of_mem (mem_of_lookup hnode)
    rw [Lru.put, if_pos hmem]
    exact h.modify hnode record
  | none =>
    have hkey := Lru.lookup_eq_none.1 hnode
    have hlen : c.keyCache.length = l.length := by rw [h.keyCache, List.length_map]
    simp only [Lru.put, if_neg hkey, hlen]
    split
    case isTrue =>
      have hdrop : key ∉ Lru.keys l.dropLast := fun hmem =>
        hkey ((List.dropLast_sublist l).map _ |>.subset hmem)
      exact ⟨_, h.popBack.pushFront hdrop record⟩
    case isFalse => exact ⟨_, h.pushFront hkey record⟩

/-- A read and a write of one key together are a write of its record. -/
theorem put_get_spec (h : Shows c l) (hcap : 0 < c.capacity) (key : UInt64)
    (record : EventWroteRecord) :
    ∃ l', Shows ((c.get key).2.put key record) l' ∧
      Lru.mapValues EventWroteCacheNode.record l' =
        Lru.put c.capacity key record (Lru.mapValues EventWroteCacheNode.record l) := by
  obtain ⟨iter, hput⟩ := put_spec (get_spec h key).1 (by rwa [capacity_get]) key record
  rw [capacity_get, Lru.put_get] at hput
  exact ⟨_, hput, Lru.mapValues_put _ _ _ _ _⟩

end EventWroteLruCache

end HiSysEvent
