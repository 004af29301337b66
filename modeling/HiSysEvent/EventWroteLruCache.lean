import HiSysEvent.LruHistory
import HiSysEvent.WriteController

/-!
# The cache of the write controller over its history

`EventWroteLruCache` of any capacity, after any calls of `Get` and `Put`. Its map of
iterators and its list stay consistent (`Consistent`), the records in the order of the
list are the entries of `Lru.step` after the same operations, and a key stays as long as
fewer keys than the capacity were used since (`lruAfter_exec`).
-/

set_option linter.unusedSectionVars false

namespace HiSysEvent

namespace EventWroteLruCache

/-- The keys of the list, most recently used first. -/
def heldKeys (c : EventWroteLruCache) : List UInt64 :=
  c.keyCache.map Prod.snd

/-- The records in the order of the list. -/
def entries (c : EventWroteLruCache) : List (UInt64 × EventWroteRecord) :=
  c.keyCache.filterMap fun n => (c.key2Index n.2).map fun node => (n.2, node.record)

/-- A call of `Get` or `Put`. -/
def step (c : EventWroteLruCache) : Lru.Op UInt64 EventWroteRecord → EventWroteLruCache
  | .get key => (c.get key).2
  | .put key record => c.put key record

/-- The map and the list fit together. -/
structure Consistent (c : EventWroteLruCache) : Prop where
  nodup : c.heldKeys.Nodup
  keys : ∀ key, key ∈ c.heldKeys ↔ (c.key2Index key).isSome
  designates : ∀ key node, c.key2Index key = some node →
    c.keyCache.filter (·.1 = node.iter) = [(node.iter, key)]
  size : c.keyCache.length ≤ c.capacity

/-- What a cache of the capacity is after the operations. -/
structure LruAfter (cap : ℕ) (ops : List (Lru.Op UInt64 EventWroteRecord))
    (c : EventWroteLruCache) : Prop where
  capacity : c.capacity = cap
  consistent : c.Consistent
  entries : c.entries = Run.exec (Lru.step cap) [] ops
  get_held : ∀ key ∈ c.heldKeys, Lru.lastPut key none ops = some (c.get key).1
  get_missing : ∀ key, key ∉ c.heldKeys → c.get key = ({ count := 0 }, c)
  get_entries : ∀ key, (c.get key).2.entries = (Lru.get key c.entries).2
  put_entries : ∀ key record,
    (c.put key record).entries = Lru.store cap key record c.entries
  /-- Exactly how long a key stays after its last use. -/
  held_iff : ∀ pre op post, ops = pre ++ op :: post →
    Lru.Uses (Run.exec step (new cap) pre).entries op → (∀ op' ∈ post, op'.key ≠ op.key) →
      (op.key ∈ c.heldKeys ↔
        (Lru.used cap (Run.exec step (new cap) (pre ++ [op])).entries post).toFinset.card
          < cap)
  /-- A key stays through calls about fewer other keys, whatever they do. -/
  held : ∀ pre op post, ops = pre ++ op :: post →
    Lru.Uses (Run.exec step (new cap) pre).entries op →
      ((post.map Lru.Op.key).toFinset.erase op.key).card < cap → op.key ∈ c.heldKeys

variable {c : EventWroteLruCache} {l : List (UInt64 × EventWroteCacheNode)}

theorem Shows.heldKeys (h : Shows c l) : c.heldKeys = Lru.keys l := by
  rw [EventWroteLruCache.heldKeys, h.keyCache, List.map_map]
  rfl

theorem Shows.entries (h : Shows c l) :
    c.entries = Lru.mapValues EventWroteCacheNode.record l := by
  have hfind : ∀ e ∈ l, c.key2Index e.1 = some e.2 := by
    intro e he
    rw [h.key2Index]
    obtain ⟨node, hnode⟩ := Lru.lookup_of_mem_keys (List.mem_map_of_mem he)
    have := List.inj_on_of_nodup_map h.nodup (mem_of_lookup hnode) he rfl
    rw [hnode, ← this]
  rw [EventWroteLruCache.entries, h.keyCache, List.filterMap_map, Lru.mapValues,
    ← List.filterMap_eq_map]
  refine List.filterMap_congr fun e he => ?_
  simp only [Function.comp_apply, hfind e he, Option.map_some]

theorem Shows.consistent (h : Shows c l) (hlen : l.length ≤ c.capacity) : Consistent c where
  nodup := by
    rw [h.heldKeys]
    exact h.nodup
  keys key := by
    rw [h.heldKeys, h.key2Index, Option.isSome_iff_ne_none, ne_eq, Lru.lookup_eq_none, not_not]
  designates key node hnode := by
    rw [h.key2Index] at hnode
    have hmem := mem_of_lookup hnode
    have hnodup : c.keyCache.Nodup := by
      rw [h.keyCache]
      exact List.Nodup.of_map Prod.fst (by simpa [Function.comp_def] using h.iters)
    rw [← List.perm_singleton, List.perm_ext_iff_of_nodup (hnodup.filter _) (List.nodup_singleton _)]
    intro n
    rw [List.mem_filter, List.mem_singleton, h.keyCache, List.mem_map, decide_eq_true_eq]
    constructor
    · rintro ⟨⟨e, he, rfl⟩, hiter⟩
      exact Prod.ext hiter ((h.iter_eq_iff he hmem).1 hiter)
    · rintro rfl
      exact ⟨⟨(key, node), hmem, rfl⟩, rfl⟩
  size := by rwa [h.keyCache, List.length_map]

/-- One call does to the entries what the operation does. -/
theorem Shows.step (h : Shows c l) (hlen : l.length ≤ c.capacity)
    (op : Lru.Op UInt64 EventWroteRecord) :
    ∃ l', Shows (c.step op) l' ∧ Lru.mapValues EventWroteCacheNode.record l' =
      Lru.step c.capacity (Lru.mapValues EventWroteCacheNode.record l) op := by
  cases op with
  | get key => exact ⟨_, (get_spec h key).1, Lru.mapValues_get _ _ _⟩
  | put key record =>
    rcases Nat.eq_zero_or_pos c.capacity with hcap | hcap
    · have hnil : l = [] := List.length_eq_zero_iff.1 (by omega)
      have hput : c.put key record = c := by rw [put, if_pos hcap]
      refine ⟨[], ?_, ?_⟩
      · rw [EventWroteLruCache.step, hput]
        rwa [hnil] at h
      · rw [Lru.step, hcap, hnil]
        rfl
    · obtain ⟨iter, hput⟩ := put_spec h hcap key record
      refine ⟨_, hput, ?_⟩
      rw [Lru.mapValues_put, Lru.step, Lru.store_eq_put hcap]

theorem capacity_step (c : EventWroteLruCache) (op : Lru.Op UInt64 EventWroteRecord) :
    (c.step op).capacity = c.capacity := by
  cases op with
  | get key => exact capacity_get key c
  | put key record => exact capacity_put key record c

/-- The cache after the operations, with the nodes of its list. -/
theorem shows_exec (capacity : ℕ) (ops : List (Lru.Op UInt64 EventWroteRecord)) :
    ∃ l, Shows (Run.exec step (new capacity) ops) l ∧
      (Run.exec step (new capacity) ops).capacity = capacity ∧
      Lru.mapValues EventWroteCacheNode.record l = Run.exec (Lru.step capacity) [] ops := by
  induction ops using List.reverseRecOn with
  | nil => exact ⟨[], shows_new capacity, rfl, rfl⟩
  | append_singleton ops op ih =>
    obtain ⟨l, hshows, hcap, hl⟩ := ih
    have hlen : l.length ≤ capacity := by
      have := Lru.length_exec_le capacity ops
      rwa [← hl, Lru.mapValues, List.length_map] at this
    obtain ⟨l', hshows', hl'⟩ := hshows.step (by rwa [hcap]) op
    refine ⟨l', ?_, ?_, ?_⟩
    · rwa [Run.exec_append]
    · rw [Run.exec_append, Run.exec, Run.exec, capacity_step, hcap]
    · rw [hl', hcap, hl, Run.exec_append]
      rfl

/-- The entries of a run are those of the operations. -/
theorem entries_exec (capacity : ℕ) (ops : List (Lru.Op UInt64 EventWroteRecord)) :
    (Run.exec step (new capacity) ops).entries = Run.exec (Lru.step capacity) [] ops := by
  obtain ⟨l, hshows, -, hl⟩ := shows_exec capacity ops
  rw [hshows.entries, hl]

theorem heldKeys_exec (capacity : ℕ) (ops : List (Lru.Op UInt64 EventWroteRecord)) :
    (Run.exec step (new capacity) ops).heldKeys =
      Lru.keys (Run.exec (Lru.step capacity) [] ops) := by
  obtain ⟨l, hshows, -, hl⟩ := shows_exec capacity ops
  rw [hshows.heldKeys, ← hl, Lru.keys_mapValues]

/-- The cache is a least recently used cache, whatever its capacity and the calls. -/
theorem lruAfter_exec (capacity : ℕ) (ops : List (Lru.Op UInt64 EventWroteRecord)) :
    LruAfter capacity ops (Run.exec step (new capacity) ops) := by
  obtain ⟨l, hshows, hcap, hl⟩ := shows_exec capacity ops
  have hlen : l.length ≤ capacity := by
    have := Lru.length_exec_le capacity ops
    rwa [← hl, Lru.mapValues, List.length_map] at this
  refine ⟨hcap, hshows.consistent (by rwa [hcap]), entries_exec capacity ops, ?_, ?_, ?_, ?_, ?_,
    ?_⟩
  · intro key hkey
    rw [hshows.heldKeys] at hkey
    obtain ⟨node, hnode⟩ := Lru.lookup_of_mem_keys hkey
    have hexec : (Run.exec (Lru.step capacity) [] ops).lookup key = some node.record := by
      rw [← hl, Lru.lookup_mapValues, hnode]
      rfl
    have hput : Lru.lastPut key none ops = some node.record :=
      Lru.lookup_exec ops (fun w hw => by cases hw) hexec
    rw [hput, (get_spec hshows key).2, hnode]
    rfl
  · intro key hkey
    rw [hshows.heldKeys, ← Lru.lookup_eq_none, ← hshows.key2Index] at hkey
    rw [get, hkey]
  · intro key
    rw [(get_spec hshows key).1.entries, Lru.mapValues_get, hshows.entries]
  · intro key record
    obtain ⟨l', hshows', hl'⟩ := hshows.step (by rwa [hcap]) (.put key record)
    rw [hcap, ← hshows.entries] at hl'
    exact hshows'.entries.trans hl'
  · rintro pre op post rfl huse hpost
    rw [entries_exec] at huse ⊢
    rw [heldKeys_exec]
    exact Lru.mem_keys_exec_iff pre rfl huse hpost
  · rintro pre op post rfl huse hpost
    rw [entries_exec] at huse
    rw [heldKeys_exec]
    exact Lru.mem_keys_exec pre rfl huse hpost

end EventWroteLruCache

end HiSysEvent
