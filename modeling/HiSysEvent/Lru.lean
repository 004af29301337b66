import Mathlib.Data.List.Nodup
import Mathlib.Data.List.Perm.Basic

/-!
# Least recently used caches

A cache of bounded capacity is a list of keys with values, most recently used first. A
key that is put moves to the front, and a key put into a full cache drops the last one.

Without the bound the list grows to all keys ever put, in the order of their last use. A
bounded cache is a prefix of it (`put_take`), so a key is still in the cache if and only
if fewer than `cap` other keys are ahead of it (`lookup_take`), which are the distinct
keys put since (`ahead_touch`).
-/

set_option linter.unusedSectionVars false

namespace Lru

variable {κ ν μ : Type*} [DecidableEq κ]

/-- The keys, most recently used first. -/
def keys (l : List (κ × ν)) : List κ :=
  l.map Prod.fst

/-- The key moves to the front, with a new value. -/
def touch (k : κ) (v : ν) (l : List (κ × ν)) : List (κ × ν) :=
  (k, v) :: l.filter (·.1 ≠ k)

/-- Read a value. The key moves to the front. -/
def get (k : κ) (l : List (κ × ν)) : Option ν × List (κ × ν) :=
  match l.lookup k with
  | none => (none, l)
  | some v => (some v, touch k v l)

/-- Write a value. A new key in a full cache drops the last key. -/
def put (cap : ℕ) (k : κ) (v : ν) (l : List (κ × ν)) : List (κ × ν) :=
  if k ∈ keys l then touch k v l
  else (k, v) :: if l.length = cap then l.dropLast else l

/-- The entries ahead of a key. -/
def ahead (k : κ) (l : List (κ × ν)) : List (κ × ν) :=
  l.takeWhile (·.1 ≠ k)

/-! ## Keys and values -/

@[simp] theorem keys_nil : keys ([] : List (κ × ν)) = [] :=
  rfl

@[simp] theorem keys_cons (e : κ × ν) (l : List (κ × ν)) : keys (e :: l) = e.1 :: keys l :=
  rfl

theorem lookup_eq_none {k : κ} : ∀ {l : List (κ × ν)}, l.lookup k = none ↔ k ∉ keys l
  | [] => by simp
  | (k', v) :: l => by
    have ih := lookup_eq_none (k := k) (l := l)
    rw [List.lookup_cons, keys_cons, List.mem_cons, not_or, ← ih]
    by_cases h : k = k'
    · simp [h]
    · have hne : (k == k') = false := by simpa using h
      simp [hne, h]

theorem lookup_touch_self (k : κ) (v : ν) (l : List (κ × ν)) :
    (touch k v l).lookup k = some v := by
  simp [touch]

theorem lookup_filter {k k' : κ} (h : k ≠ k') :
    ∀ l : List (κ × ν), (l.filter (·.1 ≠ k')).lookup k = l.lookup k
  | [] => rfl
  | (k₁, v) :: l => by
    have ih := lookup_filter h l
    by_cases h1 : k₁ = k'
    · have : (k == k₁) = false := by simp [h1, h]
      rw [List.filter_cons_of_neg (by simp [h1]), ih, List.lookup_cons, this]
    · rw [List.filter_cons_of_pos (by simp [h1]), List.lookup_cons, List.lookup_cons, ih]

theorem lookup_touch_of_ne {k k' : κ} (h : k ≠ k') (v : ν) (l : List (κ × ν)) :
    (touch k' v l).lookup k = l.lookup k := by
  have : (k == k') = false := by simp [h]
  rw [touch, List.lookup_cons, this]
  exact lookup_filter h l

theorem keys_filter (k : κ) :
    ∀ l : List (κ × ν), keys (l.filter (·.1 ≠ k)) = (keys l).filter (· ≠ k) :=
  fun l => by simp [keys, List.filter_map, Function.comp_def]

theorem keys_touch (k : κ) (v : ν) (l : List (κ × ν)) :
    keys (touch k v l) = k :: (keys l).filter (· ≠ k) := by
  rw [touch, keys_cons, keys_filter]

theorem nodup_touch {k : κ} {v : ν} {l : List (κ × ν)} (h : (keys l).Nodup) :
    (keys (touch k v l)).Nodup := by
  rw [keys_touch, List.nodup_cons]
  exact ⟨by simp, h.filter _⟩

theorem touch_touch (k : κ) (v w : ν) (l : List (κ × ν)) :
    touch k v (touch k w l) = touch k v l := by
  simp [touch]

/-- A write does not notice that its key was read before. -/
theorem put_get (cap : ℕ) (k : κ) (v : ν) (l : List (κ × ν)) :
    put cap k v (get k l).2 = put cap k v l := by
  unfold get
  cases h : l.lookup k with
  | none => rfl
  | some w =>
    have hk : k ∈ keys l := by
      by_contra hk
      rw [lookup_eq_none.2 hk] at h
      cases h
    simp only [put, if_pos hk, touch_touch, keys_touch, List.mem_cons, true_or, if_true]

theorem lookup_get (k : κ) (l : List (κ × ν)) : (get k l).2.lookup k = l.lookup k := by
  unfold get
  cases h : l.lookup k with
  | none => exact h
  | some v => exact lookup_touch_self k v l

theorem lookup_put (cap : ℕ) (k : κ) (v : ν) (l : List (κ × ν)) :
    (put cap k v l).lookup k = some v := by
  unfold put
  split
  · exact lookup_touch_self k v l
  · simp

/-! ## Changing the values -/

/-- The entries with other values. -/
def mapValues (f : ν → μ) (l : List (κ × ν)) : List (κ × μ) :=
  l.map fun e => (e.1, f e.2)

@[simp] theorem keys_mapValues (f : ν → μ) (l : List (κ × ν)) : keys (mapValues f l) = keys l := by
  simp [keys, mapValues, Function.comp_def]

theorem lookup_mapValues (f : ν → μ) (k : κ) :
    ∀ l : List (κ × ν), (mapValues f l).lookup k = (l.lookup k).map f
  | [] => rfl
  | (k', v) :: l => by
    have ih := lookup_mapValues f k l
    rw [mapValues, List.map_cons, List.lookup_cons, List.lookup_cons]
    cases k == k'
    · exact ih
    · rfl

theorem mapValues_touch (f : ν → μ) (k : κ) (v : ν) (l : List (κ × ν)) :
    mapValues f (touch k v l) = touch k (f v) (mapValues f l) := by
  simp [mapValues, touch, List.filter_map, Function.comp_def]

theorem mapValues_put (f : ν → μ) (cap : ℕ) (k : κ) (v : ν) (l : List (κ × ν)) :
    mapValues f (put cap k v l) = put cap k (f v) (mapValues f l) := by
  unfold put
  rw [keys_mapValues, apply_ite (mapValues f), mapValues_touch]
  congr 1
  simp only [mapValues, List.map_cons, List.length_map, apply_ite (List.map _), List.map_dropLast]

/-! ## The bound -/

theorem take_filter_of_mem {k : κ} : ∀ {u : List (κ × ν)} {n : ℕ}, (keys u).Nodup →
    k ∈ keys (u.take (n + 1)) →
      (u.filter (·.1 ≠ k)).take n = (u.take (n + 1)).filter (·.1 ≠ k)
  | [], _, _, h => by simp at h
  | e :: u, n, hu, h => by
    rw [keys_cons, List.nodup_cons] at hu
    rw [List.take_succ_cons, keys_cons, List.mem_cons] at h
    by_cases he : e.1 = k
    · have hfilter : u.filter (·.1 ≠ k) = u := by
        rw [List.filter_eq_self]
        intro e' he'
        simpa using fun heq : e'.1 = k => hu.1 (by
          rw [he, ← heq]
          exact List.mem_map_of_mem he')
      have hkeep : (u.take n).filter (·.1 ≠ k) = u.take n := by
        rw [List.filter_eq_self]
        intro e' he'
        exact List.filter_eq_self.1 hfilter e' (List.mem_of_mem_take he')
      rw [List.filter_cons_of_neg (by simp [he]), List.take_succ_cons,
        List.filter_cons_of_neg (by simp [he]), hfilter, hkeep]
    · obtain ⟨m, rfl⟩ : ∃ m, n = m + 1 := by
        rcases n with _ | m
        · simp [Ne.symm he] at h
        · exact ⟨m, rfl⟩
      rw [List.filter_cons_of_pos (by simp [he]), List.take_succ_cons, List.take_succ_cons,
        List.filter_cons_of_pos (by simp [he]),
        take_filter_of_mem hu.2 (h.resolve_left (Ne.symm he))]

theorem take_filter_of_not_mem {k : κ} : ∀ {u : List (κ × ν)} {n : ℕ},
    k ∉ keys (u.take (n + 1)) → (u.filter (·.1 ≠ k)).take n = u.take n
  | [], _, _ => by simp
  | _ :: _, 0, _ => by simp
  | e :: u, n + 1, h => by
    rw [List.take_succ_cons, keys_cons, List.mem_cons, not_or] at h
    rw [List.filter_cons_of_pos (by simp [Ne.symm h.1]), List.take_succ_cons, List.take_succ_cons,
      take_filter_of_not_mem h.2]

/-- A bounded cache is a prefix of the unbounded one. -/
theorem put_take {cap : ℕ} (hcap : 0 < cap) (k : κ) (v : ν) {u : List (κ × ν)}
    (hu : (keys u).Nodup) : put cap k v (u.take cap) = (touch k v u).take cap := by
  obtain ⟨n, rfl⟩ : ∃ n, cap = n + 1 := ⟨cap - 1, by omega⟩
  unfold put
  split
  case isTrue h => rw [touch, touch, List.take_succ_cons, take_filter_of_mem hu h]
  case isFalse h =>
    rw [touch, List.take_succ_cons, take_filter_of_not_mem h]
    congr 1
    split
    case isTrue hlen =>
      rw [List.length_take] at hlen
      rw [List.dropLast_eq_take, List.length_take, List.take_take]
      congr 1
      omega
    case isFalse hlen =>
      rw [List.length_take] at hlen
      rw [List.take_of_length_le (by omega), List.take_of_length_le (by omega)]

/-- A key is in the cache as long as fewer than `cap` keys are ahead of it. -/
theorem lookup_take (k : κ) : ∀ (u : List (κ × ν)) (cap : ℕ),
    (u.take cap).lookup k = if (ahead k u).length < cap then u.lookup k else none
  | [], cap => by simp
  | e :: u, 0 => by simp
  | (k', v) :: u, cap + 1 => by
    by_cases h : k' = k
    · simp [ahead, h]
    · have hne : (k == k') = false := by simpa using Ne.symm h
      have ih := lookup_take k u cap
      rw [List.take_succ_cons, List.lookup_cons, hne, List.lookup_cons, hne]
      have hlen : (ahead k ((k', v) :: u)).length = (ahead k u).length + 1 := by
        simp [ahead, h]
      simp only [hlen, Nat.add_lt_add_iff_right]
      exact ih

theorem ahead_touch_self (k : κ) (v : ν) (u : List (κ × ν)) : ahead k (touch k v u) = [] := by
  simp [ahead, touch]

theorem ahead_filter {k k' : κ} (h : k' ≠ k) : ∀ u : List (κ × ν),
    ahead k (u.filter (·.1 ≠ k')) = (ahead k u).filter (·.1 ≠ k')
  | [] => rfl
  | e :: u => by
    have ih := ahead_filter h u
    unfold ahead at ih ⊢
    by_cases h1 : e.1 = k'
    · rw [List.filter_cons_of_neg (by simp [h1]), ih,
        List.takeWhile_cons_of_pos (by simp [h1, h]), List.filter_cons_of_neg (by simp [h1])]
    · rw [List.filter_cons_of_pos (by simp [h1])]
      by_cases h2 : e.1 = k
      · rw [List.takeWhile_cons_of_neg (by simp [h2]), List.takeWhile_cons_of_neg (by simp [h2])]
        rfl
      · rw [List.takeWhile_cons_of_pos (by simp [h2]), List.takeWhile_cons_of_pos (by simp [h2]),
          List.filter_cons_of_pos (by simp [h1]), ih]

/-- The keys ahead of `k` are those put since, each once. -/
theorem ahead_touch {k k' : κ} (h : k' ≠ k) (v : ν) {u : List (κ × ν)} {since : List κ}
    (hu : (keys u).Nodup) (hsince : (keys (ahead k u)).Perm since) :
    (keys (ahead k (touch k' v u))).Perm (since.insert k') := by
  have hnodup : (keys (ahead k u)).Nodup :=
    hu.sublist ((List.takeWhile_sublist _).map _)
  have hahead : ahead k (touch k' v u) = touch k' v (ahead k u) := by
    have := ahead_filter h u
    unfold ahead touch at *
    rw [List.takeWhile_cons_of_pos (by simp [h]), this]
  rw [hahead, List.perm_ext_iff_of_nodup (nodup_touch hnodup)
    ((hsince.nodup_iff.1 hnodup).insert)]
  intro x
  rw [keys_touch, List.mem_insert_iff, List.mem_cons, List.mem_filter, ← hsince.mem_iff]
  by_cases hx : x = k' <;> simp [hx]

/-! ## A cache with room -/

theorem lookup_get_of_ne {k k' : κ} (h : k' ≠ k) (l : List (κ × ν)) :
    (get k l).2.lookup k' = l.lookup k' := by
  unfold get
  cases l.lookup k with
  | none => rfl
  | some v => exact lookup_touch_of_ne h v l

theorem mem_keys_get {k k' : κ} {l : List (κ × ν)} (h : k' ∈ keys (get k l).2) : k' ∈ keys l := by
  by_contra hnot
  by_cases hk : k' = k
  · rw [hk] at h hnot
    exact lookup_eq_none.1 ((lookup_get k l).trans (lookup_eq_none.2 hnot)) h
  · exact lookup_eq_none.1 ((lookup_get_of_ne hk l).trans (lookup_eq_none.2 hnot)) h

/-- With fewer keys than entries that fit, a write drops nothing. -/
theorem lookup_put_of_ne {cap : ℕ} {k k' : κ} (h : k' ≠ k) (v : ν) {l : List (κ × ν)}
    (hroom : k ∉ keys l → l.length ≠ cap) : (put cap k v l).lookup k' = l.lookup k' := by
  unfold put
  split_ifs with hk hlen
  · exact lookup_touch_of_ne h v l
  · exact absurd hlen (hroom hk)
  · have hne : (k' == k) = false := by simpa using h
    rw [List.lookup_cons, hne]

theorem mem_keys_put {cap : ℕ} {k k' : κ} {v : ν} {l : List (κ × ν)}
    (h : k' ∈ keys (put cap k v l)) : k' = k ∨ k' ∈ keys l := by
  unfold put at h
  split_ifs at h with hk hlen
  · rw [keys_touch, List.mem_cons] at h
    exact h.imp id fun hmem => (List.mem_filter.1 hmem).1
  · rw [keys_cons, List.mem_cons] at h
    exact h.imp id fun hmem => ((List.dropLast_sublist l).map Prod.fst).subset hmem
  · exact List.mem_cons.1 h

end Lru
