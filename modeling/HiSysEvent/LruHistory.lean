import Mathlib.Data.Finset.Card
import HiSysEvent.Lru
import HiSysEvent.Run

/-!
# Histories of a least recently used cache

Reads and writes in any order, from the empty cache of any capacity, 0 included : `step`
is one of them, `Run.exec (step cap)` a history. A write puts its entry in front and then
drops the last one of more than `cap` (`store`).

The cache is a prefix of the list without the bound (`exec_take`), in which a key that
was used lies behind the keys used since. So after its last use a key stays as long as
fewer than `cap` other keys were used (`mem_keys_exec_iff`), and the value it has is the
one last put (`lookup_exec`).
-/

set_option linter.unusedSectionVars false

namespace Lru

variable {κ ν μ : Type} [DecidableEq κ]

/-- The operations of the cache. -/
inductive Op (κ ν : Type) where
  | get (k : κ)
  | put (k : κ) (v : ν)

/-- The key an operation is about. -/
def Op.key : Op κ ν → κ
  | .get k => k
  | .put k _ => k

/-- Write a value, and drop the last entry if there is one too many. -/
def store (cap : ℕ) (k : κ) (v : ν) (l : List (κ × ν)) : List (κ × ν) :=
  if k ∈ keys l then touch k v l
  else if l.length = cap then ((k, v) :: l).dropLast
  else (k, v) :: l

/-- An operation on the recency list. -/
def step (cap : ℕ) (l : List (κ × ν)) : Op κ ν → List (κ × ν)
  | .get k => (get k l).2
  | .put k v => store cap k v l

/-- A write uses its key, a read does if the key is there. -/
def Uses (l : List (κ × ν)) : Op κ ν → Prop
  | .get k => k ∈ keys l
  | .put _ _ => True

instance (l : List (κ × ν)) : DecidablePred (Uses l) := fun
  | .get k => inferInstanceAs (Decidable (k ∈ keys l))
  | .put _ _ => inferInstanceAs (Decidable True)

/-- The keys the operations use, one after another. -/
def used (cap : ℕ) : List (κ × ν) → List (Op κ ν) → List κ
  | _, [] => []
  | l, op :: ops =>
    if Uses l op then op.key :: used cap (step cap l op) ops else used cap (step cap l op) ops

/-- The value last put under a key, `o` if there is none. -/
def lastPut (k : κ) : Option ν → List (Op κ ν) → Option ν
  | o, [] => o
  | o, .get _ :: ops => lastPut k o ops
  | o, .put k' v :: ops => lastPut k (if k' = k then some v else o) ops

/-! ## One operation -/

theorem store_eq_put {cap : ℕ} (hcap : 0 < cap) (k : κ) (v : ν) (l : List (κ × ν)) :
    store cap k v l = put cap k v l := by
  unfold store put
  split
  · rfl
  · split
    case isTrue h =>
      have hne : l ≠ [] := by
        rintro rfl
        exact absurd h (Nat.ne_of_lt hcap)
      rw [List.dropLast_cons_of_ne_nil hne]
    case isFalse => rfl

theorem mapValues_get (f : ν → μ) (k : κ) (l : List (κ × ν)) :
    mapValues f (get k l).2 = (get k (mapValues f l)).2 := by
  unfold get
  rw [lookup_mapValues]
  cases l.lookup k with
  | none => rfl
  | some v => exact mapValues_touch f k v l

theorem mem_keys_of_lookup {k : κ} {v : ν} {l : List (κ × ν)} (h : l.lookup k = some v) :
    k ∈ keys l := by
  by_contra hk
  rw [lookup_eq_none.2 hk] at h
  cases h

theorem lookup_of_mem_keys {k : κ} {l : List (κ × ν)} (h : k ∈ keys l) :
    ∃ v, l.lookup k = some v := by
  cases hv : l.lookup k with
  | none => exact absurd h (lookup_eq_none.1 hv)
  | some v => exact ⟨v, rfl⟩

/-- The list without the bound, where a read of a key past the bound misses it. -/
def shadow (cap : ℕ) (u : List (κ × ν)) : Op κ ν → List (κ × ν)
  | .get k =>
    match (u.take cap).lookup k with
    | none => u
    | some v => touch k v u
  | .put k v => touch k v u

theorem nodup_shadow {cap : ℕ} {u : List (κ × ν)} (h : (keys u).Nodup) (op : Op κ ν) :
    (keys (shadow cap u op)).Nodup := by
  cases op with
  | get k =>
    unfold shadow
    dsimp only
    split
    · exact h
    · exact nodup_touch h
  | put k v => exact nodup_touch h

theorem store_take (cap : ℕ) (k : κ) (v : ν) {u : List (κ × ν)} (hu : (keys u).Nodup) :
    store cap k v (u.take cap) = (touch k v u).take cap := by
  rcases Nat.eq_zero_or_pos cap with rfl | hcap
  · rfl
  · rw [store_eq_put hcap, put_take hcap k v hu]

theorem step_take (cap : ℕ) {u : List (κ × ν)} (hu : (keys u).Nodup) (op : Op κ ν) :
    step cap (u.take cap) op = (shadow cap u op).take cap := by
  cases op with
  | get k =>
    unfold step shadow get
    dsimp only
    cases hv : (u.take cap).lookup k with
    | none => rfl
    | some v =>
      have hk := mem_keys_of_lookup hv
      have := store_take cap k v hu
      rwa [store, if_pos hk] at this
  | put k v => exact store_take cap k v hu

/-- A used key moves to the front of the list without the bound. -/
theorem shadow_uses {cap : ℕ} {u : List (κ × ν)} {op : Op κ ν} (h : Uses (u.take cap) op) :
    ∃ v, shadow cap u op = touch op.key v u := by
  cases op with
  | get k =>
    obtain ⟨v, hv⟩ := lookup_of_mem_keys (show k ∈ keys (u.take cap) from h)
    exact ⟨v, by simp only [shadow, hv, Op.key]⟩
  | put k v => exact ⟨v, rfl⟩

theorem shadow_not_uses {cap : ℕ} {u : List (κ × ν)} {op : Op κ ν} (h : ¬Uses (u.take cap) op) :
    shadow cap u op = u := by
  cases op with
  | get k =>
    have hv := lookup_eq_none.2 (show k ∉ keys (u.take cap) from h)
    simp only [shadow, hv]
  | put k v => exact absurd trivial h

/-! ## Histories -/

theorem nodup_exec {cap : ℕ} (ops : List (Op κ ν)) {u : List (κ × ν)} (h : (keys u).Nodup) :
    (keys (Run.exec (shadow cap) u ops)).Nodup :=
  Run.exec_of_invariant (I := fun u => (keys u).Nodup) (fun _ op hu => nodup_shadow hu op) ops h

/-- The cache is a prefix of the list without the bound. -/
theorem exec_take {cap : ℕ} : ∀ (ops : List (Op κ ν)) {u : List (κ × ν)}, (keys u).Nodup →
    Run.exec (step cap) (u.take cap) ops = (Run.exec (shadow cap) u ops).take cap
  | [], _, _ => rfl
  | op :: ops, u, h => by
    rw [Run.exec, Run.exec, step_take cap h]
    exact exec_take ops (nodup_shadow h op)

/-- A cache in a history from the empty one. -/
theorem exec_nil_take (cap : ℕ) (ops : List (Op κ ν)) :
    Run.exec (step cap) [] ops = (Run.exec (shadow cap) [] ops).take cap := by
  calc Run.exec (step cap) [] ops = Run.exec (step cap) (([] : List (κ × ν)).take cap) ops := by
        rw [List.take_nil]
    _ = (Run.exec (shadow cap) [] ops).take cap := exec_take ops List.nodup_nil

theorem length_exec_le (cap : ℕ) (ops : List (Op κ ν)) :
    (Run.exec (step cap) [] ops).length ≤ cap := by
  rw [exec_nil_take]
  exact List.length_take_le cap _

theorem lookup_store {cap : ℕ} {k k' : κ} {v w : ν} {l : List (κ × ν)}
    (h : (store cap k' v l).lookup k = some w) :
    if k' = k then w = v else l.lookup k = some w := by
  have hfront : ∀ {l' : List (κ × ν)}, l' <+: (k', v) :: l → l'.lookup k = some w →
      if k' = k then w = v else l.lookup k = some w := by
    intro l' hpre hl'
    have hw := hpre.lookup_eq_some hl'
    rw [List.lookup_cons] at hw
    split
    case isTrue hk => simpa [hk, eq_comm] using hw
    case isFalse hk =>
      have : (k == k') = false := by simpa using Ne.symm hk
      simpa [this] using hw
  unfold store at h
  split at h
  · split
    case isTrue hk =>
      rw [hk, lookup_touch_self] at h
      exact (Option.some.inj h).symm
    case isFalse hk => rwa [lookup_touch_of_ne (Ne.symm hk)] at h
  · split at h
    · exact hfront (List.dropLast_prefix _) h
    · exact hfront List.prefix_rfl h

/-- What a cache holds under a key is what was last put there. -/
theorem lookup_exec {cap : ℕ} {k : κ} {w : ν} : ∀ (ops : List (Op κ ν)) {l : List (κ × ν)}
    {o : Option ν}, (∀ w, l.lookup k = some w → o = some w) →
      (Run.exec (step cap) l ops).lookup k = some w → lastPut k o ops = some w
  | [], _, _, hl, h => hl w h
  | .get k' :: ops, l, o, hl, h => by
    refine lookup_exec ops (fun w hw => hl w ?_) h
    rw [step] at hw
    unfold get at hw
    cases hv : l.lookup k' with
    | none => simpa only [hv] using hw
    | some v =>
      simp only [hv] at hw
      by_cases hk : k = k'
      · rw [hk] at hw ⊢
        rw [hv, ← hw, lookup_touch_self]
      · rwa [lookup_touch_of_ne hk] at hw
  | .put k' v :: ops, l, o, hl, h => by
    refine lookup_exec ops (fun w hw => ?_) h
    have := lookup_store hw
    split at this
    case isTrue hk => rw [if_pos hk, this]
    case isFalse hk => rw [if_neg hk, hl w this]

/-! ## How long a key stays -/

theorem ahead_nodup {k : κ} {u : List (κ × ν)} (hu : (keys u).Nodup) :
    (keys (ahead k u)).Nodup :=
  hu.sublist ((List.takeWhile_sublist _).map _)

theorem mem_keys_take_iff {k : κ} {u : List (κ × ν)} (hk : k ∈ keys u) (hu : (keys u).Nodup)
    (cap : ℕ) : k ∈ keys (u.take cap) ↔ (keys (ahead k u)).toFinset.card < cap := by
  have hlen : (keys (ahead k u)).length = (ahead k u).length := List.length_map _
  rw [List.toFinset_card_of_nodup (ahead_nodup hu), hlen, ← not_iff_not, ← lookup_eq_none,
    lookup_take]
  obtain ⟨v, hv⟩ := lookup_of_mem_keys hk
  split <;> simp [*]

theorem ahead_touch_toFinset {k k' : κ} (h : k' ≠ k) (v : ν) {u : List (κ × ν)}
    (hu : (keys u).Nodup) :
    (keys (ahead k (touch k' v u))).toFinset = insert k' (keys (ahead k u)).toFinset := by
  rw [List.toFinset_eq_of_perm _ _ (ahead_touch h v hu (List.Perm.refl _))]
  ext x
  simp

theorem mem_keys_touch {k k' : κ} (v : ν) {u : List (κ × ν)} (h : k ∈ keys u) :
    k ∈ keys (touch k' v u) := by
  rw [keys_touch, List.mem_cons, List.mem_filter]
  by_cases hk : k = k'
  · exact Or.inl hk
  · exact Or.inr ⟨h, by simpa using hk⟩

theorem mem_keys_shadow {cap : ℕ} {k : κ} {u : List (κ × ν)} (h : k ∈ keys u) (op : Op κ ν) :
    k ∈ keys (shadow cap u op) := by
  by_cases hop : Uses (u.take cap) op
  · obtain ⟨v, hv⟩ := shadow_uses hop
    rw [hv]
    exact mem_keys_touch v h
  · rwa [shadow_not_uses hop]

theorem mem_keys_exec_shadow {cap : ℕ} {k : κ} (ops : List (Op κ ν)) {u : List (κ × ν)}
    (h : k ∈ keys u) : k ∈ keys (Run.exec (shadow cap) u ops) :=
  Run.exec_of_invariant (I := fun u => k ∈ keys u) (fun _ op hu => mem_keys_shadow hu op) ops h

/-- The keys ahead of one that is not used are those used since. -/
theorem ahead_exec {cap : ℕ} {k : κ} : ∀ {ops : List (Op κ ν)} {u : List (κ × ν)},
    (keys u).Nodup → (∀ op ∈ ops, op.key ≠ k) →
      (keys (ahead k (Run.exec (shadow cap) u ops))).toFinset =
        (keys (ahead k u)).toFinset ∪ (used cap (u.take cap) ops).toFinset
  | [], u, _, _ => by simp [Run.exec, used]
  | op :: ops, u, hu, hops => by
    have hrest : ∀ op' ∈ ops, op'.key ≠ k := fun op' hop' =>
      hops op' (List.mem_cons_of_mem op hop')
    rw [Run.exec, ahead_exec (nodup_shadow hu op) hrest, used, step_take cap hu]
    by_cases hop : Uses (u.take cap) op
    · obtain ⟨v, hv⟩ := shadow_uses hop
      rw [if_pos hop, hv, ahead_touch_toFinset (hops op List.mem_cons_self) v hu]
      ext x
      simp only [Finset.mem_union, Finset.mem_insert, List.mem_toFinset, List.mem_cons]
      tauto
    · rw [if_neg hop, shadow_not_uses hop]

/-- No other keys get ahead of a key than those the operations are about. -/
theorem ahead_exec_subset {cap : ℕ} {k : κ} {s : Finset κ} : ∀ (ops : List (Op κ ν))
    {u : List (κ × ν)}, (keys u).Nodup → (∀ op ∈ ops, op.key ≠ k → op.key ∈ s) →
      (keys (ahead k u)).toFinset ⊆ s →
        (keys (ahead k (Run.exec (shadow cap) u ops))).toFinset ⊆ s
  | [], _, _, _, h => h
  | op :: ops, u, hu, hops, h => by
    refine ahead_exec_subset ops (nodup_shadow hu op)
      (fun op' hop' => hops op' (List.mem_cons_of_mem op hop')) ?_
    by_cases hop : Uses (u.take cap) op
    · obtain ⟨v, hv⟩ := shadow_uses hop
      rw [hv]
      by_cases hk : op.key = k
      · rw [hk, ahead_touch_self]
        simp
      · rw [ahead_touch_toFinset hk v hu]
        exact Finset.insert_subset (hops op List.mem_cons_self hk) h
    · rwa [shadow_not_uses hop]

/-- A key that has just been used is at the front. -/
theorem exec_concat {cap : ℕ} (pre : List (Op κ ν)) {op : Op κ ν}
    (huse : Uses (Run.exec (step cap) [] pre) op) :
    ∃ v u, (keys (touch op.key v u)).Nodup ∧
      Run.exec (step cap) [] (pre ++ [op]) = (touch op.key v u).take cap := by
  have hnil : (keys ([] : List (κ × ν))).Nodup := List.nodup_nil
  have hu : (keys (Run.exec (shadow cap) [] pre)).Nodup := nodup_exec pre hnil
  rw [exec_nil_take] at huse
  obtain ⟨v, hv⟩ := shadow_uses huse
  refine ⟨v, Run.exec (shadow cap) [] pre, nodup_touch hu, ?_⟩
  rw [Run.exec_append, exec_nil_take, Run.exec, Run.exec, step_take cap hu, hv]

/-- After its last use a key stays until `cap` other keys were used. -/
theorem mem_keys_exec_iff {cap : ℕ} {k : κ} (pre : List (Op κ ν)) {op : Op κ ν}
    {post : List (Op κ ν)} (hk : op.key = k) (huse : Uses (Run.exec (step cap) [] pre) op)
    (hpost : ∀ op ∈ post, op.key ≠ k) :
    k ∈ keys (Run.exec (step cap) [] (pre ++ op :: post)) ↔
      (used cap (Run.exec (step cap) [] (pre ++ [op])) post).toFinset.card < cap := by
  obtain ⟨v, u, hu, hfront⟩ := exec_concat pre huse
  rw [hk] at hu hfront
  have hmem : k ∈ keys (touch k v u) := by
    rw [keys_touch]
    exact List.mem_cons_self
  rw [List.append_cons, Run.exec_append, hfront, exec_take _ hu,
    mem_keys_take_iff (mem_keys_exec_shadow _ hmem) (nodup_exec _ hu), ahead_exec hu hpost,
    ahead_touch_self]
  simp

/-- A used key stays as long as the operations since are about fewer than `cap` others. -/
theorem mem_keys_exec {cap : ℕ} {k : κ} (pre : List (Op κ ν)) {op : Op κ ν}
    {post : List (Op κ ν)} (hk : op.key = k) (huse : Uses (Run.exec (step cap) [] pre) op)
    (hpost : ((post.map Op.key).toFinset.erase k).card < cap) :
    k ∈ keys (Run.exec (step cap) [] (pre ++ op :: post)) := by
  obtain ⟨v, u, hu, hfront⟩ := exec_concat pre huse
  rw [hk] at hu hfront
  have hmem : k ∈ keys (touch k v u) := by
    rw [keys_touch]
    exact List.mem_cons_self
  have hahead : (keys (ahead k (touch k v u))).toFinset ⊆
      (post.map Op.key).toFinset.erase k := by
    rw [ahead_touch_self]
    simp
  rw [List.append_cons, Run.exec_append, hfront, exec_take _ hu,
    mem_keys_take_iff (mem_keys_exec_shadow _ hmem) (nodup_exec _ hu)]
  refine lt_of_le_of_lt (Finset.card_le_card (ahead_exec_subset _ hu ?_ hahead)) hpost
  intro op' hop' hne
  rw [Finset.mem_erase, List.mem_toFinset]
  exact ⟨hne, List.mem_map_of_mem hop'⟩

end Lru
