import Mathlib.Data.List.Nodup
import Mathlib.Data.List.Perm.Basic

/-!
# Occupied places

Finitely many places of any type hold a value each. `Lists f l` says that the list `l` holds every
occupied place of `f` once, with its value. Counting arguments about threads go over the list :
a place that is taken puts an entry in front (`Lists.take`), one that is left takes its
entry out (`Lists.leave`), and a change that keeps the values keeps the list (`Lists.congr`).
`Lists.change` is all of these at once, for counting.

A list that is permuted after a function was applied to it can be permuted before
(`exists_perm_of_map`).
-/

namespace Occupancy

variable {ι α β : Type} {f g : ι → Option α} {l : List (ι × α)} {i : ι} {a : α}

/-- The list holds the occupied places, each once and with its value. -/
structure Lists (f : ι → Option α) (l : List (ι × α)) : Prop where
  once : (l.map Prod.fst).Nodup
  value : ∀ i a, f i = some a ↔ (i, a) ∈ l

theorem lists_nil (h : ∀ i, f i = none) : Lists f [] :=
  ⟨List.nodup_nil, fun i a => by simp [h i]⟩

theorem Lists.congr (h : Lists f l) (hfg : ∀ j, g j = f j) : Lists g l :=
  ⟨h.once, fun j b => by rw [hfg, h.value]⟩

/-- A free place is taken. -/
theorem Lists.take (h : Lists f l) (hi : f i = none) (ha : g i = some a)
    (hfg : ∀ j ≠ i, g j = f j) : Lists g ((i, a) :: l) := by
  refine ⟨?_, fun j b => ?_⟩
  · rw [List.map_cons, List.nodup_cons]
    refine ⟨fun hmem => ?_, h.once⟩
    obtain ⟨⟨j, b⟩, hb, rfl⟩ := List.mem_map.1 hmem
    have hvalue := (h.value j b).2 hb
    rw [hi] at hvalue
    cases hvalue
  · rw [List.mem_cons, ← h.value]
    by_cases hj : j = i
    · subst hj
      simp [ha, hi, eq_comm]
    · simp [hj, hfg j hj]

/-- A place is left. -/
theorem Lists.leave (h : Lists f l) (hi : f i = some a) (ha : g i = none)
    (hfg : ∀ j ≠ i, g j = f j) : ∃ rest, l.Perm ((i, a) :: rest) ∧ Lists g rest := by
  obtain ⟨l₁, l₂, rfl⟩ := List.append_of_mem ((h.value i a).1 hi)
  have hperm : (l₁ ++ (i, a) :: l₂).Perm ((i, a) :: (l₁ ++ l₂)) := List.perm_middle
  have honce := (hperm.map Prod.fst).nodup_iff.1 h.once
  rw [List.map_cons, List.nodup_cons] at honce
  refine ⟨l₁ ++ l₂, hperm, honce.2, fun j b => ?_⟩
  by_cases hj : j = i
  · subst hj
    refine iff_of_false (by simp [ha]) fun hmem => honce.1 ?_
    exact List.mem_map.2 ⟨(j, b), hmem, rfl⟩
  · rw [hfg j hj, h.value, hperm.mem_iff, List.mem_cons]
    simp [hj]

/-- One place changes. The others keep their entries. -/
theorem Lists.change (h : Lists f l) (hfg : ∀ j ≠ i, g j = f j) :
    ∃ rest l', Lists g l' ∧ l.Perm ((f i).toList.map (i, ·) ++ rest) ∧
      l'.Perm ((g i).toList.map (i, ·) ++ rest) := by
  classical
  obtain ⟨rest, hperm, hrest⟩ : ∃ rest, l.Perm ((f i).toList.map (i, ·) ++ rest) ∧
      Lists (fun j => if j = i then none else f j) rest := by
    rcases hf : f i with _ | a
    · refine ⟨l, .refl l, h.congr fun j => ?_⟩
      split_ifs with hj
      · rw [hj, hf]
      · rfl
    · exact h.leave hf (if_pos rfl) fun j hj => if_neg hj
  rcases hg : g i with _ | a
  · refine ⟨rest, rest, hrest.congr fun j => ?_, hperm, .refl rest⟩
    split_ifs with hj
    · rw [hj, hg]
    · exact hfg j hj
  · refine ⟨rest, (i, a) :: rest, hrest.take (if_pos rfl) hg fun j hj => ?_, hperm, .refl _⟩
    rw [if_neg hj, hfg j hj]

/-- A permutation of the images is one of the originals. -/
theorem exists_perm_of_map (f : α → β) {xs ys : List β} (h : xs.Perm ys) :
    ∀ l : List α, l.map f = xs → ∃ l' : List α, l.Perm l' ∧ l'.map f = ys := by
  induction h with
  | nil => exact fun l hl => ⟨l, .refl l, hl⟩
  | cons x _ ih =>
    intro l hl
    obtain ⟨a, m, rfl, rfl, hm⟩ := List.map_eq_cons_iff.1 hl
    obtain ⟨l', hperm, hl'⟩ := ih m hm
    exact ⟨a :: l', hperm.cons a, by rw [List.map_cons, hl']⟩
  | swap x y xs =>
    intro l hl
    obtain ⟨a, m, rfl, rfl, hm⟩ := List.map_eq_cons_iff.1 hl
    obtain ⟨b, n, rfl, rfl, hn⟩ := List.map_eq_cons_iff.1 hm
    exact ⟨b :: a :: n, .swap b a n, by rw [List.map_cons, List.map_cons, hn]⟩
  | trans _ _ ih₁ ih₂ =>
    intro l hl
    obtain ⟨l₁, hperm₁, hl₁⟩ := ih₁ l hl
    obtain ⟨l₂, hperm₂, hl₂⟩ := ih₂ l₁ hl₁
    exact ⟨l₂, hperm₁.trans hperm₂, hl₂⟩

end Occupancy
