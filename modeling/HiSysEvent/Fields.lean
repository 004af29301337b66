import Mathlib.Data.List.Basic
import Mathlib.Order.Basic

/-!
# Fields between delimiters

A field of a list is a non-empty run of entries without the delimiter that is as long as it can
be : at each end is an end of the list or a delimiter. `FieldsBefore l d start fs` says that
`fs` are the fields up to `start`, in order. A scan extends them by what lies up to the next
delimiter, or up to the end (`FieldsBefore.extend`), until all fields are found
(`FieldsBefore.complete`).
-/

namespace Fields

variable {α : Type}

/-- The entries from `i` on and before `j` are a field. -/
structure IsField (l : List α) (d : α) (i j : ℕ) : Prop where
  lt : i < j
  le : j ≤ l.length
  inside : ∀ k, i ≤ k → k < j → l[k]? ≠ some d
  left : i = 0 ∨ l[i - 1]? = some d
  right : j = l.length ∨ l[j]? = some d

/-- The entries of a field. -/
def slice (l : List α) (field : ℕ × ℕ) : List α :=
  (l.drop field.1).take (field.2 - field.1)

/-- A scan is at a start if a field can begin there. -/
structure AtStart (l : List α) (d : α) (start : ℕ) : Prop where
  le : start ≤ l.length
  left : start = 0 ∨ l[start - 1]? = some d

/-- From `start` on the next delimiter, or the end, is at `stop`. -/
structure NextStop (l : List α) (d : α) (start stop : ℕ) : Prop where
  le : start ≤ stop
  length : stop ≤ l.length
  inside : ∀ k, start ≤ k → k < stop → l[k]? ≠ some d
  right : stop = l.length ∨ l[stop]? = some d

/-- The fields that end before `start`, in order. -/
structure FieldsBefore (l : List α) (d : α) (start : ℕ) (fs : List (ℕ × ℕ)) : Prop where
  pairwise : fs.Pairwise fun a b => a.2 < b.1
  mem_iff : ∀ i j, (i, j) ∈ fs ↔ IsField l d i j ∧ j < start

variable {l : List α} {d : α} {start stop i j : ℕ} {fs : List (ℕ × ℕ)}

theorem AtStart.zero : AtStart l d 0 :=
  ⟨Nat.zero_le _, Or.inl rfl⟩

theorem AtStart.next (hd : l[stop]? = some d) : AtStart l d (stop + 1) :=
  ⟨(List.getElem?_eq_some_iff.1 hd).1, Or.inr hd⟩

/-- Between a start and the next stop there is one field, or none if they are the same. -/
theorem isField_between (ha : AtStart l d start) (hn : NextStop l d start stop) :
    IsField l d i j ∧ start ≤ j ∧ j ≤ stop ↔ start < stop ∧ i = start ∧ j = stop := by
  constructor
  · rintro ⟨hf, hstart, hstop⟩
    -- a field that began earlier would hold the delimiter before the start
    have hi : start ≤ i := by
      by_contra hlt
      rcases ha.left with h0 | hleft
      · omega
      · exact hf.inside (start - 1) (by omega) (by have := hf.lt; omega) hleft
    have hj : j = stop := by
      by_contra hne
      rcases hf.right with hend | hright
      · have hlength := hn.length
        omega
      · exact hn.inside j hstart (by omega) hright
    have hlt := hf.lt
    have hstart' : i = start := by
      by_contra hne
      rcases hf.left with h0 | hleft
      · omega
      · exact hn.inside (i - 1) (by omega) (by omega) hleft
    exact ⟨by omega, hstart', hj⟩
  · rintro ⟨hlt, rfl, rfl⟩
    exact ⟨⟨hlt, hn.length, hn.inside, ha.left, hn.right⟩, Nat.le_of_lt hlt, Nat.le_refl _⟩

/-! ## The next delimiter -/

/-- The position of the next delimiter from `start` on. -/
def next [DecidableEq α] (l : List α) (d : α) (start : ℕ) : Option ℕ :=
  ((l.drop start).findIdx? (· == d)).map (start + ·)

theorem next_eq_some_iff [DecidableEq α] : next l d start = some stop ↔
    start ≤ stop ∧ l[stop]? = some d ∧ ∀ k, start ≤ k → k < stop → l[k]? ≠ some d := by
  rw [next, Option.map_eq_some_iff]
  constructor
  · rintro ⟨i, hi, rfl⟩
    obtain ⟨hlt, hget, hbefore⟩ := List.findIdx?_eq_some_iff_getElem.1 hi
    rw [beq_iff_eq, List.getElem_drop] at hget
    rw [List.length_drop] at hlt
    refine ⟨Nat.le_add_right _ _, List.getElem?_eq_some_iff.2 ⟨by omega, hget⟩, ?_⟩
    intro k hk hlt' hkd
    have hnot := hbefore (k - start) (by omega)
    obtain ⟨hklt, hkget⟩ := List.getElem?_eq_some_iff.1 hkd
    have hkk : start + (k - start) = k := by omega
    simp only [List.getElem_drop, hkk, hkget, beq_self_eq_true, not_true_eq_false] at hnot
  · rintro ⟨hle, hget, hbefore⟩
    obtain ⟨hlt, hd⟩ := List.getElem?_eq_some_iff.1 hget
    have hss : start + (stop - start) = stop := by omega
    refine ⟨stop - start, List.findIdx?_eq_some_iff_getElem.2
      ⟨by rw [List.length_drop]; omega, by simp only [List.getElem_drop, hss, hd, beq_self_eq_true],
        fun j hj => ?_⟩, hss⟩
    have hnot := hbefore (start + j) (Nat.le_add_right _ _) (by omega)
    rw [beq_iff_eq, List.getElem_drop]
    exact fun heq => hnot (List.getElem?_eq_some_iff.2 ⟨by omega, heq⟩)

theorem next_eq_none_iff [DecidableEq α] :
    next l d start = none ↔ ∀ k, start ≤ k → l[k]? ≠ some d := by
  rw [next, Option.map_eq_none_iff, List.findIdx?_eq_none_iff]
  constructor
  · intro h k hk hkd
    have hmem : d ∈ l.drop start := List.mem_of_getElem? (i := k - start) (by
      have hkk : start + (k - start) = k := by omega
      rw [List.getElem?_drop, hkk, hkd])
    simpa using h d hmem
  · intro h x hx
    obtain ⟨i, hi⟩ := List.mem_iff_getElem?.1 hx
    rw [List.getElem?_drop] at hi
    refine beq_eq_false_iff_ne.2 fun hxd => ?_
    exact h (start + i) (Nat.le_add_right _ _) (hxd ▸ hi)

/-! ## The fields before a start -/

namespace FieldsBefore

theorem zero : FieldsBefore l d 0 [] where
  pairwise := List.Pairwise.nil
  mem_iff i j := by simp

/-- A scan goes on behind the next stop, with the field up to there if there is one. -/
theorem extend (h : FieldsBefore l d start fs) (ha : AtStart l d start)
    (hn : NextStop l d start stop) :
    FieldsBefore l d (stop + 1) (if start < stop then fs ++ [(start, stop)] else fs) where
  pairwise := by
    split
    case isTrue =>
      refine List.pairwise_append.2 ⟨h.pairwise, List.pairwise_singleton _ _, ?_⟩
      rintro ⟨i, j⟩ hmem _ hnew
      rw [List.mem_singleton.1 hnew]
      exact ((h.mem_iff i j).1 hmem).2
    case isFalse => exact h.pairwise
  mem_iff i j := by
    have hmem : (i, j) ∈ (if start < stop then fs ++ [(start, stop)] else fs) ↔
        (i, j) ∈ fs ∨ start < stop ∧ i = start ∧ j = stop := by
      split
      case isTrue hlt => simp [hlt]
      case isFalse hlt => simp [hlt]
    have hle := hn.le
    rw [hmem, h.mem_iff, ← isField_between ha hn]
    constructor
    · rintro (⟨hf, hj⟩ | ⟨hf, -, hj⟩)
      · exact ⟨hf, by omega⟩
      · exact ⟨hf, by omega⟩
    · rintro ⟨hf, hj⟩
      by_cases hs : j < start
      · exact Or.inl ⟨hf, hs⟩
      · exact Or.inr ⟨hf, by omega, by omega⟩

theorem complete (h : FieldsBefore l d (l.length + 1) fs) :
    (i, j) ∈ fs ↔ IsField l d i j := by
  rw [h.mem_iff]
  exact ⟨fun hf => hf.1, fun hf => ⟨hf, Nat.lt_succ_of_le hf.le⟩⟩

end FieldsBefore

end Fields
