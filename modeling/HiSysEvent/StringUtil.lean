import HiSysEvent.CHeap
import HiSysEvent.Def
import HiSysEvent.RawDataBaseDef

/-!
# Strings for C

`StringUtil` copies a `std::string` into an array, or into a block on the heap. A string is copied
up to its first NUL. `ConvertCStringVec` allocates an array of pointers and a block for each string,
and frees them if one of the strings has no block.
-/

namespace HiSysEvent

open Wire

/-! ## Memory -/

/-- What the C interfaces allocate. The records of an array are kept with the code that fills
them. -/
inductive Block (Double : Type)
  | chars (bytes : Bytes)
  | charPtrs (ptrs : List (Option ℕ))
  | int64s (values : List Int64)
  | uint64s (values : List UInt64)
  | doubles (values : List Double)
  | records (size : ℕ)

/-- The heap of the C interface. -/
abbrev Heap (Double : Type) := CHeap (Block Double)

/-- The code of `strcpy_s` for a string that does not fit. -/
abbrev erangeAndReset : ℤ := 162

/-- `strcpy_s` : the code, and what is at the destination. -/
def strcpyS (dest : Bytes) (destMax : ℕ) (src : Bytes) : ℤ × Bytes :=
  if (cString src).length < destMax then (0, overwrite dest 0 (cString src ++ [0]))
  else (erangeAndReset, overwrite dest 0 [0])

theorem length_cString_le (src : Bytes) : (cString src).length ≤ src.length :=
  (List.takeWhile_sublist _).length_le

theorem length_strcpyS {dest src : Bytes} {destMax : ℕ} (h : 0 < destMax)
    (hdest : destMax ≤ dest.length) : (strcpyS dest destMax src).2.length = dest.length := by
  rw [strcpyS]
  split
  case isTrue hlt =>
    rw [length_overwrite (Nat.zero_le _), List.length_append, List.length_singleton]
    omega
  case isFalse =>
    rw [length_overwrite (Nat.zero_le _), List.length_singleton]
    omega

namespace StringUtil

variable {Double : Type}

/-- `CreateCString` and `ConvertCString`, which differ in their bounds only. -/
def newCString (len : ℕ) (dst : Option ℕ) (src : Bytes) (heap : Heap Double) :
    ℤ × Option ℕ × Heap Double :=
  if src.length > len then (-1, dst, heap)
  else
    let zeros := List.replicate (src.length + 1) 0
    match heap.new (.chars zeros) with
    | (none, heap) => (-1, dst, heap)
    | (some data, heap) =>
      let res := strcpyS zeros (src.length + 1) src
      let heap := heap.store data (.chars res.2)
      if res.1 ≠ 0 then (res.1, dst, heap.delete (some data)) else (0, some data, heap)

/-- `CreateCString`. -/
abbrev createCString (len : ℕ) (dst : Option ℕ) (src : Bytes) (heap : Heap Double) :
    ℤ × Option ℕ × Heap Double :=
  newCString len dst src heap

/-- `ConvertCString` with its default bound. -/
abbrev convertCString (str : Bytes) (sp : Option ℕ) (heap : Heap Double) :
    ℤ × Option ℕ × Heap Double :=
  newCString (8 * 1024) sp str heap

/-- `CopyCString` to an array, whose last byte is left for the NUL. -/
def copyCString {len : ℕ} (dst : CharArray (len + 1)) (src : Bytes) : ℤ × CharArray (len + 1) :=
  if h : src.length > len then (-1, dst)
  else ((strcpyS dst.1 (src.length + 1) src).1, ⟨(strcpyS dst.1 (src.length + 1) src).2, by
    rw [length_strcpyS (by omega) (by rw [dst.2]; omega), dst.2]⟩)

/-- `DeletePointers` of the first entries, and of the array. -/
def deletePointers (ptrs : List (Option ℕ)) (data : ℕ) (heap : Heap Double) : Heap Double :=
  (heap.deletes ptrs).delete (some data)

/-- The loop of `ConvertCStringVec`, with the entries that are filled. -/
def convertLoop : List Bytes → List (Option ℕ) → Heap Double → ℤ × List (Option ℕ) × Heap Double
  | [], data, heap => (0, data, heap)
  | str :: vec, data, heap =>
    match convertCString str none heap with
    | (res, sp, heap) =>
      if res ≠ 0 then (res, data, heap) else convertLoop vec (data ++ [sp]) heap

/-- The code, and `strs` and `len` afterwards. The length is set before anything is allocated. -/
def convertCStringVec (vec : List Bytes) (strs : Option ℕ) (len : ℕ) (heap : Heap Double) :
    ℤ × (Option ℕ × ℕ) × Heap Double :=
  if vec = [] then (0, (strs, len), heap)
  else
    let len := vec.length
    match heap.new (.charPtrs (List.replicate len none)) with
    | (none, heap) => (0, (strs, len), heap)
    | (some data, heap) =>
      match convertLoop vec [] heap with
      | (res, ptrs, heap) =>
        let heap := heap.store data (.charPtrs (ptrs ++ List.replicate (len - ptrs.length) none))
        if res ≠ 0 then (res, (strs, len), deletePointers ptrs data heap)
        else (0, (some data, len), heap)

theorem failed_ne_zero : (-1 : ℤ) ≠ 0 := by
  decide

/-! ## One string -/

/-- The block a string is copied to. -/
def stringBlock (src : Bytes) : Block Double :=
  .chars (strcpyS (List.replicate (src.length + 1) 0) (src.length + 1) src).2

theorem strcpyS_of_lt {dest src : Bytes} {destMax : ℕ} (h : src.length < destMax) :
    strcpyS dest destMax src = (0, overwrite dest 0 (cString src ++ [0])) :=
  if_pos (lt_of_le_of_lt (length_cString_le src) h)

/-- Memory that ends a string with a NUL. -/
def ReadsAs (bytes s : Bytes) : Prop :=
  0 ∈ bytes ∧ cString bytes = s

/-- What was copied is read back, up to the first NUL. -/
theorem readsAs_strcpyS {dest src : Bytes} {destMax : ℕ} (h : src.length < destMax) :
    ReadsAs (strcpyS dest destMax src).2 (cString src) := by
  have hnotMem : 0 ∉ cString src := fun h0 => by
    simpa using List.mem_takeWhile_imp h0
  rw [strcpyS_of_lt h]
  simp only [overwrite, List.take_zero, List.nil_append, List.append_assoc]
  refine ⟨by simp, ?_⟩
  rw [cString, List.takeWhile_append_of_pos fun b hb => by
    simpa using fun h0 : b = 0 => hnotMem (h0 ▸ hb)]
  simp

section one

variable {len : ℕ} {dst : Option ℕ} {src : Bytes} {heap : Heap Double}

theorem newCString_of_gt (h : len < src.length) : newCString len dst src heap = (-1, dst, heap) :=
  if_pos h

theorem newCString_granted (h : src.length ≤ len) (hnext : heap.alloc.next = true) :
    newCString len dst src heap = (0, some heap.next, heap.grant (stringBlock src)) := by
  rw [newCString, if_neg (by omega)]
  simp only [CHeap.new_of_next _ _ hnext]
  rw [if_neg (by rw [strcpyS_of_lt (Nat.lt_succ_self _)]; simp), CHeap.store_grant]
  rfl

theorem newCString_denied (h : src.length ≤ len) (hnext : heap.alloc.next = false) :
    newCString len dst src heap = (-1, dst, heap.deny) := by
  rw [newCString, if_neg (by omega)]
  simp only [CHeap.new_of_not_next _ _ hnext]

/-- A string is in a new block, or there is none for it. -/
theorem newCString_cases (len : ℕ) (dst : Option ℕ) (src : Bytes) (heap : Heap Double) :
    (src.length ≤ len ∧ heap.alloc 0 = true ∧
      newCString len dst src heap = (0, some heap.next, heap.grant (stringBlock src))) ∨
    (¬(src.length ≤ len ∧ heap.alloc 0 = true) ∧ ∃ heap', heap.Extends heap' 0 ∧
      newCString len dst src heap = (-1, dst, heap')) := by
  by_cases hlen : src.length ≤ len
  case neg =>
    exact Or.inr ⟨fun h => hlen h.1, heap, .refl heap, newCString_of_gt (by omega)⟩
  case pos =>
    cases hnext : heap.alloc.next with
    | true => exact Or.inl ⟨hlen, hnext, newCString_granted hlen hnext⟩
    | false =>
      refine Or.inr ⟨fun h => ?_, heap.deny, .deny heap, newCString_denied hlen hnext⟩
      exact Bool.false_ne_true (hnext.symm.trans h.2)

end one

/-! ## One array -/

section array

variable {len : ℕ} {dst : CharArray (len + 1)} {src : Bytes}

theorem copyCString_of_le (h : src.length ≤ len) :
    (copyCString dst src).1 = 0 ∧ ReadsAs (copyCString dst src).2.1 (cString src) := by
  rw [copyCString, dif_neg (by omega)]
  exact ⟨congrArg Prod.fst (strcpyS_of_lt (Nat.lt_succ_self _)),
    readsAs_strcpyS (Nat.lt_succ_self _)⟩

theorem copyCString_of_gt (h : len < src.length) : copyCString dst src = (-1, dst) :=
  dif_pos h

theorem copyCString_eq_zero_iff : (copyCString dst src).1 = 0 ↔ src.length ≤ len := by
  refine ⟨fun h => ?_, fun h => (copyCString_of_le h).1⟩
  by_contra hlen
  rw [copyCString_of_gt (by omega)] at h
  exact failed_ne_zero h

end array

/-! ## The loop -/

section loop

/-- If all blocks are granted, they lie one behind the other. -/
theorem convertLoop_granted : ∀ {vec : List Bytes} {data : List (Option ℕ)} {heap : Heap Double},
    (∀ s ∈ vec, s.length ≤ 8 * 1024) → (∀ i < vec.length, heap.alloc i = true) →
      convertLoop vec data heap = (0, data ++ (List.range' heap.next vec.length).map some,
        heap.grants (vec.map stringBlock))
  | [], data, heap, _, _ => by simp [convertLoop]
  | s :: vec, data, heap, hlen, halloc => by
    have hnext : heap.alloc.next = true := halloc 0 (by simp)
    have ih := @convertLoop_granted vec (data ++ [some heap.next])
      (heap.grant (stringBlock s)) (fun t ht => hlen t (List.mem_cons_of_mem _ ht))
      (fun i hi => by simpa [Alloc.drop, add_comm] using halloc (i + 1) (by simpa using hi))
    rw [convertLoop, convertCString, newCString_granted (hlen s List.mem_cons_self) hnext]
    simp only [ne_eq, not_true_eq_false, if_false]
    rw [ih]
    simp [List.range'_succ]

/-- Otherwise the loop stops at the first block that is not granted. -/
theorem convertLoop_denied : ∀ {vec : List Bytes} {data : List (Option ℕ)} {heap : Heap Double},
    (∀ s ∈ vec, s.length ≤ 8 * 1024) → (∃ i < vec.length, heap.alloc i = false) →
      ∃ n < vec.length, convertLoop vec data heap =
        (-1, data ++ (List.range' heap.next n).map some,
          (heap.grants ((vec.take n).map stringBlock)).deny)
  | [], data, heap, _, hdenied => by simp at hdenied
  | s :: vec, data, heap, hlen, hdenied => by
    cases hnext : heap.alloc.next with
    | false =>
      refine ⟨0, by simp, ?_⟩
      rw [convertLoop, convertCString, newCString_denied (hlen s List.mem_cons_self) hnext]
      simp
    | true =>
      have hrest : ∃ i < vec.length, (heap.grant (stringBlock s)).alloc i = false := by
        obtain ⟨_ | i, hi, hfalse⟩ := hdenied
        · exact absurd (hnext.symm.trans hfalse) (by simp)
        · exact ⟨i, by simpa using hi, by simpa [Alloc.drop, add_comm] using hfalse⟩
      obtain ⟨n, hn, ih⟩ := @convertLoop_denied vec (data ++ [some heap.next]) _
        (fun t ht => hlen t (List.mem_cons_of_mem _ ht)) hrest
      refine ⟨n + 1, by simpa using hn, ?_⟩
      rw [convertLoop, convertCString, newCString_granted (hlen s List.mem_cons_self) hnext]
      simp only [ne_eq, not_true_eq_false, if_false]
      rw [ih]
      simp [List.range'_succ]

end loop

/-! ## Several strings -/

/-- A string at an address. -/
def HoldsString (heap : Heap Double) (p : Option ℕ) (s : Bytes) : Prop :=
  ∃ a bytes, p = some a ∧ heap.blocks a = some (.chars bytes) ∧ ReadsAs bytes s

/-- An array of strings at an address. -/
def HoldsStrings (heap : Heap Double) (p : Option ℕ) (l : List Bytes) : Prop :=
  ∃ a ptrs, p = some a ∧ heap.blocks a = some (.charPtrs ptrs) ∧
    List.Forall₂ (HoldsString heap) ptrs l

theorem holdsString_cString {heap : Heap Double} {a : ℕ} {s : Bytes}
    (hblock : heap.blocks a = some (stringBlock s)) : HoldsString heap (some a) (cString s) :=
  ⟨a, _, rfl, hblock, readsAs_strcpyS (Nat.lt_succ_self _)⟩

theorem holdsString_stringBlock {heap : Heap Double} {a : ℕ} {s : Bytes} (h0 : 0 ∉ s)
    (hblock : heap.blocks a = some (stringBlock s)) : HoldsString heap (some a) s := by
  have hs : cString s = s := cString_eq_self h0
  exact hs ▸ holdsString_cString hblock

section several

variable {vec : List Bytes} {strs : Option ℕ} {len : ℕ} {heap : Heap Double}

/-- The blocks that were granted for an array and its strings. -/
theorem blocks_vec (heap : Heap Double) (ptrs : Block Double) (bs : List (Block Double))
    (block : Block Double) (a : ℕ) :
    (((heap.grant ptrs).grants bs).store heap.next block).blocks a =
      if a < heap.next then heap.blocks a
      else if a = heap.next then some block else bs[a - (heap.next + 1)]? := by
  rw [CHeap.blocks_store, CHeap.blocks_grants, CHeap.next_grants, CHeap.next_grant,
    CHeap.blocks_grant]
  rcases lt_trichotomy a heap.next with h | rfl | h
  · rw [if_neg (by omega), if_pos (by omega), if_pos h, Function.update_of_ne (by omega)]
  · rw [if_pos ⟨rfl, by omega⟩, if_neg (lt_irrefl _), if_pos rfl]
  · rw [if_neg (by omega), if_neg (by omega), if_neg (by omega), if_neg (by omega)]

/-- The heap is as it was when all of them are deleted. -/
theorem blocks_deletePointers (heap : Heap Double) (ptrs : Block Double)
    (bs : List (Block Double)) (block : Block Double) :
    (deletePointers ((List.range' (heap.next + 1) bs.length).map some) heap.next
      ((((heap.grant ptrs).grants bs).deny).store heap.next block)).blocks = heap.blocks := by
  funext a
  have hmem : some a ∈ (List.range' (heap.next + 1) bs.length).map some ↔
      heap.next + 1 ≤ a ∧ a < heap.next + 1 + bs.length := by simp
  have hblock : ((((heap.grant ptrs).grants bs).deny).store heap.next block).blocks a = _ :=
    blocks_vec heap ptrs bs block a
  simp only [deletePointers, CHeap.blocks_delete, CHeap.blocks_deletes, hblock, Option.some.injEq]
  rcases lt_trichotomy a heap.next with h | rfl | h
  · rw [if_neg (by omega), if_neg (mt hmem.1 (by omega)), if_pos h]
  · rw [if_pos rfl, heap.fresh _ le_rfl]
  · rw [if_neg (by omega : ¬a = heap.next), if_neg (by omega : ¬a < heap.next),
      if_neg (by omega : ¬a = heap.next), heap.fresh a h.le]
    split
    case isTrue => rfl
    case isFalse hnot =>
      have hout := mt hmem.2 hnot
      exact List.getElem?_eq_none (by omega)

/-- What the loop leaves is published or freed. -/
theorem convertCStringVec_of_loop (hvec : vec ≠ []) (hnext : heap.alloc.next = true) {res : ℤ}
    {ptrs : List (Option ℕ)} {heap' : Heap Double}
    (hloop : convertLoop vec [] (heap.grant (.charPtrs (List.replicate vec.length none))) =
      (res, ptrs, heap')) :
    convertCStringVec vec strs len heap =
      if res ≠ 0 then (res, (strs, vec.length), deletePointers ptrs heap.next (heap'.store heap.next
        (.charPtrs (ptrs ++ List.replicate (vec.length - ptrs.length) none))))
      else (0, (some heap.next, vec.length), heap'.store heap.next
        (.charPtrs (ptrs ++ List.replicate (vec.length - ptrs.length) none))) := by
  rw [convertCStringVec, if_neg hvec]
  simp only [CHeap.new_of_next _ _ hnext]
  rw [hloop]

theorem convertCStringVec_granted (hvec : vec ≠ []) (hlen : ∀ s ∈ vec, s.length ≤ 8 * 1024)
    (h0 : ∀ s ∈ vec, 0 ∉ s) (halloc : ∀ i ≤ vec.length, heap.alloc i = true) :
    ∃ p heap', convertCStringVec vec strs len heap = (0, (p, vec.length), heap') ∧
      heap'.denied = heap.denied ∧ HoldsStrings heap' p vec := by
  have hnext : heap.alloc.next = true := halloc 0 (Nat.zero_le _)
  have hloop := @convertLoop_granted _ vec [] (heap.grant (.charPtrs
    (List.replicate vec.length none))) hlen
    (fun i hi => by simpa [Alloc.drop, add_comm] using halloc (i + 1) hi)
  refine ⟨some heap.next, ((heap.grant (.charPtrs (List.replicate vec.length none))).grants
    (vec.map stringBlock)).store heap.next
      (.charPtrs ((List.range' (heap.next + 1) vec.length).map some)), ?_, ?_, ?_⟩
  · rw [convertCStringVec_of_loop hvec hnext hloop]
    simp
  · exact CHeap.denied_grants _ _
  · refine ⟨heap.next, _, rfl, by rw [blocks_vec, if_neg (lt_irrefl _), if_pos rfl], ?_⟩
    rw [List.forall₂_iff_get]
    refine ⟨by simp, fun i hi hi' => ?_⟩
    have hblock := blocks_vec heap (.charPtrs (List.replicate vec.length none))
      (vec.map stringBlock) (.charPtrs ((List.range' (heap.next + 1) vec.length).map some))
      (heap.next + 1 + i)
    rw [if_neg (by omega), if_neg (by omega), Nat.add_sub_cancel_left] at hblock
    simp only [List.get_eq_getElem, List.getElem_map, List.getElem_range', one_mul]
    refine holdsString_stringBlock (h0 _ (List.getElem_mem _)) ?_
    rw [hblock, List.getElem?_map, List.getElem?_eq_getElem hi']
    rfl

/-- If a string has no block, everything is freed. -/
theorem convertCStringVec_denied (hvec : vec ≠ []) (hlen : ∀ s ∈ vec, s.length ≤ 8 * 1024)
    (hnext : heap.alloc.next = true) (hdenied : ∃ i ≤ vec.length, heap.alloc i = false) :
    ∃ heap', convertCStringVec vec strs len heap = (-1, (strs, vec.length), heap') ∧
      heap'.denied = heap.denied + 1 ∧ heap'.blocks = heap.blocks := by
  have hrest : ∃ i < vec.length, (heap.alloc.drop 1) i = false := by
    obtain ⟨_ | i, hi, hfalse⟩ := hdenied
    · exact absurd (hnext.symm.trans hfalse) (by simp)
    · exact ⟨i, hi, by simpa [Alloc.drop, add_comm] using hfalse⟩
  obtain ⟨n, hn, hloop⟩ := @convertLoop_denied _ vec [] (heap.grant (.charPtrs
    (List.replicate vec.length none))) hlen hrest
  refine ⟨_, (convertCStringVec_of_loop hvec hnext hloop).trans (if_pos failed_ne_zero), ?_, ?_⟩
  · simp only [deletePointers, CHeap.denied_delete, CHeap.denied_deletes, CHeap.denied_store,
      CHeap.denied_deny, CHeap.denied_grants]
    rfl
  · have hfreed := blocks_deletePointers heap
      (.charPtrs (List.replicate vec.length none)) ((vec.take n).map stringBlock)
    rw [List.length_map, List.length_take_of_le hn.le] at hfreed
    exact hfreed _

/-- If the array has no block, the code is that of success. -/
theorem convertCStringVec_noArray (hvec : vec ≠ []) (hnext : heap.alloc.next = false) :
    convertCStringVec vec strs len heap = (0, (strs, vec.length), heap.deny) := by
  rw [convertCStringVec, if_neg hvec]
  simp only [CHeap.new_of_not_next _ _ hnext]

end several

end StringUtil

end HiSysEvent
