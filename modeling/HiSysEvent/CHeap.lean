import Mathlib.Data.List.ReduceOption
import Mathlib.Logic.Function.Basic
import HiSysEvent.RawData

/-!
# A heap

Blocks under their addresses, with the allocations that are to be granted and what was freed.
Addresses are handed out in order, and nothing lies behind the last one.
-/

namespace HiSysEvent

/-- Blocks at addresses, with the outcomes of the allocations to come and what was freed. -/
@[ext] structure CHeap (Block : Type) where
  alloc : Alloc
  next : ℕ
  blocks : ℕ → Option Block
  /-- How many allocations were not granted. -/
  denied : ℕ
  freed : List ℕ
  fresh : ∀ a, next ≤ a → blocks a = none

namespace CHeap

variable {Block : Type}

/-- An allocation that is granted. -/
def grant (block : Block) (heap : CHeap Block) : CHeap Block where
  alloc := heap.alloc.drop 1
  next := heap.next + 1
  blocks := Function.update heap.blocks heap.next (some block)
  denied := heap.denied
  freed := heap.freed
  fresh a h := by
    rw [Function.update_of_ne (by omega)]
    exact heap.fresh a (by omega)

/-- An allocation that is not granted. -/
def deny (heap : CHeap Block) : CHeap Block :=
  { heap with alloc := heap.alloc.drop 1, denied := heap.denied + 1 }

/-- `new (std::nothrow)`. -/
def new (block : Block) (heap : CHeap Block) : Option ℕ × CHeap Block :=
  if heap.alloc.next then (some heap.next, heap.grant block) else (none, heap.deny)

/-- A block is written. -/
def store (a : ℕ) (block : Block) (heap : CHeap Block) : CHeap Block where
  alloc := heap.alloc
  next := heap.next
  blocks b := if b = a ∧ b < heap.next then some block else heap.blocks b
  denied := heap.denied
  freed := heap.freed
  fresh b h := by
    rw [if_neg (by omega)]
    exact heap.fresh b h

/-- `delete[]`, which does nothing to a null pointer. -/
def delete (p : Option ℕ) (heap : CHeap Block) : CHeap Block :=
  match p with
  | none => heap
  | some a => {
      alloc := heap.alloc
      next := heap.next
      blocks := Function.update heap.blocks a none
      denied := heap.denied
      freed := heap.freed ++ [a]
      fresh := fun b h => by
        rw [Function.update_apply]
        split
        · rfl
        · exact heap.fresh b h }

/-- Some allocations, all of them granted. -/
def grants (blocks : List Block) (heap : CHeap Block) : CHeap Block :=
  blocks.foldl (fun heap block => heap.grant block) heap

/-- `delete` of each pointer. -/
def deletes (ps : List (Option ℕ)) (heap : CHeap Block) : CHeap Block :=
  ps.foldl (fun heap p => heap.delete p) heap

section lemmas

variable (heap : CHeap Block) (block : Block) (bs : List Block)

theorem new_of_next (h : heap.alloc.next = true) :
    heap.new block = (some heap.next, heap.grant block) :=
  if_pos h

theorem new_of_not_next (h : heap.alloc.next = false) : heap.new block = (none, heap.deny) :=
  if_neg (by simp [h])

@[simp] theorem next_grant : (heap.grant block).next = heap.next + 1 :=
  rfl

@[simp] theorem blocks_grant :
    (heap.grant block).blocks = Function.update heap.blocks heap.next (some block) :=
  rfl

@[simp] theorem alloc_grant : (heap.grant block).alloc = heap.alloc.drop 1 :=
  rfl

@[simp] theorem blocks_deny : heap.deny.blocks = heap.blocks :=
  rfl

@[simp] theorem next_deny : heap.deny.next = heap.next :=
  rfl

@[simp] theorem denied_deny : heap.deny.denied = heap.denied + 1 :=
  rfl

theorem blocks_store (a b : ℕ) :
    (heap.store a block).blocks b = if b = a ∧ b < heap.next then some block else heap.blocks b :=
  rfl

@[simp] theorem denied_store (a : ℕ) : (heap.store a block).denied = heap.denied :=
  rfl

/-- A new block that is written at once. -/
theorem store_grant (block' : Block) :
    (heap.grant block).store heap.next block' = heap.grant block' := by
  ext1
  case blocks =>
    funext a
    rw [blocks_store, blocks_grant, next_grant, blocks_grant, Function.update_apply,
      Function.update_apply]
    by_cases h : a = heap.next
    · rw [if_pos ⟨h, by omega⟩, if_pos h]
    · rw [if_neg fun hand => h hand.1, if_neg h, if_neg h]
  all_goals rfl

@[simp] theorem grants_nil : heap.grants [] = heap :=
  rfl

@[simp] theorem grants_cons : heap.grants (block :: bs) = (heap.grant block).grants bs :=
  rfl

@[simp] theorem next_grants : ∀ (bs : List Block) (heap : CHeap Block),
    (heap.grants bs).next = heap.next + bs.length
  | [], _ => rfl
  | b :: bs, heap => by
    rw [grants_cons, next_grants bs, List.length_cons, next_grant]
    omega

@[simp] theorem denied_grants : ∀ (bs : List Block) (heap : CHeap Block),
    (heap.grants bs).denied = heap.denied
  | [], _ => rfl
  | b :: bs, heap => (denied_grants bs (heap.grant b)).trans rfl

/-- The new blocks lie one behind the other. -/
theorem blocks_grants : ∀ (bs : List Block) (heap : CHeap Block) (a : ℕ),
    (heap.grants bs).blocks a = if a < heap.next then heap.blocks a else bs[a - heap.next]?
  | [], heap, a => by
    split
    · rfl
    · exact heap.fresh a (by omega)
  | b :: bs, heap, a => by
    rw [grants_cons, blocks_grants bs, next_grant, blocks_grant]
    rcases lt_trichotomy a heap.next with h | rfl | h
    · rw [if_pos (by omega), if_pos h]
      exact Function.update_of_ne (by omega) _ _
    · rw [if_pos (by omega), if_neg (lt_irrefl _), Nat.sub_self]
      exact Function.update_self _ _ _
    · obtain ⟨k, rfl⟩ := Nat.exists_eq_add_of_lt h
      have hk : heap.next + k + 1 - heap.next = k + 1 := by omega
      have hk' : heap.next + k + 1 - (heap.next + 1) = k := by omega
      rw [if_neg (by omega), if_neg (by omega), hk, hk', List.getElem?_cons_succ]

theorem blocks_delete (p : Option ℕ) (a : ℕ) :
    (heap.delete p).blocks a = if some a = p then none else heap.blocks a := by
  cases p with
  | none => simp [delete]
  | some b => simp [delete, Function.update_apply]

@[simp] theorem denied_delete (p : Option ℕ) : (heap.delete p).denied = heap.denied := by
  cases p <;> rfl

theorem deletes_cons (p : Option ℕ) (ps : List (Option ℕ)) :
    heap.deletes (p :: ps) = (heap.delete p).deletes ps :=
  rfl

theorem blocks_deletes : ∀ (ps : List (Option ℕ)) (heap : CHeap Block) (a : ℕ),
    (heap.deletes ps).blocks a = if some a ∈ ps then none else heap.blocks a
  | [], _, _ => by simp [deletes]
  | p :: ps, heap, a => by
    rw [deletes_cons, blocks_deletes ps, blocks_delete]
    by_cases h : some a = p
    · simp [h]
    · simp [h]

@[simp] theorem denied_deletes : ∀ (ps : List (Option ℕ)) (heap : CHeap Block),
    (heap.deletes ps).denied = heap.denied
  | [], _ => rfl
  | p :: ps, heap => by rw [deletes_cons, denied_deletes ps, denied_delete]

theorem freed_deletes : ∀ (ps : List (Option ℕ)) (heap : CHeap Block),
    (heap.deletes ps).freed = heap.freed ++ ps.reduceOption
  | [], _ => by simp [deletes]
  | none :: ps, heap => by
    rw [deletes_cons, freed_deletes ps, List.reduceOption_cons_of_none]
    rfl
  | some b :: ps, heap => by
    rw [deletes_cons, freed_deletes ps, List.reduceOption_cons_of_some, delete, List.append_assoc,
      List.singleton_append]

@[simp] theorem next_delete (p : Option ℕ) : (heap.delete p).next = heap.next := by
  cases p <;> rfl

@[simp] theorem next_deletes : ∀ (ps : List (Option ℕ)) (heap : CHeap Block),
    (heap.deletes ps).next = heap.next
  | [], _ => rfl
  | p :: ps, heap => by rw [deletes_cons, next_deletes ps, next_delete]

end lemmas

/-! ## Heaps that only grew -/

/-- So many blocks were added, and none was changed or freed. -/
structure Extends (heap heap' : CHeap Block) (k : ℕ) : Prop where
  next : heap'.next = heap.next + k
  freed : heap'.freed = heap.freed
  keeps : ∀ a block, heap.blocks a = some block → heap'.blocks a = some block

namespace Extends

variable {heap heap' heap'' : CHeap Block} {k k' : ℕ}

theorem refl (heap : CHeap Block) : Extends heap heap 0 :=
  ⟨rfl, rfl, fun _ _ h => h⟩

theorem trans (h : Extends heap heap' k) (h' : Extends heap' heap'' k') :
    Extends heap heap'' (k + k') where
  next := by rw [h'.next, h.next, Nat.add_assoc]
  freed := h'.freed.trans h.freed
  keeps a block hblock := h'.keeps a block (h.keeps a block hblock)

theorem deny (heap : CHeap Block) : Extends heap heap.deny 0 :=
  ⟨rfl, rfl, fun _ _ h => h⟩

theorem grant (heap : CHeap Block) (block : Block) : Extends heap (heap.grant block) 1 where
  next := rfl
  freed := rfl
  keeps a block' h := by
    have hne : a ≠ heap.next := fun heq => by
      rw [heq, heap.fresh _ le_rfl] at h
      cases h
    rw [blocks_grant, Function.update_of_ne hne, h]

end Extends

end CHeap

end HiSysEvent
