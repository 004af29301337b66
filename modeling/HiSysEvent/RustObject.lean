import Mathlib.Logic.Function.Basic
import HiSysEvent.Def

/-!
# The Rust queriers and watchers

`HiSysEventRustQuerierC` and `HiSysEventRustWatcherC` hold two callbacks and a status. A
`HiSysEventRustQuerier` or `HiSysEventRustListener`, here a handle, keeps a pointer to one of them.
The status is meant to count to two : whoever gives the object up first, Rust or the last handle,
marks it (`recycle`), and who gives it up second deletes it.

An access of an object that was deleted is a fault. As long as each object has at most one
handle at a time, there is none (`Sane`).
-/

namespace HiSysEvent

/-! ## Objects -/

/-- The status flag of an object. -/
inductive Status
  | memFreed
  | memNeedRecycle
  | normal
  deriving DecidableEq

/-- A pointer to an object, with the fields that never change. -/
structure RustObject where
  addr : ℕ
  callbacks : ℕ × ℕ
  wrapperCbs : ℕ × ℕ
  deriving DecidableEq

/-- A `HiSysEventRustQuerier` or `HiSysEventRustListener` by its address. -/
structure RustHandle where
  addr : ℕ
  object : RustObject
  deriving DecidableEq

/-- The status of each object that is not deleted, and the handles that are not destroyed. -/
structure RustHeap where
  next : ℕ
  status : RustObject → Option Status
  handles : List RustHandle
  fault : Bool

namespace RustHeap

/-- The heap before any object. -/
def init : RustHeap :=
  ⟨0, fun _ => none, [], false⟩

/-- `CreateRustEventQuerier` and `CreateRustEventWatcher`. -/
def createObject (onRustCb onWrapperCb onRustCb' onWrapperCb' : Option ℕ) (granted : Bool)
    (heap : RustHeap) : Option RustObject × RustHeap :=
  match onRustCb, onWrapperCb, onRustCb', onWrapperCb' with
  | some cb, some wrapper, some cb', some wrapper' =>
    if granted then
      let object : RustObject := ⟨heap.next, (cb, cb'), (wrapper, wrapper')⟩
      (some object, { heap with
        next := heap.next + 1
        status := Function.update heap.status object (some .normal) })
    else (none, heap)
  | _, _, _, _ => (none, heap)

/-- A field is read. -/
def touch (object : RustObject) (heap : RustHeap) : RustHeap :=
  if heap.status object = none then { heap with fault := true } else heap

/-- `RecycleQuerier` and `RecycleWatcher`. -/
def recycle (object : Option RustObject) (heap : RustHeap) : RustHeap :=
  match object with
  | none => heap
  | some o =>
    match heap.status o with
    | none => { heap with fault := true }
    | some .memFreed => heap
    | some .memNeedRecycle =>
      -- the status is set to `memFreed`, and then the object is deleted
      { heap with status := Function.update heap.status o none }
    | some .normal =>
      { heap with status := Function.update heap.status o (some .memNeedRecycle) }

/-- The constructor of a handle. -/
def newHandle (object : RustObject) (heap : RustHeap) : RustHandle × RustHeap :=
  (⟨heap.next, object⟩, { heap with
    next := heap.next + 1
    handles := ⟨heap.next, object⟩ :: heap.handles })

/-- The destructor of a handle. -/
def destroy (x : RustHandle) (heap : RustHeap) : RustHeap :=
  if x ∈ heap.handles then
    { heap with handles := heap.handles.filter (· ≠ x) }.recycle (some x.object)
  else { heap with fault := true }

@[simp] theorem handles_recycle (object : Option RustObject) (heap : RustHeap) :
    (heap.recycle object).handles = heap.handles := by
  cases object with
  | none => rfl
  | some o =>
    rw [recycle]
    split <;> rfl

/-- The other handles stay. -/
theorem mem_handles_destroy {x y : RustHandle} {heap : RustHeap} (hy : y ∈ heap.handles)
    (hne : y ≠ x) : y ∈ (heap.destroy x).handles := by
  rw [destroy]
  split
  · rw [handles_recycle]
    exact List.mem_filter.2 ⟨hy, by simpa using hne⟩
  · exact hy

/-! ## The invariant -/

/-- Nothing that Rust owns or a handle refers to is deleted, each object has at most one handle,
and an object that both refer to was not given up. -/
structure Sane (owned : List RustObject) (heap : RustHeap) : Prop where
  noFault : heap.fault = false
  ownedAlive : ∀ o ∈ owned, heap.status o ≠ none
  handlesAlive : ∀ x ∈ heap.handles, heap.status x.object ≠ none
  unique : ∀ x ∈ heap.handles, ∀ y ∈ heap.handles, x.object = y.object → x = y
  normal : ∀ x ∈ heap.handles, x.object ∈ owned → heap.status x.object = some .normal
  notFreed : ∀ o, heap.status o ≠ some .memFreed
  fresh : ∀ o, heap.next ≤ o.addr → heap.status o = none

theorem sane_init : init.Sane [] where
  noFault := rfl
  ownedAlive o h := absurd h List.not_mem_nil
  handlesAlive x h := absurd h List.not_mem_nil
  unique x h := absurd h List.not_mem_nil
  normal x h := absurd h List.not_mem_nil
  notFreed o := by simp [init]
  fresh o _ := rfl

variable {owned : List RustObject} {heap : RustHeap}

/-- A new object, which Rust owns. -/
theorem Sane.create (h : heap.Sane owned) (object : RustObject) (haddr : object.addr = heap.next) :
    RustHeap.Sane (object :: owned) { heap with
      next := heap.next + 1
      status := Function.update heap.status object (some .normal) } := by
  have hold : ∀ {o : RustObject}, heap.status o ≠ none → o ≠ object := fun ho heq =>
    ho (h.fresh _ (by rw [heq, haddr]))
  have hkeep : ∀ {o : RustObject}, heap.status o ≠ none →
      Function.update heap.status object (some .normal) o = heap.status o :=
    fun ho => Function.update_of_ne (hold ho) _ _
  refine ⟨h.noFault, ?_, ?_, h.unique, ?_, ?_, ?_⟩
  · intro o ho
    rcases List.mem_cons.1 ho with rfl | ho
    · simp
    · dsimp only
      rw [hkeep (h.ownedAlive o ho)]
      exact h.ownedAlive o ho
  · intro x hx
    dsimp only
    rw [hkeep (h.handlesAlive x hx)]
    exact h.handlesAlive x hx
  · intro x hx ho
    have hmem : x.object ∈ owned :=
      (List.mem_cons.1 ho).resolve_left (hold (h.handlesAlive x hx))
    exact (hkeep (h.handlesAlive x hx)).trans (h.normal x hx hmem)
  · intro o
    by_cases ho : o = object
    · simp [ho]
    · exact (Function.update_of_ne ho _ _).trans_ne (h.notFreed o)
  · intro o ho
    have hne : o ≠ object := fun heq => by
      rw [heq, haddr] at ho
      exact absurd ho (Nat.not_succ_le_self _)
    exact (Function.update_of_ne hne _ _).trans (h.fresh o (Nat.le_of_succ_le ho))

/-- Either no object is created, or a new one. -/
theorem createObject_cases (cb wrapper cb' wrapper' : Option ℕ) (granted : Bool)
    (heap : RustHeap) : heap.createObject cb wrapper cb' wrapper' granted = (none, heap) ∨
      ∃ object : RustObject, object.addr = heap.next ∧
        heap.createObject cb wrapper cb' wrapper' granted = (some object, { heap with
          next := heap.next + 1
          status := Function.update heap.status object (some .normal) }) := by
  unfold createObject
  split
  · split
    case isTrue => exact Or.inr ⟨_, rfl, rfl⟩
    case isFalse => exact Or.inl rfl
  · exact Or.inl rfl

/-- A handle of an object that was not given up and has none. -/
theorem Sane.newHandle (h : heap.Sane owned) {object : RustObject}
    (hstatus : heap.status object = some .normal)
    (hnone : ∀ x ∈ heap.handles, x.object ≠ object) :
    (heap.newHandle object).2.Sane owned := by
  refine ⟨h.noFault, h.ownedAlive, ?_, ?_, ?_, h.notFreed,
    fun o ho => h.fresh o (Nat.le_of_succ_le ho)⟩
  · intro x hx
    rcases List.mem_cons.1 hx with rfl | hx
    · exact fun hnone => absurd (hstatus.symm.trans hnone) (by simp)
    · exact h.handlesAlive x hx
  · intro x hx y hy heq
    rcases List.mem_cons.1 hx with rfl | hx' <;> rcases List.mem_cons.1 hy with rfl | hy'
    · rfl
    · exact absurd heq.symm (hnone y hy')
    · exact absurd heq (hnone x hx')
    · exact h.unique x hx' y hy' heq
  · intro x hx ho
    rcases List.mem_cons.1 hx with rfl | hx
    · exact hstatus
    · exact h.normal x hx ho

/-- What `recycle` does to an object that is not deleted. -/
theorem recycle_eq (h : heap.Sane owned) {o : RustObject} (ho : heap.status o ≠ none) :
    heap.recycle (some o) = { heap with
      status := Function.update heap.status o
        (if heap.status o = some .normal then some .memNeedRecycle else none) } := by
  cases hstatus : heap.status o with
  | none => exact absurd hstatus ho
  | some status =>
    cases status with
    | memFreed => exact absurd hstatus (h.notFreed o)
    | memNeedRecycle => simp [recycle, hstatus]
    | normal => simp [recycle, hstatus]

/-- Who gives an object up leaves it to the other, if there is one. -/
theorem Sane.update (h : heap.Sane owned) {o : RustObject} {owned' : List RustObject}
    {handles' : List RustHandle} (howned : ∀ p ∈ owned', p ∈ owned)
    (hhandles : ∀ x ∈ handles', x ∈ heap.handles)
    (hboth : ∀ x ∈ handles', x.object = o → o ∉ owned')
    (hother : o ∈ owned' ∨ (∃ x ∈ handles', x.object = o) → heap.status o = some .normal) :
    RustHeap.Sane owned' { heap with
      handles := handles'
      status := Function.update heap.status o
        (if heap.status o = some .normal then some .memNeedRecycle else none) } := by
  have hkeep : ∀ {p : RustObject}, (p ∈ owned' ∨ ∃ x ∈ handles', x.object = p) →
      heap.status p ≠ none → Function.update heap.status o
        (if heap.status o = some .normal then some .memNeedRecycle else none) p ≠ none :=
    fun {p} href hp => by
      by_cases hpo : p = o
      · subst hpo
        simp [hother href]
      · rwa [Function.update_of_ne hpo]
  refine ⟨h.noFault, fun p hp => hkeep (Or.inl hp) (h.ownedAlive p (howned p hp)), fun x hx =>
    hkeep (Or.inr ⟨x, hx, rfl⟩) (h.handlesAlive x (hhandles x hx)), fun x hx y hy =>
    h.unique x (hhandles x hx) y (hhandles y hy), ?_, ?_, ?_⟩
  · intro x hx hp
    have hne : x.object ≠ o := fun heq => hboth x hx heq (heq ▸ hp)
    exact (Function.update_of_ne hne _ _).trans (h.normal x (hhandles x hx) (howned _ hp))
  · intro p
    by_cases hpo : p = o
    · subst hpo
      dsimp only
      rw [Function.update_self]
      split <;> simp
    · exact (Function.update_of_ne hpo _ _).trans_ne (h.notFreed p)
  · intro p hp
    by_cases hpo : p = o
    · subst hpo
      simp [h.fresh p hp]
    · exact (Function.update_of_ne hpo _ _).trans (h.fresh p hp)

/-- A handle is destroyed. -/
theorem Sane.destroy (h : heap.Sane owned) {x : RustHandle} (hx : x ∈ heap.handles) :
    (heap.destroy x).Sane owned := by
  have hrest : ∀ y ∈ heap.handles.filter (· ≠ x), y ∈ heap.handles ∧ y.object ≠ x.object :=
    fun y hy => by
      rw [List.mem_filter, decide_eq_true_eq] at hy
      exact ⟨hy.1, fun heq => hy.2 (h.unique y hy.1 x hx heq)⟩
  have hfiltered : RustHeap.Sane owned { heap with handles := heap.handles.filter (· ≠ x) } :=
    ⟨h.noFault, h.ownedAlive, fun y hy => h.handlesAlive y (hrest y hy).1, fun y hy z hz =>
      h.unique y (hrest y hy).1 z (hrest z hz).1, fun y hy => h.normal y (hrest y hy).1,
      h.notFreed, h.fresh⟩
  rw [RustHeap.destroy, if_pos hx, recycle_eq hfiltered (h.handlesAlive x hx)]
  refine h.update (fun _ hp => hp) (fun y hy => (hrest y hy).1)
    (fun y hy heq => absurd heq (hrest y hy).2) ?_
  rintro (ho | ⟨y, hy, heq⟩)
  · exact h.normal x hx ho
  · exact absurd heq (hrest y hy).2

/-- Rust gives an object up. -/
theorem Sane.recycle (h : heap.Sane owned) {o : RustObject} (ho : o ∈ owned) :
    (heap.recycle (some o)).Sane (owned.filter (· ≠ o)) := by
  have hmem : ∀ p ∈ owned.filter (· ≠ o), p ∈ owned ∧ p ≠ o := fun p hp => by
    rwa [List.mem_filter, decide_eq_true_eq] at hp
  rw [recycle_eq h (h.ownedAlive o ho)]
  refine h.update (fun p hp => (hmem p hp).1) (fun _ hx => hx)
    (fun x _ _ hp => (hmem o hp).2 rfl) ?_
  rintro (hp | ⟨x, hx, rfl⟩)
  · exact absurd rfl (hmem o hp).2
  · exact h.normal x hx ho

/-- Rust forgets an object without giving it up. -/
theorem Sane.forget (h : heap.Sane owned) (o : RustObject) :
    heap.Sane (owned.filter (· ≠ o)) := by
  have hmem : ∀ p ∈ owned.filter (· ≠ o), p ∈ owned := fun p hp => (List.mem_filter.1 hp).1
  exact ⟨h.noFault, fun p hp => h.ownedAlive p (hmem p hp), h.handlesAlive, h.unique,
    fun x hx hp => h.normal x hx (hmem _ hp), h.notFreed, h.fresh⟩

theorem touch_eq {o : RustObject} (h : heap.status o ≠ none) : heap.touch o = heap :=
  if_neg h

end RustHeap

end HiSysEvent
