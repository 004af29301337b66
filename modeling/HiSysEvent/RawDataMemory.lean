import HiSysEvent.CHeap
import HiSysEvent.While

/-!
# The growable byte buffer in memory

`RawDataObject` is a `RawData` as it lies in memory : `data_` is the address of a block.
Every read and write of a block is checked, so a program that has a result stayed within
the blocks that are allocated, and freed no block twice.

`RawDataObject.view` is the `RawData` that an object shows. A call on an object does to
what it shows the operation of `RawData`, and touches no block but those that the object
owns and new ones (`Calls`).
-/

namespace HiSysEvent

open Wire While

/-- Blocks of bytes under their addresses. -/
abbrev Memory := CHeap Bytes

namespace Memory

/-- What a pointer points to : a block, or bytes that a caller keeps elsewhere. -/
inductive Ptr where
  | block (p : ℕ)
  | outside (bs : Bytes)

/-- The bytes a pointer points to. -/
def bytes (m : Memory) : Ptr → Option Bytes
  | .block p => m.blocks p
  | .outside bs => some bs

/-- `new (std::nothrow) uint8_t[n]`. -/
def allocate (n : ℕ) : Program Memory (Option ℕ) :=
  fun m => some (m.new (newBuffer n))

/-- Read bytes. -/
def load (src : Ptr) (count : ℕ) : Program Memory Bytes := fun m =>
  match m.bytes src with
  | none => none
  | some bs => if count ≤ bs.length then some (bs.take count, m) else none

/-- Write bytes into a block. -/
def write (p off : ℕ) (bs : Bytes) : Program Memory Unit := fun m =>
  match m.blocks p with
  | none => none
  | some buf =>
    if off + bs.length ≤ buf.length then some ((), m.store p (overwrite buf off bs)) else none

/-- `delete[]`. -/
def free (p : ℕ) : Program Memory Unit := fun m =>
  match m.blocks p with
  | none => none
  | some _ => some ((), m.delete (some p))

/-- `memcpy_s(dest + off, destMax, src, count)`. -/
def memcpyS (dest off destMax : ℕ) (src : Ptr) (count : ℕ) : Program Memory Bool :=
  if count ≤ destMax then do
    let bs ← load src count
    write dest off bs
    return true
  else return false

variable {m : Memory}

theorem allocate_ends {n : ℕ} {Q : Option ℕ → Memory → Prop}
    (hgrant : m.alloc.next = true → Q (some m.next) (m.grant (newBuffer n)))
    (hdeny : m.alloc.next = false → Q none m.deny) : Ends (allocate n) m Q := by
  cases h : m.alloc.next with
  | true => exact ⟨_, _, congrArg some (m.new_of_next _ h), hgrant h⟩
  | false => exact ⟨_, _, congrArg some (m.new_of_not_next _ h), hdeny h⟩

theorem free_ends {p : ℕ} {buf : Bytes} (h : m.blocks p = some buf) {Q : Unit → Memory → Prop}
    (hQ : Q () (m.delete (some p))) : Ends (free p) m Q :=
  ⟨(), m.delete (some p), by simp only [StateT.run, free, h], hQ⟩

/-- A copy within the bounds of both blocks. -/
theorem memcpyS_ends {dest off destMax count : ℕ} {src : Ptr} {buf bs : Bytes}
    (hdest : m.blocks dest = some buf) (hsrc : m.bytes src = some bs) (hmax : count ≤ destMax)
    (hread : count ≤ bs.length) (hwrite : off + count ≤ buf.length) {Q : Bool → Memory → Prop}
    (hQ : Q true (m.store dest (overwrite buf off (bs.take count)))) :
    Ends (Memory.memcpyS dest off destMax src count) m Q := by
  refine Ends.ite (fun _ => Ends.bind ⟨bs.take count, m, ?_, Ends.bind ⟨(), _, ?_, Ends.pure hQ⟩⟩)
    fun h => absurd hmax h
  · simp only [StateT.run, load, hsrc, if_pos hread]
  · have hlen : (bs.take count).length = count := by rw [List.length_take, min_eq_left hread]
    simp only [StateT.run, write, hdest, hlen, if_pos hwrite]

theorem lt_next {p : ℕ} (h : (m.blocks p).isSome) : p < m.next := by
  by_contra hle
  rw [m.fresh p (by omega)] at h
  cases h

theorem blocks_store_self {p : ℕ} (buf : Bytes) (h : p < m.next) :
    (m.store p buf).blocks p = some buf := by
  rw [CHeap.blocks_store, if_pos ⟨rfl, h⟩]

theorem blocks_store_of_ne {p q : ℕ} (buf : Bytes) (h : q ≠ p) :
    (m.store p buf).blocks q = m.blocks q := by
  rw [CHeap.blocks_store, if_neg fun hand => h hand.1]

end Memory

/-- `data_`, `len_` and `capacity_`. -/
structure RawDataObject where
  data : Option ℕ := none
  len : ℕ := 0
  capacity : ℕ := 0

namespace RawDataObject

open Memory

/-- The default constructor. -/
def new : Program Memory RawDataObject := do
  match ← allocate expandBufSize with
  | none => return {}
  | some p => return { data := some p, len := 0, capacity := expandBufSize }

/-- The copy constructor. -/
def copy (d : RawDataObject) : Program Memory RawDataObject :=
  match d.data with
  | none => new
  | some rawData =>
    if d.len = 0 then new
    else do
      match ← allocate d.len with
      | none => return {}
      | some p =>
        let ok ← Memory.memcpyS p 0 d.len (.block rawData) d.len
        if ok then return { data := some p, len := d.len, capacity := d.len }
        else return { data := some p }

/-- `operator=`. Whether `this == &data` is `self`. -/
def assign (d data : RawDataObject) (self : Bool) : Program Memory RawDataObject :=
  if self then return d
  else
    match data.data with
    | none => return d
    | some rawData =>
      if data.len = 0 then return d
      else do
        match ← allocate data.len with
        | none => return d
        | some tmp =>
          let ok ← Memory.memcpyS tmp 0 data.len (.block rawData) data.len
          if ok then
            match d.data with
            | none => pure ()
            | some p => free p
            return { data := some tmp, len := data.len, capacity := data.len }
          else
            free tmp
            return d

/-- The end of `Update` : copy `len` bytes to `pos` of the block `p`. -/
def store (d : RawDataObject) (p : ℕ) (src : Ptr) (len pos : ℕ) :
    Program Memory (Bool × RawDataObject) := do
  let ok ← Memory.memcpyS p pos (d.capacity - pos) src len
  if ok then
    return (true, { d with data := some p, len := if pos + len > d.len then pos + len else d.len })
  else return (false, { d with data := some p })

/-- `Update` on memory. -/
def update (d : RawDataObject) (data : Option Ptr) (len pos : ℕ) :
    Program Memory (Bool × RawDataObject) :=
  match data, d.data with
  | some src, some buf =>
    if pos > d.len then return (false, d)
    else if pos + len > d.capacity then do
      let expandedSize := if len > expandBufSize then len else expandBufSize
      let expandedCapacity := d.capacity + expandedSize
      match ← allocate expandedCapacity with
      | none => return (false, d)
      | some resized =>
        let ok ← Memory.memcpyS resized 0 expandedCapacity (.block buf) d.len
        if ok then
          free buf
          store { d with capacity := expandedCapacity } resized src len pos
        else
          free resized
          return (false, d)
    else d.store buf src len pos
  | _, _ => return (false, d)

/-- `Append` on memory: an update at the end. -/
def append (d : RawDataObject) (data : Option Ptr) (len : ℕ) :
    Program Memory (Bool × RawDataObject) :=
  if len = 0 then return (true, d) else d.update data len d.len

/-- The object with the bytes of its block. -/
def view (m : Memory) (d : RawDataObject) : RawData where
  data := d.data.map fun p => (m.blocks p).getD []
  len := d.len
  capacity := d.capacity

/-- The object's block is allocated. -/
def Live (m : Memory) (d : RawDataObject) : Prop :=
  ∀ p, d.data = some p → (m.blocks p).isSome

/-- A call on `d` leaves it as `d'`, and touches no other object's block. -/
structure Calls (m m' : Memory) (d d' : RawDataObject) : Prop where
  live : d'.Live m'
  next : m.next ≤ m'.next
  keeps : ∀ p, p < m.next → d.data ≠ some p → m'.blocks p = m.blocks p
  owns : ∀ p, d'.data = some p → d.data = some p ∨ m.next ≤ p

variable {m : Memory} {d : RawDataObject}

theorem view_of_data {p : ℕ} (h : d.data = some p) {buf : Bytes} (hbuf : m.blocks p = some buf) :
    d.view m = { data := some buf, len := d.len, capacity := d.capacity } := by
  rw [view, h, Option.map_some, hbuf, Option.getD_some]

theorem Live.block (h : d.Live m) {p : ℕ} (hp : d.data = some p) :
    ∃ buf, m.blocks p = some buf ∧ p < m.next :=
  have hsome := h p hp
  ⟨_, (Option.some_get hsome).symm, Memory.lt_next hsome⟩

/-- A new block is none that an object owns. -/
theorem Live.next_ne (h : d.Live m) {p : ℕ} (hp : d.data = some p) : some m.next ≠ some p := by
  have := Memory.lt_next (h p hp)
  rw [ne_eq, Option.some.injEq]
  omega

theorem Live.blocks_grant (h : d.Live m) {p : ℕ} (hp : d.data = some p) (block : Bytes) :
    (m.grant block).blocks p = m.blocks p := by
  have := Memory.lt_next (h p hp)
  rw [CHeap.blocks_grant, Function.update_of_ne (by omega)]

theorem Live.blocks_move (h : d.Live m) {p : ℕ} (hp : d.data = some p) (block : Bytes) :
    ((m.grant block).delete (some p)).blocks m.next = some block := by
  rw [CHeap.blocks_delete, if_neg (h.next_ne hp), CHeap.blocks_grant, Function.update_self]

/-- The bytes of other objects' blocks stay. -/
theorem Calls.view {m' : Memory} {d' e : RawDataObject} (h : Calls m m' d d') (he : e.Live m)
    (hne : ∀ p, e.data = some p → d.data ≠ some p) : e.view m' = e.view m := by
  unfold RawDataObject.view
  congr 1
  cases hp : e.data with
  | none => rfl
  | some p => rw [Option.map_some, Option.map_some,
      h.keeps p (Memory.lt_next (he p hp)) (hne p hp)]

theorem Calls.live_other {m' : Memory} {d' e : RawDataObject} (h : Calls m m' d d')
    (he : e.Live m) (hne : ∀ p, e.data = some p → d.data ≠ some p) : e.Live m' := by
  intro p hp
  rw [h.keeps p (Memory.lt_next (he p hp)) (hne p hp)]
  exact he p hp

theorem Calls.refl (h : d.Live m) : Calls m m d d :=
  ⟨h, le_rfl, fun _ _ _ => rfl, fun _ hp => Or.inl hp⟩

/-- A call that was denied its memory. -/
theorem Calls.deny (h : d.Live m) : Calls m m.deny d d :=
  ⟨h, le_rfl, fun _ _ _ => rfl, fun _ hp => Or.inl hp⟩

/-- An object moves into a new block. -/
theorem Calls.grant (m : Memory) (d : RawDataObject) (block : Bytes) (len capacity : ℕ) :
    Calls m (m.grant block) d { data := some m.next, len := len, capacity := capacity } where
  live p hp := by
    rw [← Option.some.inj hp, CHeap.blocks_grant, Function.update_self]
    rfl
  next := Nat.le_succ m.next
  keeps p hp _ := by rw [CHeap.blocks_grant, Function.update_of_ne (by omega)]
  owns p hp := Or.inr (Option.some.inj hp).le

/-- An object moves into a new block, and its old one is freed. -/
theorem Calls.move (h : d.Live m) {p : ℕ} (hp : d.data = some p) (block : Bytes)
    (len capacity : ℕ) :
    Calls m ((m.grant block).delete (some p)) d
      { data := some m.next, len := len, capacity := capacity } where
  live q hq := by
    rw [← Option.some.inj hq, h.blocks_move hp]
    rfl
  next := Nat.le_succ m.next
  keeps q hq hne := by
    rw [CHeap.blocks_delete, if_neg (fun heq => hne (hp.trans heq.symm))]
    exact (Calls.grant m d block len capacity).keeps q hq hne
  owns q hq := Or.inr (Option.some.inj hq).le

/-- An object's block is written. -/
theorem Calls.store {m' : Memory} {d' : RawDataObject} (h : Calls m m' d d') {p : ℕ}
    (hp : d'.data = some p) (buf : Bytes) (len capacity : ℕ) :
    Calls m (m'.store p buf) d { data := some p, len := len, capacity := capacity } where
  live q hq := by
    rw [← Option.some.inj hq, Memory.blocks_store_self _ (Memory.lt_next (h.live p hp))]
    rfl
  next := h.next
  keeps q hq hne := by
    have hqp : q ≠ p := by
      rintro rfl
      rcases h.owns q hp with howned | hnew
      · exact hne howned
      · omega
    rw [Memory.blocks_store_of_ne _ hqp, h.keeps q hq hne]
  owns q hq := h.owns q (hp.trans hq)

/-! ## Calls -/

/-- What a call ends in : the object shows the value, and no other object was touched. -/
def Shows (m : Memory) (d : RawDataObject) (value : RawData × Alloc) (d' : RawDataObject)
    (m' : Memory) : Prop :=
  (d'.view m', m'.alloc) = value ∧ Calls m m' d d'

theorem new_ends (m : Memory) : Ends new m (Shows m {} (RawData.new m.alloc)) := by
  refine Ends.bind (Memory.allocate_ends (fun h => Ends.pure ⟨?_, ?_⟩) fun h => Ends.pure ⟨?_, ?_⟩)
  · rw [view_of_data rfl (Function.update_self _ _ _), RawData.new, if_pos h]
    rfl
  · exact Calls.grant m {} _ _ _
  · rw [RawData.new, if_neg (by simp [h])]
    rfl
  · exact Calls.deny fun p hp => by cases hp

/-- A copy into a new block of its size. -/
theorem memcpyS_new {src p : ℕ} {buf : Bytes} {count size : ℕ} (hsrc : m.blocks src = some buf)
    (hsize : count ≤ size) (hread : count ≤ buf.length) {Q : Bool → Memory → Prop}
    (hp : p = m.next) (hQ : Q true (m.grant (overwrite (newBuffer size) 0 (buf.take count)))) :
    Ends (Memory.memcpyS p 0 size (.block src) count) (m.grant (newBuffer size)) Q := by
  have hlt : src < m.next := Memory.lt_next (by rw [hsrc]; rfl)
  have hsrc' : Memory.bytes (m.grant (newBuffer size)) (.block src) = some buf := by
    rw [Memory.bytes, CHeap.blocks_grant, Function.update_of_ne (by omega), hsrc]
  subst hp
  refine Memory.memcpyS_ends (Function.update_self _ _ _) hsrc' hsize hread ?_ ?_
  · simpa [newBuffer] using hsize
  · rwa [CHeap.store_grant]

theorem copy_ends {d : RawDataObject} (h : d.Live m) (hs : (d.view m).Sound) :
    Ends d.copy m (Shows m {} ((d.view m).copy m.alloc)) := by
  unfold copy
  cases hp : d.data with
  | none =>
    have : (d.view m).data = none := by rw [view, hp, Option.map_none]
    simp only [RawData.copy, this]
    exact new_ends m
  | some p =>
    obtain ⟨buf, hbuf, -⟩ := h.block hp
    have hview := view_of_data hp hbuf
    rw [hview] at hs ⊢
    by_cases h0 : d.len = 0
    · simp only [RawData.copy, h0, if_true]
      exact new_ends m
    · have hle : d.len ≤ buf.length := by
        obtain ⟨⟨_, hbuf', hlen⟩, hle⟩ := hs.valid rfl
        rwa [Option.some.inj hbuf', hlen]
      simp only [RawData.copy, if_neg h0]
      refine Ends.bind (Memory.allocate_ends (fun ha => Ends.bind ?_) fun ha => Ends.pure ⟨?_, ?_⟩)
      · refine memcpyS_new hbuf le_rfl hle rfl (Ends.pure ⟨?_, Calls.grant m {} _ _ _⟩)
        rw [view_of_data rfl (Function.update_self _ _ _)]
        simp only [ha, if_true, HiSysEvent.memcpyS, le_refl]
        rfl
      · simp only [ha, Bool.false_eq_true, if_false]
        rfl
      · exact Calls.deny fun p hp => by cases hp

theorem assign_ends {d b : RawDataObject} (hd : d.Live m) (hb : b.Live m) (hs : (b.view m).Sound)
    (self : Bool) :
    Ends (d.assign b self) m (Shows m d ((d.view m).assign (b.view m) self m.alloc)) := by
  have hstays : Shows m d (d.view m, m.alloc) d m := ⟨rfl, Calls.refl hd⟩
  by_cases h0 : b.len = 0
  · rw [RawData.assign_empty h0]
    unfold assign
    simp only [h0, if_true]
    refine Ends.ite (fun _ => Ends.pure hstays) fun _ => ?_
    cases b.data <;> exact Ends.pure hstays
  cases self with
  | true => exact Ends.pure hstays
  | false =>
    unfold assign
    simp only [RawData.assign, Bool.false_eq_true, if_false]
    cases hp : b.data with
    | none =>
      have : (b.view m).data = none := by rw [view, hp, Option.map_none]
      simp only [this]
      exact Ends.pure hstays
    | some p =>
      obtain ⟨buf, hbuf, -⟩ := hb.block hp
      have hview := view_of_data hp hbuf
      rw [hview] at hs ⊢
      have hle : b.len ≤ buf.length := by
        obtain ⟨⟨_, hbuf', hlen⟩, hle⟩ := hs.valid rfl
        rwa [Option.some.inj hbuf', hlen]
      simp only [if_neg h0]
      refine Ends.bind (Memory.allocate_ends (fun ha => Ends.bind ?_) fun ha => Ends.pure ⟨?_, ?_⟩)
      · refine memcpyS_new hbuf le_rfl hle rfl ?_
        simp only [ha, if_true, HiSysEvent.memcpyS, le_refl]
        cases hq : d.data with
        | none =>
          refine Ends.bind (Ends.pure (Ends.pure ⟨?_, Calls.grant m d _ _ _⟩))
          rw [view_of_data rfl (Function.update_self _ _ _)]
          rfl
        | some q =>
          obtain ⟨old, hold, -⟩ := hd.block hq
          refine Ends.bind (Memory.free_ends ((hd.blocks_grant hq _).trans hold)
            (Ends.pure ⟨?_, Calls.move hd hq _ _ _⟩))
          rw [view_of_data rfl (hd.blocks_move hq _)]
          rfl
      · simp only [ha, Bool.false_eq_true, if_false]
        rfl
      · exact Calls.deny hd

/-- The write at the end of `Update`. -/
theorem store_ends {d : RawDataObject} {p : ℕ} {buf bs : Bytes} {pos : ℕ}
    (hp : m.blocks p = some buf) (hfit : pos + bs.length ≤ buf.length)
    (hcap : buf.length = d.capacity) {Q : Bool × RawDataObject → Memory → Prop}
    (hQ : ∀ len, len = (if pos + bs.length > d.len then pos + bs.length else d.len) →
      Q (true, { data := some p, len := len, capacity := d.capacity })
        (m.store p (overwrite buf pos bs))) :
    Ends (d.store p (.outside bs) bs.length pos) m Q := by
  refine Ends.bind (Memory.memcpyS_ends hp rfl (by omega) le_rfl hfit ?_)
  rw [List.take_length]
  exact Ends.pure (hQ _ rfl)

theorem update_ends {d : RawDataObject} (h : d.Live m) (hs : (d.view m).Sound)
    (data : Option Bytes) (len pos : ℕ) (hsized : ∀ bs, data = some bs → bs.length = len) :
    Ends (d.update (data.map .outside) len pos) m fun r m' =>
      r.1 = ((d.view m).update data len pos m.alloc).1 ∧
        Shows m d ((d.view m).update data len pos m.alloc).2 r.2 m' := by
  have hstays : Shows m d (d.view m, m.alloc) d m := ⟨rfl, Calls.refl h⟩
  cases data with
  | none => exact Ends.pure ⟨rfl, hstays⟩
  | some bs =>
    cases hp : d.data with
    | none =>
      have : (d.view m).data = none := by rw [view, hp, Option.map_none]
      simp only [update, RawData.update, Option.map_some, hp, this]
      exact Ends.pure ⟨rfl, hstays⟩
    | some p =>
      obtain ⟨buf, hbuf, hlt⟩ := h.block hp
      have hview := view_of_data hp hbuf
      obtain rfl := hsized bs rfl
      rw [hview] at hs hstays ⊢
      have hcap : buf.length = d.capacity := by
        obtain ⟨⟨_, hbuf', hlen⟩, -⟩ := hs.valid rfl
        rwa [Option.some.inj hbuf']
      have hle : d.len ≤ buf.length := by
        rw [hcap]
        exact (hs.valid rfl).len_le
      simp only [update, RawData.update, Option.map_some, hp]
      by_cases hpos : pos > d.len
      · simp only [if_pos hpos]
        exact Ends.pure ⟨rfl, hstays⟩
      simp only [if_neg hpos]
      by_cases hfull : pos + bs.length > d.capacity
      · simp only [if_pos hfull, RawData.expansion_eq]
        have hexp : bs.length ≤ RawData.expansion bs.length := le_max_left _ _
        refine Ends.bind (Memory.allocate_ends (fun ha => Ends.bind ?_) fun ha => Ends.pure ?_)
        · -- the old bytes go to the new block, then the old block is freed
          have hold : d.len ≤ d.capacity + RawData.expansion bs.length := by omega
          refine memcpyS_new hbuf hold hle rfl
            (Ends.bind (Memory.free_ends ((h.blocks_grant hp _).trans hbuf) ?_))
          have hgrown : (overwrite (newBuffer (d.capacity + RawData.expansion bs.length)) 0
              (buf.take d.len)).length = d.capacity + RawData.expansion bs.length := by
            rw [length_overwrite (Nat.zero_le _), newBuffer, List.length_replicate,
              List.length_take]
            omega
          refine store_ends (h.blocks_move hp _) (by omega) hgrown fun len hlen => ?_
          have hwrite : bs.length ≤ d.capacity + RawData.expansion bs.length - pos := by omega
          simp only [ha, if_true, HiSysEvent.memcpyS, if_pos hold, RawData.store, if_pos hwrite,
            List.take_length, ← hlen]
          refine ⟨trivial, ?_, (Calls.move h hp _ len d.capacity).store rfl _ _ _⟩
          have hlt' : m.next < m.next + 1 := Nat.lt_succ_self _
          rw [view_of_data rfl (Memory.blocks_store_self _ hlt')]
          rfl
        · simp only [ha, Bool.false_eq_true, if_false, ← hview]
          exact ⟨trivial, rfl, Calls.deny h⟩
      · simp only [if_neg hfull]
        refine store_ends hbuf (by omega) hcap fun len hlen => ?_
        simp only [← hlen, RawData.store, HiSysEvent.memcpyS, List.take_length]
        rw [if_pos (by omega)]
        refine ⟨rfl, ?_, (Calls.refl h).store hp _ _ _⟩
        rw [view_of_data rfl (Memory.blocks_store_self _ hlt)]
        rfl

theorem append_ends {d : RawDataObject} (h : d.Live m) (hs : (d.view m).Sound)
    (data : Option Bytes) (len : ℕ) (hsized : ∀ bs, data = some bs → bs.length = len) :
    Ends (d.append (data.map .outside) len) m fun r m' =>
      r.1 = ((d.view m).append data len m.alloc).1 ∧
        Shows m d ((d.view m).append data len m.alloc).2 r.2 m' := by
  by_cases h0 : len = 0
  · simp only [append, RawData.append, if_pos h0]
    exact Ends.pure ⟨rfl, rfl, Calls.refl h⟩
  · simp only [append, RawData.append, if_neg h0]
    exact update_ends h hs data len d.len hsized

end RawDataObject

end HiSysEvent
