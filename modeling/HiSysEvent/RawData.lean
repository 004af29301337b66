import HiSysEvent.Def

/-!
# The growable byte buffer

`RawData` holds the block of an event while it is encoded : a buffer, the number of its
bytes in use and its size. `RawData.update` writes bytes at a position, growing the
buffer when they do not fit, and `RawData.append` writes at the end.

The buffer grows through `new (std::nothrow)`, which may fail at every call. An `Alloc`
is the sequence of its coming outcomes. `RawData.Valid` is the invariant of a buffer
that could be allocated, `RawData.content` the bytes in use. A write that needs no
growth, or is granted it, overwrites the content (`RawData.update_fits`,
`RawData.update_grows`), a refused one leaves the object as it was
(`RawData.update_refused`).
-/

namespace HiSysEvent

open Wire

/-! ## Memory -/

/-- The outcomes of the coming `new (std::nothrow)` calls. -/
abbrev Alloc := ℕ → Bool

namespace Alloc

/-- The outcome of the next call. -/
def next (a : Alloc) : Bool :=
  a 0

/-- The outcomes after the next `n` calls. -/
def drop (a : Alloc) (n : ℕ) : Alloc :=
  fun i => a (n + i)

/-- Every call succeeds. -/
def always : Alloc :=
  fun _ => true

@[simp] theorem next_always : always.next = true :=
  rfl

@[simp] theorem drop_always (n : ℕ) : always.drop n = always :=
  rfl

@[simp] theorem drop_zero (a : Alloc) : a.drop 0 = a :=
  funext fun i => by simp [drop]

theorem drop_drop (a : Alloc) (m n : ℕ) : (a.drop m).drop n = a.drop (m + n) :=
  funext fun i => by simp [drop, Nat.add_assoc]

end Alloc

/-- Freshly allocated memory. Its bytes are never read before they are written. -/
def newBuffer (n : ℕ) : Bytes :=
  List.replicate n 0

/-- `memcpy_s(dest + off, destMax, src, count)`, `none` on an error. -/
def memcpyS (dest : Bytes) (off destMax : ℕ) (src : Bytes) (count : ℕ) : Option Bytes :=
  if count ≤ destMax then some (overwrite dest off (src.take count)) else none

/-! ## The buffer -/

abbrev expandBufSize : ℕ := 128

/-- `data_`, `len_` and `capacity_`. -/
structure RawData where
  data : Option Bytes := none
  len : ℕ := 0
  capacity : ℕ := 0

namespace RawData

/-- The default constructor. -/
def new (a : Alloc) : RawData × Alloc :=
  if a.next then ({ data := some (newBuffer expandBufSize), len := 0, capacity := expandBufSize },
    a.drop 1)
  else ({}, a.drop 1)

/-- The copy constructor. -/
def copy (d : RawData) (a : Alloc) : RawData × Alloc :=
  match d.data with
  | none => new a
  | some buf =>
    if d.len = 0 then new a
    else if a.next then
      match memcpyS (newBuffer d.len) 0 d.len buf d.len with
      | none => ({ data := some (newBuffer d.len) }, a.drop 1)
      | some buf' => ({ data := some buf', len := d.len, capacity := d.len }, a.drop 1)
    else ({}, a.drop 1)

/-- `operator=`. Whether `this == &data` is `self`. -/
def assign (d data : RawData) (self : Bool) (a : Alloc) : RawData × Alloc :=
  if self then (d, a)
  else
    match data.data with
    | none => (d, a)
    | some buf =>
      if data.len = 0 then (d, a)
      else if a.next then
        match memcpyS (newBuffer data.len) 0 data.len buf data.len with
        | none => (d, a.drop 1)
        | some tmp => ({ data := some tmp, len := data.len, capacity := data.len }, a.drop 1)
      else (d, a.drop 1)

/-- `IsEmpty`. -/
def isEmpty (d : RawData) : Bool :=
  d.len == 0 || d.data.isNone

/-- The end of `Update` : copy `len` bytes to `pos` of the buffer `buf`. -/
def store (d : RawData) (buf src : Bytes) (len pos : ℕ) : Bool × RawData :=
  match memcpyS buf pos (d.capacity - pos) src len with
  | none => (false, { d with data := some buf })
  | some buf' =>
    (true, { d with data := some buf', len := if pos + len > d.len then pos + len else d.len })

/-- Write `len` bytes of `data` at `pos`. A null pointer is `none`. -/
def update (d : RawData) (data : Option Bytes) (len pos : ℕ) (a : Alloc) :
    Bool × RawData × Alloc :=
  match data, d.data with
  | some src, some buf =>
    if pos > d.len then (false, d, a)
    else if pos + len > d.capacity then
      let expandedSize := if len > expandBufSize then len else expandBufSize
      let expandedCapacity := d.capacity + expandedSize
      if a.next then
        match memcpyS (newBuffer expandedCapacity) 0 expandedCapacity buf d.len with
        | none => (false, d, a.drop 1)
        | some resized =>
          let r := store { d with capacity := expandedCapacity } resized src len pos
          (r.1, r.2, a.drop 1)
      else (false, d, a.drop 1)
    else
      let r := d.store buf src len pos
      (r.1, r.2, a)
  | _, _ => (false, d, a)

/-- `Append`: an update at the end. -/
def append (d : RawData) (data : Option Bytes) (len : ℕ) (a : Alloc) : Bool × RawData × Alloc :=
  if len = 0 then (true, d, a) else d.update data len d.len a

/-! ## Content and invariant -/

/-- The bytes in use. -/
def content (d : RawData) : Bytes :=
  (d.data.getD []).take d.len

/-- The buffer could be allocated, has `capacity` bytes, and holds the bytes in use. -/
structure Valid (d : RawData) : Prop where
  buffer : ∃ buf, d.data = some buf ∧ buf.length = d.capacity
  len_le : d.len ≤ d.capacity

theorem Valid.length_content {d : RawData} (h : d.Valid) : d.content.length = d.len := by
  obtain ⟨buf, hbuf, hlen⟩ := h.buffer
  simp [content, hbuf, hlen, h.len_le]

/-- What the expansion step adds to the capacity for a write of `len` bytes. -/
def expansion (len : ℕ) : ℕ :=
  max len expandBufSize

theorem expansion_eq (len : ℕ) :
    (if len > expandBufSize then len else expandBufSize) = expansion len := by
  unfold expansion
  split_ifs <;> omega

theorem store_spec {d : RawData} {buf : Bytes} (src : Bytes) {pos : ℕ} (hbuf : buf.length = d.capacity)
    (hpos : pos ≤ d.len) (hfit : pos + src.length ≤ d.capacity) (hlen : d.len ≤ d.capacity) :
    ∃ d', d.store buf src src.length pos = (true, d') ∧ d'.Valid ∧
      d'.capacity = d.capacity ∧ d'.content = overwrite (buf.take d.len) pos src := by
  have hmax : (if pos + src.length > d.len then pos + src.length else d.len) =
      max d.len (pos + src.length) := by
    split_ifs <;> omega
  refine ⟨{ d with data := some (overwrite buf pos src), len := max d.len (pos + src.length) },
    ?_, ⟨⟨_, rfl, ?_⟩, ?_⟩, rfl, ?_⟩
  · simp only [store, memcpyS]
    rw [if_pos (by omega), List.take_length, hmax]
  · rw [length_overwrite (by omega), hbuf]
    exact max_eq_left hfit
  · exact max_le hlen hfit
  · exact take_overwrite hpos (by omega)

/-- A write that fits overwrites the content. -/
theorem update_fits {d : RawData} (h : d.Valid) (src : Bytes) {pos : ℕ} (hpos : pos ≤ d.len)
    (hfit : pos + src.length ≤ d.capacity) (a : Alloc) :
    ∃ d', d.update (some src) src.length pos a = (true, d', a) ∧ d'.Valid ∧
      d'.capacity = d.capacity ∧ d'.content = overwrite d.content pos src := by
  obtain ⟨buf, hbuf, hlen⟩ := h.buffer
  obtain ⟨d', hst, hv, hc, hcont⟩ := store_spec src hlen hpos hfit h.len_le
  refine ⟨d', ?_, hv, hc, by rw [hcont, content, hbuf, Option.getD_some]⟩
  simp only [update, hbuf]
  rw [if_neg (by omega), if_neg (by omega), hst]

/-- A write past the capacity overwrites the content once the buffer is grown. -/
theorem update_grows {d : RawData} (h : d.Valid) {src : Bytes} {pos : ℕ} (hpos : pos ≤ d.len)
    (hfull : d.capacity < pos + src.length) {a : Alloc} (ha : a.next = true) :
    ∃ d', d.update (some src) src.length pos a = (true, d', a.drop 1) ∧ d'.Valid ∧
      d'.capacity = d.capacity + expansion src.length ∧
      d'.content = overwrite d.content pos src := by
  obtain ⟨buf, hbuf, hlen⟩ := h.buffer
  have hle := h.len_le
  have hexp : src.length ≤ expansion src.length := le_max_left _ _
  have hres : (overwrite (newBuffer (d.capacity + expansion src.length)) 0
      (buf.take d.len)).length = d.capacity + expansion src.length := by
    rw [length_overwrite (Nat.zero_le _)]
    simp only [newBuffer, List.length_replicate, List.length_take]
    omega
  obtain ⟨d', hst, hv, hc, hcont⟩ :=
    store_spec (d := { d with capacity := d.capacity + expansion src.length }) src
      hres hpos (by simp only; omega) (by simp only; omega)
  refine ⟨d', ?_, hv, hc, ?_⟩
  · simp only [update, hbuf, memcpyS, expansion_eq]
    rw [if_neg (by omega), if_pos hfull, if_pos ha, if_pos (by omega)]
    rw [hbuf] at hst
    simp only [hst]
  · have htake : (overwrite (newBuffer (d.capacity + expansion src.length)) 0
        (buf.take d.len)).take d.len = buf.take d.len := by
      simp [overwrite, List.length_take, hlen, hle]
    rw [hcont, htake, content, hbuf, Option.getD_some]

/-- A refused growth changes nothing. -/
theorem update_refused {d : RawData} (h : d.Valid) {src : Bytes} {pos : ℕ} (hpos : pos ≤ d.len)
    (hfull : d.capacity < pos + src.length) {a : Alloc} (ha : a.next = false) :
    d.update (some src) src.length pos a = (false, d, a.drop 1) := by
  obtain ⟨buf, hbuf, -⟩ := h.buffer
  simp only [update, hbuf]
  rw [if_neg (by omega), if_pos hfull, if_neg (by simp [ha])]

/-! ## Construction -/

theorem valid_new {a : Alloc} (ha : a.next = true) : (new a).1.Valid ∧ (new a).1.content = [] ∧
    (new a).1.capacity = expandBufSize := by
  simp only [new, ha, if_true]
  exact ⟨⟨⟨_, rfl, by simp [newBuffer]⟩, by simp⟩, by simp [content], trivial⟩

theorem copy_alloc_always (d : RawData) : (d.copy Alloc.always).2 = Alloc.always := by
  unfold copy new
  cases d.data with
  | none => rfl
  | some buf =>
    by_cases h : d.len = 0
    · simp only [h, if_true]
      rfl
    · simp only [h, if_false, Alloc.next_always, if_true]
      cases memcpyS (newBuffer d.len) 0 d.len buf d.len <;> rfl

/-- A copy has the same content. -/
theorem copy_spec {d : RawData} (h : d.Valid) {a : Alloc} (ha : a.next = true) :
    (d.copy a).1.Valid ∧ (d.copy a).1.content = d.content := by
  obtain ⟨buf, hbuf, hlen⟩ := h.buffer
  have hle := h.len_le
  by_cases h0 : d.len = 0
  · have hnew := valid_new ha
    have : d.content = [] := by simp [content, h0]
    simp only [copy, hbuf, h0, if_true]
    exact ⟨hnew.1, by rw [hnew.2.1, this]⟩
  · have hbytes : overwrite (newBuffer d.len) 0 (buf.take d.len) = buf.take d.len := by
      simp [overwrite, newBuffer, hlen, hle]
    simp only [copy, hbuf, h0, if_false, ha, if_true, memcpyS, le_refl, hbytes]
    exact ⟨⟨⟨_, rfl, by simp [hlen, hle]⟩, le_refl _⟩,
      by simp only [content, hbuf, Option.getD_some, List.take_take, min_self]⟩

/-- An assignment copies the bytes in use, if there are some. -/
theorem assign_spec {b : RawData} (h : b.Valid) (h0 : b.len ≠ 0) (d : RawData) {a : Alloc}
    (ha : a.next = true) :
    (d.assign b false a).1.Valid ∧ (d.assign b false a).1.content = b.content := by
  obtain ⟨buf, hbuf, hlen⟩ := h.buffer
  have hle := h.len_le
  have hbytes : overwrite (newBuffer b.len) 0 (buf.take b.len) = buf.take b.len := by
    simp [overwrite, newBuffer, hlen, hle]
  simp only [assign, Bool.false_eq_true, hbuf, h0, if_false, ha, if_true, memcpyS, le_refl, hbytes]
  exact ⟨⟨⟨_, rfl, by simp [hlen, hle]⟩, le_refl _⟩,
    by simp only [content, hbuf, Option.getD_some, List.take_take, min_self]⟩

/-- An assignment of an empty object does nothing. -/
theorem assign_empty {b : RawData} (h0 : b.len = 0) (d : RawData) (self : Bool) (a : Alloc) :
    d.assign b self a = (d, a) := by
  unfold assign
  simp only [h0, if_true]
  cases self <;> cases b.data <;> rfl

/-! ## Objects in any state -/

/-- An object is valid, or has no buffer because none could be allocated. -/
def Sound (d : RawData) : Prop :=
  d.Valid ∨ d = {}

theorem Valid.sound {d : RawData} (h : d.Valid) : d.Sound :=
  Or.inl h

theorem Sound.length_content {d : RawData} (h : d.Sound) : d.content.length = d.len := by
  rcases h with h | rfl
  · exact h.length_content
  · rfl

theorem Sound.valid {d : RawData} (h : d.Sound) (hdata : d.data.isSome) : d.Valid := by
  rcases h with h | rfl
  · exact h
  · cases hdata

theorem sound_new (a : Alloc) : (new a).1.Sound := by
  cases ha : a.next with
  | true => exact (valid_new ha).1.sound
  | false =>
    simp only [new, ha, Bool.false_eq_true, if_false]
    exact Or.inr rfl

theorem sound_copy {d : RawData} (h : d.Sound) (a : Alloc) : (d.copy a).1.Sound := by
  rcases h with h | rfl
  · cases ha : a.next with
    | true => exact (copy_spec h ha).1.sound
    | false =>
      obtain ⟨buf, hbuf, -⟩ := h.buffer
      simp only [copy, hbuf, ha, Bool.false_eq_true, if_false]
      split
      · exact sound_new a
      · exact Or.inr rfl
  · exact sound_new a

/-- A copy has the same content, also of an object without a buffer. -/
theorem content_copy {d : RawData} (h : d.Sound) {a : Alloc} (ha : a.next = true) :
    (d.copy a).1.content = d.content := by
  rcases h with h | rfl
  · exact (copy_spec h ha).2
  · exact (valid_new ha).2.1

/-- What an assignment between two objects leaves in the target. -/
theorem content_assign {b : RawData} (h : b.Sound) (d : RawData) {a : Alloc}
    (ha : a.next = true) :
    (d.assign b false a).1.content = if b.content = [] then d.content else b.content := by
  by_cases h0 : b.len = 0
  · have hb : b.content = [] := List.eq_nil_of_length_eq_zero (by rw [h.length_content, h0])
    rw [assign_empty h0, if_pos hb]
  · have hb : b.content ≠ [] := fun hnil => h0 (by rw [← h.length_content, hnil]; rfl)
    rcases h with h | rfl
    · rw [if_neg hb, (assign_spec h h0 d ha).2]
    · exact absurd rfl h0

theorem sound_assign {d b : RawData} (hd : d.Sound) (hb : b.Sound) (self : Bool) (a : Alloc) :
    (d.assign b self a).1.Sound := by
  by_cases h0 : b.len = 0
  · rwa [assign_empty h0]
  cases self with
  | true => exact hd
  | false =>
    rcases hb with hb | rfl
    · cases ha : a.next with
      | true => exact (assign_spec hb h0 d ha).1.sound
      | false =>
        obtain ⟨buf, hbuf, -⟩ := hb.buffer
        simpa only [assign, Bool.false_eq_true, hbuf, h0, if_false, ha] using hd
    · exact absurd rfl h0

/-- The growth that a write needs, if it needs one, is granted. -/
def Grants (d : RawData) (len pos : ℕ) (a : Alloc) : Prop :=
  d.capacity < pos + len → a.next = true

/-- A write of bytes to a position of the content succeeds if its growth is granted. -/
theorem update_true {d : RawData} (h : d.Valid) (src : Bytes) {pos : ℕ} (hpos : pos ≤ d.len)
    {a : Alloc} (ha : d.Grants src.length pos a) :
    ∃ d' a', d.update (some src) src.length pos a = (true, d', a') ∧ d'.Valid ∧
      d'.content = overwrite d.content pos src := by
  by_cases hfull : d.capacity < pos + src.length
  · obtain ⟨d', hd', hv, -, hc⟩ := update_grows h hpos hfull (ha hfull)
    exact ⟨d', _, hd', hv, hc⟩
  · obtain ⟨d', hd', hv, -, hc⟩ := update_fits h src hpos (by omega) a
    exact ⟨d', a, hd', hv, hc⟩

/-- Every other write fails, and leaves the object as it was. -/
theorem update_false {d : RawData} (h : d.Sound) {data : Option Bytes} {len : ℕ}
    (hsized : ∀ bs, data = some bs → bs.length = len) {pos : ℕ} {a : Alloc}
    (hbad : ¬(data.isSome ∧ d.data.isSome ∧ pos ≤ d.len ∧ d.Grants len pos a)) :
    ∃ a', d.update data len pos a = (false, d, a') := by
  cases data with
  | none => exact ⟨a, rfl⟩
  | some src =>
    obtain rfl := hsized src rfl
    rcases h with hv | rfl
    · obtain ⟨buf, hbuf, -⟩ := hv.buffer
      by_cases hpos : pos ≤ d.len
      · have hgrant : ¬d.Grants src.length pos a := fun hg =>
          hbad ⟨rfl, by rw [hbuf]; rfl, hpos, hg⟩
        rw [Grants, Classical.not_imp] at hgrant
        exact ⟨_, update_refused hv hpos hgrant.1 (by simpa using hgrant.2)⟩
      · refine ⟨a, ?_⟩
        simp only [update, hbuf]
        rw [if_pos (by omega)]
    · exact ⟨a, rfl⟩

theorem sound_update {d : RawData} (h : d.Sound) (data : Option Bytes) (len pos : ℕ)
    (hsized : ∀ bs, data = some bs → bs.length = len) (a : Alloc) :
    (d.update data len pos a).2.1.Sound := by
  by_cases hgood : data.isSome ∧ d.data.isSome ∧ pos ≤ d.len ∧ d.Grants len pos a
  · obtain ⟨hdata, hbuf, hpos, hgrant⟩ := hgood
    obtain ⟨src, rfl⟩ := Option.isSome_iff_exists.1 hdata
    obtain rfl := hsized src rfl
    obtain ⟨d', a', hd', hv, -⟩ := update_true (h.valid hbuf) src hpos hgrant
    rw [hd']
    exact hv.sound
  · obtain ⟨a', ha'⟩ := update_false h hsized hgood
    rw [ha']
    exact h

theorem sound_append {d : RawData} (h : d.Sound) (data : Option Bytes) (len : ℕ)
    (hsized : ∀ bs, data = some bs → bs.length = len) (a : Alloc) :
    (d.append data len a).2.1.Sound := by
  unfold append
  split
  · exact h
  · exact sound_update h data len d.len hsized a

end RawData

end HiSysEvent
