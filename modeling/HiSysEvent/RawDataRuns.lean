import HiSysEvent.RawDataMemory
import HiSysEvent.Run

/-!
# Programs on growable byte buffers

A program constructs `RawData` objects, copies them and calls them, in any order
(`Objects.run`), and its allocations may fail at any call. What the objects show is the
same program on values (`Objects.Separate.step`), so a call is judged by what it does to the
content (`Written`), and no run accesses memory beyond a block.
-/

namespace HiSysEvent

open Wire While

/-- `uint8_t* data, size_t len` : null, or the address of so many bytes. -/
structure DataArg where
  data : Option Bytes
  len : ℕ
  sized : ∀ bs, data = some bs → bs.length = len

namespace DataArg

/-- The bytes passed. -/
def bytes (arg : DataArg) : Bytes :=
  arg.data.getD []

end DataArg

/-- The calls of a program. Objects are numbered as they are constructed. -/
inductive RawDataCall where
  | construct
  | copy (b : ℕ)
  | assign (a b : ℕ)
  | append (a : ℕ) (arg : DataArg)
  | update (a : ℕ) (arg : DataArg) (pos : ℕ)

/-- The object a call may change. -/
def RawDataCall.target : RawDataCall → Option ℕ
  | .construct => none
  | .copy _ => none
  | .assign a _ => some a
  | .append a _ => some a
  | .update a _ _ => some a

/-! ## On values -/

/-- What the objects of a program show, and the outcomes of its allocations. -/
structure Values where
  objects : List RawData := []
  alloc : Alloc

namespace Values

/-- A call, and what `Append` and `Update` return. -/
def step (s : Values) : RawDataCall → Bool × Values
  | .construct =>
    let (d, alloc) := RawData.new s.alloc
    (true, ⟨s.objects ++ [d], alloc⟩)
  | .copy b =>
    match s.objects[b]? with
    | none => (true, s)
    | some b =>
      let (d, alloc) := b.copy s.alloc
      (true, ⟨s.objects ++ [d], alloc⟩)
  | .assign a b =>
    match s.objects[a]?, s.objects[b]? with
    | some d, some e =>
      let (d, alloc) := d.assign e (a = b) s.alloc
      (true, ⟨s.objects.set a d, alloc⟩)
    | _, _ => (true, s)
  | .append a arg =>
    match s.objects[a]? with
    | none => (true, s)
    | some d =>
      let (ok, d, alloc) := d.append arg.data arg.len s.alloc
      (ok, ⟨s.objects.set a d, alloc⟩)
  | .update a arg pos =>
    match s.objects[a]? with
    | none => (true, s)
    | some d =>
      let (ok, d, alloc) := d.update arg.data arg.len pos s.alloc
      (ok, ⟨s.objects.set a d, alloc⟩)

end Values

/-! ## In memory -/

/-- The objects of a program, and its memory. -/
structure Objects where
  objects : List RawDataObject := []
  memory : Memory

namespace Objects

/-- A program starts without objects. -/
def empty (alloc : Alloc) : Objects where
  memory := {
    alloc := alloc
    next := 0
    blocks := fun _ => none
    denied := 0
    freed := []
    fresh := fun _ _ => rfl }

/-- A call on the objects. -/
def lift (s : Objects) (m : Program Memory (Bool × List RawDataObject)) :
    Option (Bool × Objects) :=
  (m.run s.memory).map fun r => (r.1.1, ⟨r.1.2, r.2⟩)

/-- A call, and what `Append` and `Update` return. -/
def step (s : Objects) : RawDataCall → Option (Bool × Objects)
  | .construct => s.lift do
    let d ← RawDataObject.new
    return (true, s.objects ++ [d])
  | .copy b =>
    match s.objects[b]? with
    | none => some (true, s)
    | some b => s.lift do
      let d ← b.copy
      return (true, s.objects ++ [d])
  | .assign a b =>
    match s.objects[a]?, s.objects[b]? with
    | some d, some e => s.lift do
      let d ← d.assign e (a = b)
      return (true, s.objects.set a d)
    | _, _ => some (true, s)
  | .append a arg =>
    match s.objects[a]? with
    | none => some (true, s)
    | some d => s.lift do
      let (ok, d) ← d.append (arg.data.map .outside) arg.len
      return (ok, s.objects.set a d)
  | .update a arg pos =>
    match s.objects[a]? with
    | none => some (true, s)
    | some d => s.lift do
      let (ok, d) ← d.update (arg.data.map .outside) arg.len pos
      return (ok, s.objects.set a d)

/-- `none` if a call accesses memory beyond a block. -/
def run : Objects → List RawDataCall → Option Objects
  | s, [] => some s
  | s, call :: calls =>
    match s.step call with
    | none => none
    | some (_, s') => run s' calls

/-- What the objects show. -/
def view (s : Objects) : Values where
  objects := s.objects.map fun d => d.view s.memory
  alloc := s.memory.alloc

/-- Objects own blocks, and no two own the same one. -/
structure Separate (s : Objects) : Prop where
  live : ∀ d ∈ s.objects, d.Live s.memory
  apart : ∀ (i j : ℕ) (d e : RawDataObject), s.objects[i]? = some d → s.objects[j]? = some e →
    i ≠ j → ∀ p, d.data = some p → e.data ≠ some p
  sound : ∀ d ∈ s.objects, (d.view s.memory).Sound

variable {s : Objects}

theorem lift_ends {m : Program Memory (Bool × List RawDataObject)} {p : Bool × Values}
    (h : Ends m s.memory fun r m' => Separate ⟨r.2, m'⟩ ∧ (r.1, view ⟨r.2, m'⟩) = p) :
    ∃ r s', s.lift m = some (r, s') ∧ s'.Separate ∧ (r, s'.view) = p := by
  obtain ⟨⟨r, objects⟩, m', hm, hsep, hp⟩ := h
  exact ⟨r, ⟨objects, m'⟩, by rw [lift, hm]; rfl, hsep, hp⟩

theorem view_getElem? (s : Objects) (i : ℕ) :
    s.view.objects[i]? = (s.objects[i]?).map fun d => d.view s.memory :=
  List.getElem?_map

theorem live_of_getElem? (h : s.Separate) {i : ℕ} {d : RawDataObject}
    (hi : s.objects[i]? = some d) : d.Live s.memory :=
  h.live d (List.mem_of_getElem? hi)

/-- What a call on an object leaves of the others. -/
theorem Separate.others (h : s.Separate) {objects : List RawDataObject} {m' : Memory} {a : ℕ}
    {d d' : RawDataObject} {value : RawData × Alloc}
    (hd : RawDataObject.Shows s.memory d value d' m') (hsound : value.1.Sound)
    (hown : ∀ i e, i ≠ a → s.objects[i]? = some e → ∀ p, e.data = some p → d.data ≠ some p)
    (hself : objects[a]? = some d') (hothers : ∀ i, i ≠ a → objects[i]? = s.objects[i]?) :
    Separate ⟨objects, m'⟩ ∧
      ∀ i, (view ⟨objects, m'⟩).objects[i]? =
        if i = a then some value.1 else s.view.objects[i]? := by
  obtain ⟨hvalue, hcalls⟩ := hd
  have hlive : ∀ i e, i ≠ a → s.objects[i]? = some e → e.Live m' := fun i e hi he =>
    hcalls.live_other (live_of_getElem? h he) (hown i e hi he)
  have hview : ∀ i e, i ≠ a → s.objects[i]? = some e → e.view m' = e.view s.memory :=
    fun i e hi he => hcalls.view (live_of_getElem? h he) (hown i e hi he)
  have hcase : ∀ i e, objects[i]? = some e →
      i = a ∧ e = d' ∨ i ≠ a ∧ s.objects[i]? = some e := by
    intro i e he
    by_cases hi : i = a
    · rw [hi, hself] at he
      exact Or.inl ⟨hi, (Option.some.inj he).symm⟩
    · exact Or.inr ⟨hi, hothers i hi ▸ he⟩
  have hfresh : ∀ i e, i ≠ a → s.objects[i]? = some e → ∀ p, e.data = some p →
      d'.data ≠ some p := by
    intro i e hi he p hp hp'
    rcases hcalls.owns p hp' with hold | hnew
    · exact hown i e hi he p hp hold
    · have := Memory.lt_next (live_of_getElem? h he p hp)
      omega
  refine ⟨⟨?_, ?_, ?_⟩, ?_⟩
  · intro e he
    obtain ⟨i, hi⟩ := List.mem_iff_getElem?.1 he
    rcases hcase i e hi with ⟨-, rfl⟩ | ⟨hne, hi⟩
    · exact hcalls.live
    · exact hlive i e hne hi
  · intro i j e e' hi hj hij p hp
    rcases hcase i e hi with ⟨rfl, rfl⟩ | ⟨hia, hi⟩
    · rcases hcase j e' hj with ⟨rfl, -⟩ | ⟨hja, hj⟩
      · exact absurd rfl hij
      · exact fun hp' => hfresh j e' hja hj p hp' hp
    · rcases hcase j e' hj with ⟨rfl, rfl⟩ | ⟨hja, hj⟩
      · exact hfresh i e hia hi p hp
      · exact h.apart i j e e' hi hj hij p hp
  · intro e he
    obtain ⟨i, hi⟩ := List.mem_iff_getElem?.1 he
    rcases hcase i e hi with ⟨-, rfl⟩ | ⟨hne, hi⟩
    · rw [show e.view m' = value.1 from congrArg Prod.fst hvalue]
      exact hsound
    · change (e.view m').Sound
      rw [hview i e hne hi]
      exact h.sound e (List.mem_of_getElem? hi)
  · intro i
    rw [view_getElem?]
    by_cases hi : i = a
    · rw [if_pos hi, hi]
      change objects[a]?.map _ = _
      rw [hself, ← hvalue]
      rfl
    · rw [if_neg hi, view_getElem?]
      change objects[i]?.map _ = _
      rw [hothers i hi]
      cases he : s.objects[i]? with
      | none => rfl
      | some e => exact congrArg some (hview i e hi he)

/-- A new object. -/
theorem Separate.push (h : s.Separate) {d : RawDataObject} {m' : Memory} {value : RawData × Alloc}
    (hd : RawDataObject.Shows s.memory {} value d m') (hsound : value.1.Sound) :
    Separate ⟨s.objects ++ [d], m'⟩ ∧
      view ⟨s.objects ++ [d], m'⟩ = ⟨s.view.objects ++ [value.1], value.2⟩ := by
  have hlen : s.view.objects.length = s.objects.length := List.length_map _
  have hothers : ∀ i, i ≠ s.objects.length → (s.objects ++ [d])[i]? = s.objects[i]? := by
    intro i hi
    rcases Nat.lt_or_gt_of_ne hi with hlt | hgt
    · exact List.getElem?_append_left hlt
    · rw [List.getElem?_eq_none (by simp; omega), List.getElem?_eq_none (by omega)]
  obtain ⟨hsep, hview⟩ := h.others hd hsound (fun _ _ _ _ _ _ hp => by cases hp) (by simp) hothers
  refine ⟨hsep, congrArg₂ Values.mk (List.ext_getElem? fun i => ?_) (congrArg Prod.snd hd.1)⟩
  refine (hview i).trans ?_
  split
  case isTrue hi => rw [hi, ← hlen, List.getElem?_concat_length]
  case isFalse hi =>
    rcases Nat.lt_or_gt_of_ne hi with hlt | hgt
    · rw [List.getElem?_append_left (by omega)]
    · rw [List.getElem?_eq_none (by omega), List.getElem?_eq_none (by simp; omega)]

/-- An object that was called. -/
theorem Separate.set (h : s.Separate) {a : ℕ} {d d' : RawDataObject} {m' : Memory}
    {value : RawData × Alloc} (ha : s.objects[a]? = some d)
    (hd : RawDataObject.Shows s.memory d value d' m') (hsound : value.1.Sound) :
    Separate ⟨s.objects.set a d', m'⟩ ∧
      view ⟨s.objects.set a d', m'⟩ = ⟨s.view.objects.set a value.1, value.2⟩ := by
  have hlt : a < s.objects.length := (List.getElem?_eq_some_iff.1 ha).1
  have hlen : s.view.objects.length = s.objects.length := List.length_map _
  have hothers : ∀ i, i ≠ a → (s.objects.set a d')[i]? = s.objects[i]? := fun i hi =>
    List.getElem?_set_ne (Ne.symm hi)
  obtain ⟨hsep, hview⟩ := h.others hd hsound
    (fun i e hi he p hp => h.apart i a e d he ha hi p hp) (List.getElem?_set_self hlt) hothers
  refine ⟨hsep, congrArg₂ Values.mk (List.ext_getElem? fun i => ?_) (congrArg Prod.snd hd.1)⟩
  refine (hview i).trans ?_
  split
  case isTrue hi => rw [hi, List.getElem?_set_self (by omega)]
  case isFalse hi => rw [List.getElem?_set_ne (Ne.symm hi)]

theorem shown {i : ℕ} {d : RawDataObject}
    (hi : s.objects[i]? = some d) : s.view.objects[i]? = some (d.view s.memory) := by
  rw [view_getElem?, hi, Option.map_some]

theorem not_shown {i : ℕ} (hi : s.objects[i]? = none) : s.view.objects[i]? = none := by
  rw [view_getElem?, hi, Option.map_none]

theorem Separate.sound_of (h : s.Separate) {i : ℕ} {d : RawDataObject}
    (hi : s.objects[i]? = some d) : (d.view s.memory).Sound :=
  h.sound d (List.mem_of_getElem? hi)

/-- A constructor runs. -/
theorem Separate.lift_push (h : s.Separate) {m : Program Memory RawDataObject}
    {value : RawData × Alloc} (hm : Ends m s.memory (RawDataObject.Shows s.memory {} value))
    (hsound : value.1.Sound) :
    ∃ r s', s.lift (m >>= fun d => pure (true, s.objects ++ [d])) = some (r, s') ∧
      s'.Separate ∧ (r, s'.view) = (true, ⟨s.view.objects ++ [value.1], value.2⟩) := by
  refine lift_ends (Ends.bind (hm.mono fun d m' hd => Ends.pure ?_))
  obtain ⟨hsep, hview⟩ := h.push hd hsound
  exact ⟨hsep, congrArg (Prod.mk true) hview⟩

/-- A method of an object runs. -/
theorem Separate.lift_set (h : s.Separate) {a : ℕ} {d : RawDataObject}
    (ha : s.objects[a]? = some d) {m : Program Memory (Bool × RawDataObject)}
    {value : Bool × RawData × Alloc}
    (hm : Ends m s.memory fun r m' =>
      r.1 = value.1 ∧ RawDataObject.Shows s.memory d value.2 r.2 m')
    (hsound : value.2.1.Sound) :
    ∃ r s', s.lift (m >>= fun r => pure (r.1, s.objects.set a r.2)) = some (r, s') ∧
      s'.Separate ∧
        (r, s'.view) = (value.1, ⟨s.view.objects.set a value.2.1, value.2.2⟩) := by
  refine lift_ends (Ends.bind (hm.mono fun r m' hd => Ends.pure ?_))
  obtain ⟨hsep, hview⟩ := h.set ha hd.2 hsound
  exact ⟨hsep, congrArg₂ Prod.mk hd.1 hview⟩

/-- A call does to what the objects show the call on values. -/
theorem Separate.step (h : s.Separate) (call : RawDataCall) :
    ∃ r s', s.step call = some (r, s') ∧ s'.Separate ∧ (r, s'.view) = s.view.step call := by
  have hnothing : ∃ r s', some (true, s) = some (r, s') ∧ s'.Separate ∧
      (r, s'.view) = (true, s.view) := ⟨true, s, rfl, h, rfl⟩
  cases call with
  | construct => exact h.lift_push (RawDataObject.new_ends s.memory) (RawData.sound_new _)
  | copy b =>
    unfold Objects.step Values.step
    dsimp only
    cases hb : s.objects[b]? with
    | none =>
      rw [not_shown hb]
      exact hnothing
    | some e =>
      rw [shown hb]
      exact h.lift_push (RawDataObject.copy_ends (live_of_getElem? h hb) (h.sound_of hb))
        (RawData.sound_copy (h.sound_of hb) _)
  | assign a b =>
    unfold Objects.step Values.step
    dsimp only
    cases ha : s.objects[a]? with
    | none =>
      rw [not_shown ha]
      exact hnothing
    | some d =>
      rw [shown ha]
      cases hb : s.objects[b]? with
      | none =>
        rw [not_shown hb]
        exact hnothing
      | some e =>
        rw [shown hb]
        refine lift_ends (Ends.bind ((RawDataObject.assign_ends (live_of_getElem? h ha)
          (live_of_getElem? h hb) (h.sound_of hb) _).mono fun d' m' hd => Ends.pure ?_))
        obtain ⟨hsep, hview⟩ := h.set ha hd
          (RawData.sound_assign (h.sound_of ha) (h.sound_of hb) _ _)
        exact ⟨hsep, congrArg (Prod.mk true) hview⟩
  | append a arg =>
    unfold Objects.step Values.step
    dsimp only
    cases ha : s.objects[a]? with
    | none =>
      rw [not_shown ha]
      exact hnothing
    | some d =>
      rw [shown ha]
      exact h.lift_set ha (RawDataObject.append_ends (live_of_getElem? h ha) (h.sound_of ha)
        arg.data arg.len arg.sized) (RawData.sound_append (h.sound_of ha) _ _ arg.sized _)
  | update a arg pos =>
    unfold Objects.step Values.step
    dsimp only
    cases ha : s.objects[a]? with
    | none =>
      rw [not_shown ha]
      exact hnothing
    | some d =>
      rw [shown ha]
      exact h.lift_set ha (RawDataObject.update_ends (live_of_getElem? h ha) (h.sound_of ha)
        arg.data arg.len pos arg.sized) (RawData.sound_update (h.sound_of ha) _ _ pos arg.sized _)

theorem separate_empty (a : Alloc) : (empty a).Separate where
  live d hd := by cases hd
  apart i j d e hd := by cases hd
  sound d hd := by cases hd

/-- No run accesses memory beyond a block, and it shows the run on values. -/
theorem Separate.run : ∀ {s : Objects}, s.Separate → ∀ calls : List RawDataCall,
    ∃ s', s.run calls = some s' ∧ s'.Separate ∧
      s'.view = Run.exec (fun v call => (v.step call).2) s.view calls
  | s, h, [] => ⟨s, rfl, h, rfl⟩
  | s, h, call :: calls => by
    obtain ⟨r, s', hstep, hsep, hview⟩ := h.step call
    obtain ⟨s'', hrun, hsep', hview'⟩ := hsep.run calls
    refine ⟨s'', ?_, hsep', ?_⟩
    · rw [Objects.run, hstep]
      exact hrun
    · rw [hview', Run.exec, ← hview]

end Objects

/-! ## Writes -/

/-- The object lies within its buffer. -/
structure RawDataObject.InBounds (m : Memory) (d : RawDataObject) : Prop where
  len_le : d.len ≤ d.capacity
  buffer : ∀ p, d.data = some p → ∃ buf, m.blocks p = some buf ∧ buf.length = d.capacity
  absent : d.data = none → d.capacity = 0

/-- What a write to a position does to the object `d` : it overwrites the content there,
or fails and leaves the object as it was. -/
structure Written (d : RawData) (arg : DataArg) (pos : ℕ) (a : Alloc) (ok : Bool) (d' : RawData) :
    Prop where
  content : ok = true → pos ≤ d.len ∧ d'.content = overwrite d.content pos arg.bytes
  succeeds : arg.bytes ≠ [] → pos ≤ d.len → d.data.isSome → d.Grants arg.len pos a → ok = true
  fails : ok = false → d'.content = d.content ∧ d'.len = d.len

theorem DataArg.length_bytes (arg : DataArg) (h : arg.data.isSome) : arg.bytes.length = arg.len := by
  obtain ⟨bs, hbs⟩ := Option.isSome_iff_exists.1 h
  rw [bytes, hbs, Option.getD_some, arg.sized bs hbs]

theorem DataArg.isSome_of_bytes {arg : DataArg} (h : arg.bytes ≠ []) : arg.data.isSome := by
  rw [Option.isSome_iff_ne_none]
  intro hnone
  rw [bytes, hnone] at h
  exact h rfl

theorem update_written {d : RawData} (h : d.Sound) (arg : DataArg) (pos : ℕ) (a : Alloc) :
    Written d arg pos a (d.update arg.data arg.len pos a).1
      (d.update arg.data arg.len pos a).2.1 := by
  by_cases hgood : arg.data.isSome ∧ d.data.isSome ∧ pos ≤ d.len ∧ d.Grants arg.len pos a
  · obtain ⟨hdata, hbuf, hpos, hgrant⟩ := hgood
    obtain ⟨bs, hbs⟩ := Option.isSome_iff_exists.1 hdata
    have hlen := arg.sized bs hbs
    rw [← hlen] at hgrant
    obtain ⟨d', a', hd', hv, hc⟩ := RawData.update_true (h.valid hbuf) bs hpos hgrant
    rw [hbs, ← hlen, hd']
    refine ⟨fun _ => ⟨hpos, ?_⟩, fun _ _ _ _ => rfl, fun hok => by cases hok⟩
    rw [DataArg.bytes, hbs]
    exact hc
  · obtain ⟨a', ha'⟩ := RawData.update_false h arg.sized hgood
    rw [ha']
    refine ⟨fun hok => (by cases hok), fun hbytes hpos hbuf hgrant => ?_, fun _ => ⟨rfl, rfl⟩⟩
    exact absurd ⟨arg.isSome_of_bytes hbytes, hbuf, hpos, hgrant⟩ hgood

/-- `Append` writes at the end, and has nothing to do for no bytes. -/
theorem append_written {d : RawData} (h : d.Sound) (arg : DataArg) (a : Alloc) :
    Written d arg d.len a (d.append arg.data arg.len a).1 (d.append arg.data arg.len a).2.1 := by
  by_cases h0 : arg.len = 0
  · have hbytes : arg.bytes = [] := by
      by_contra hne
      have := arg.length_bytes (arg.isSome_of_bytes hne)
      exact hne (List.eq_nil_of_length_eq_zero (by omega))
    simp only [RawData.append, if_pos h0]
    refine ⟨fun _ => ⟨le_rfl, ?_⟩, fun hne => absurd hbytes hne, fun hok => by cases hok⟩
    rw [hbytes, ← h.length_content, overwrite_length_left, List.append_nil]
  · simp only [RawData.append, if_neg h0]
    exact update_written h arg d.len a

theorem RawDataObject.Live.inBounds {m : Memory} {d : RawDataObject} (h : d.Live m)
    (hs : (d.view m).Sound) : d.InBounds m := by
  rcases hs with hv | hempty
  · refine ⟨hv.len_le, fun p hp => ?_, fun hp => ?_⟩
    · obtain ⟨buf, hbuf, -⟩ := h.block hp
      obtain ⟨buf', hbuf', hlen⟩ := hv.buffer
      rw [view_of_data hp hbuf] at hbuf'
      exact ⟨buf, hbuf, by rwa [Option.some.inj hbuf']⟩
    · obtain ⟨buf', hbuf', -⟩ := hv.buffer
      rw [view, hp] at hbuf'
      cases hbuf'
  · have hlen : d.len = 0 := congrArg RawData.len hempty
    have hcap : d.capacity = 0 := congrArg RawData.capacity hempty
    have hdata : d.data = none := by
      have := congrArg RawData.data hempty
      exact Option.map_eq_none_iff.1 this
    refine ⟨by omega, fun p hp => ?_, fun _ => hcap⟩
    rw [hdata] at hp
    cases hp

namespace Objects

variable {s : Objects}

theorem Separate.inBounds (h : s.Separate) {i : ℕ} {d : RawDataObject}
    (hi : s.objects[i]? = some d) : d.InBounds s.memory :=
  (live_of_getElem? h hi).inBounds (h.sound_of hi)

/-- The object after a call that changed it. -/
theorem Separate.written (h : s.Separate) (call : RawDataCall) {i : ℕ} {d : RawDataObject}
    (hi : s.objects[i]? = some d) {ok : Bool} {value : RawData} {alloc : Alloc}
    (hstep : s.view.step call = (ok, ⟨s.view.objects.set i value, alloc⟩)) :
    ∃ s' d', s.step call = some (ok, s') ∧ s'.objects[i]? = some d' ∧ d'.InBounds s'.memory ∧
      d'.view s'.memory = value := by
  obtain ⟨r, s', hs', hsep, hview⟩ := h.step call
  obtain ⟨rfl, hview⟩ := Prod.mk.inj (hview.trans hstep)
  have hlt : i < s.view.objects.length := (List.getElem?_eq_some_iff.1 (shown hi)).1
  have hget : s'.view.objects[i]? = some value := by
    rw [hview]
    exact List.getElem?_set_self hlt
  rw [view_getElem?, Option.map_eq_some_iff] at hget
  obtain ⟨d', hd', hvalue⟩ := hget
  exact ⟨s', d', hs', hd', hsep.inBounds hd', hvalue⟩

/-- Every run stays within its buffers, and after it every object is a byte string that
`Append` extends and `Update` overwrites. -/
theorem run_written (a : Alloc) (calls : List RawDataCall) :
    ∃ s, (empty a).run calls = some s ∧ ∀ i d, s.objects[i]? = some d →
      d.InBounds s.memory ∧
      (∀ arg, ∃ ok s' d', s.step (.append i arg) = some (ok, s') ∧ s'.objects[i]? = some d' ∧
        d'.InBounds s'.memory ∧
        Written (d.view s.memory) arg d.len s.memory.alloc ok (d'.view s'.memory) ∧
        (ok = true → (d'.view s'.memory).content = (d.view s.memory).content ++ arg.bytes)) ∧
      ∀ arg pos, ∃ ok s' d', s.step (.update i arg pos) = some (ok, s') ∧
        s'.objects[i]? = some d' ∧ d'.InBounds s'.memory ∧
        Written (d.view s.memory) arg pos s.memory.alloc ok (d'.view s'.memory) := by
  obtain ⟨s, hrun, hsep, -⟩ := (separate_empty a).run calls
  refine ⟨s, hrun, fun i d hi => ?_⟩
  have hsound := hsep.sound_of hi
  refine ⟨hsep.inBounds hi, fun arg => ?_, fun arg pos => ?_⟩
  · have hwritten := append_written hsound arg s.view.alloc
    obtain ⟨s', d', hs', hd', hin, hvalue⟩ := hsep.written (.append i arg) hi (by
      rw [Values.step, shown hi])
    refine ⟨_, s', d', hs', hd', hin, by rwa [hvalue], fun hok => ?_⟩
    rw [hvalue, (hwritten.content hok).2]
    have hlen : d.len = (d.view s.memory).content.length := hsound.length_content.symm
    change overwrite _ d.len _ = _
    rw [hlen, overwrite_length_left]
  · obtain ⟨s', d', hs', hd', hin, hvalue⟩ := hsep.written (.update i arg pos) hi (by
      rw [Values.step, shown hi])
    refine ⟨_, s', d', hs', hd', hin, ?_⟩
    rw [hvalue]
    exact update_written hsound arg pos s.memory.alloc

end Objects

end HiSysEvent
