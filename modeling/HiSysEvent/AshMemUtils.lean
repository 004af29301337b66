import HiSysEvent.Fields
import HiSysEvent.Parcel

/-!
# Bulk data in shared memory

The strings of a query are put into a region of shared memory, one behind the other and each
with its NUL. The parcel carries their sizes and the region. The reader adds up the sizes to find
where a string begins, and takes the string up to its first NUL, not up to its size.

Strings whose sizes fit the region come back in order (`bulkData_roundTrip`). The reader
stays inside the items and the mapping exactly if each item that is reached is `Terminated`
(`readBulkData_staysInside_iff`).
-/

namespace HiSysEvent

open Wire Queue

/-- `std::u16string`. -/
abbrev U16String := List UInt16

/-- The conversions of `string_ex.h`. -/
structure StringEx where
  str16ToStr8 : U16String → Bytes
  str8ToStr16 : Bytes → U16String

/-- What `CreateAshmem` and `MapReadAndWriteAshmem` return. -/
structure AshmemCalls where
  created : Bool
  mapped : Bool

namespace AshMemUtils

abbrev ashMemSize : ℕ := 1024 * 769

/-- The implicit conversion of an argument to `int32_t`. -/
def toInt32 (val : UInt32) : ℤ :=
  val.toBitVec.toInt

end AshMemUtils

namespace Ashmem

open AshMemUtils

/-- The check of each access. -/
def Valid (ashmem : Ashmem) (size offset : ℤ) : Prop :=
  ashmem.mapped = true ∧ 0 ≤ size ∧ 0 ≤ offset ∧ size + offset ≤ ashmem.bytes.length

instance (ashmem : Ashmem) (size offset : ℤ) : Decidable (ashmem.Valid size offset) :=
  inferInstanceAs (Decidable (_ ∧ _ ∧ _ ∧ _))

/-- The position a pointer is returned to, or null. -/
def readFromAshmem (ashmem : Ashmem) (size offset : ℤ) : Option ℕ :=
  if ashmem.Valid size offset then some offset.toNat else none

/-- `size` bytes of `data`, written at `offset`. -/
def writeToAshmem (ashmem : Ashmem) (data : Bytes) (size offset : ℤ) : Option Ashmem :=
  if h : ashmem.Valid size offset then
    some ⟨overwrite ashmem.bytes offset.toNat (data.take size.toNat), by
      obtain ⟨-, hsize, hoffset, hle⟩ := h
      have hlt := ashmem.size_lt
      rw [length_overwrite (by omega), List.length_take]
      omega, ashmem.mapped⟩
  else none

/-- `MapReadAndWriteAshmem`, which may fail. -/
def mapReadAndWriteAshmem (ashmem : Ashmem) (calls : AshmemCalls) : Ashmem :=
  { ashmem with mapped := calls.mapped }

end Ashmem

namespace AshMemUtils

/-! ## Writing -/

/-- The translated strings with their sizes. -/
def parseAllStringItemSize (c : StringEx) (data : List U16String) : List (Bytes × UInt32) :=
  data.map fun item =>
    let translated := c.str16ToStr8 item
    (translated, UInt32.ofNat ((cString translated).length + 1))

/-- A zeroed region. It is returned even if it could not be mapped. -/
def getAshmem (calls : AshmemCalls) : Option Ashmem :=
  if calls.created then
    some (Ashmem.mapReadAndWriteAshmem
      ⟨List.replicate ashMemSize 0, by rw [List.length_replicate]; decide, false⟩ calls)
  else none

/-- The loop, over the strings that are left. -/
def writeItems : List (Bytes × UInt32) → UInt32 → Ashmem → Option Ashmem
  | [], _, ashmem => some ashmem
  | (translated, size) :: rest, offset, ashmem =>
    match ashmem.writeToAshmem (translated ++ [0]) (toInt32 size) (toInt32 offset) with
    | none => none
    | some ashmem => writeItems rest (offset + size) ashmem

/-- The region, or null. -/
def writeBulkData (c : StringEx) (calls : AshmemCalls) (src : List U16String) :
    Program Field Ashmem := do
  let all := parseAllStringItemSize c src
  Parcel.writeUInt32Vector (all.map Prod.snd)
  match getAshmem calls with
  | none => failure
  | some ashmem =>
    match writeItems all 0 ashmem with
    | none => failure
    | some ashmem => do
      Parcel.writeAshmem ashmem
      return ashmem

/-! ## Reading -/

/-- The destination, and for each string the first and the last position that is read. -/
structure BulkRead where
  dest : List U16String
  reads : List (ℕ × ℕ)

/-- The loop, over the sizes that are left. Without a NUL in the mapping the string reads on behind
it, which is undefined. -/
def readItems (c : StringEx) (ashmem : Ashmem) : List UInt32 → UInt32 → BulkRead →
    Option Bool × BulkRead
  | [], _, s => (some true, s)
  | size :: rest, offset, s =>
    match ashmem.readFromAshmem (toInt32 size) (toInt32 offset) with
    | none => (some false, s)
    | some origin =>
      match Fields.next ashmem.bytes 0 origin with
      | none => (none, ⟨s.dest, s.reads ++ [(origin, ashmem.bytes.length)]⟩)
      | some nul =>
        readItems c ashmem rest (offset + size)
          ⟨s.dest ++ [c.str8ToStr16 (Fields.slice ashmem.bytes (origin, nul))],
            s.reads ++ [(origin, nul)]⟩

/-- What is returned, or nothing if a read is undefined, and the parcel that is left. -/
def readBulkData (c : StringEx) (calls : AshmemCalls) (dest : List U16String) (parcel : Parcel) :
    (Option Bool × BulkRead) × Parcel :=
  match exec Parcel.readUInt32Vector parcel with
  | (none, parcel) => ((some false, ⟨dest, []⟩), parcel)
  | (some allSize, parcel) =>
    match exec Parcel.readAshmem parcel with
    | (none, parcel) => ((some false, ⟨dest, []⟩), parcel)
    | (some ashmem, parcel) =>
      let ashmem := ashmem.mapReadAndWriteAshmem calls
      if ashmem.mapped then (readItems c ashmem allSize.data 0 ⟨dest, []⟩, parcel)
      else ((some false, ⟨dest, []⟩), parcel)

/-! ## Accesses -/

variable {c : StringEx} {ashmem : Ashmem} {size offset : UInt32}

theorem toInt32_eq (val : UInt32) :
    toInt32 val = if val.toNat < 2 ^ 31 then (val.toNat : ℤ) else (val.toNat : ℤ) - 2 ^ 32 := by
  have hcond := BitVec.toInt_eq_toNat_cond val.toBitVec
  have hnat : val.toBitVec.toNat = val.toNat := rfl
  rw [hnat] at hcond
  rw [toInt32, hcond]
  split_ifs
  all_goals omega

/-- The sizes of the accesses are as sent : no region is so large that an argument that is
converted to a negative one would fit. -/
theorem valid_iff : ashmem.Valid (toInt32 size) (toInt32 offset) ↔
    ashmem.mapped = true ∧ offset.toNat + size.toNat ≤ ashmem.bytes.length := by
  have hlt := ashmem.size_lt
  have hsize := size.toNat_lt
  have hoffset := offset.toNat_lt
  rw [Ashmem.Valid, toInt32_eq, toInt32_eq]
  refine and_congr_right fun _ => ?_
  split_ifs
  all_goals omega

theorem toNat_toInt32 (h : ashmem.Valid (toInt32 size) (toInt32 offset)) :
    (toInt32 offset).toNat = offset.toNat ∧ (toInt32 size).toNat = size.toNat ∧
      (offset + size).toNat = offset.toNat + size.toNat := by
  have hlt := ashmem.size_lt
  have hle := (valid_iff.1 h).2
  rw [toInt32_eq, toInt32_eq, if_pos (by omega), if_pos (by omega), UInt32.toNat_add]
  omega

/-! ## The round trip -/

/-- The strings one behind the other, each with its NUL. -/
def packed (ss : List Bytes) : Bytes :=
  ss.flatMap fun s => s ++ [0]

theorem length_packed (ss : List Bytes) :
    (packed ss).length = (ss.map fun s => s.length + 1).sum := by
  simp [packed]

/-- There are no more strings than bytes, and no longer ones. -/
theorem le_length_packed : ∀ ss : List Bytes,
    ss.length ≤ (packed ss).length ∧ ∀ s ∈ ss, s.length + 1 ≤ (packed ss).length
  | [] => ⟨Nat.zero_le _, fun _ hs => absurd hs List.not_mem_nil⟩
  | t :: ss => by
    obtain ⟨hcount, hlength⟩ := le_length_packed ss
    have hcons : (packed (t :: ss)).length = t.length + 1 + (packed ss).length := by
      rw [length_packed, length_packed, List.map_cons, List.sum_cons]
    rw [hcons]
    refine ⟨by rw [List.length_cons]; omega, fun s hs => ?_⟩
    rcases List.mem_cons.1 hs with rfl | hs
    · omega
    · have hle := hlength s hs
      omega

/-- The size of a string with its NUL. -/
def sizeOf (s : Bytes) : UInt32 :=
  UInt32.ofNat (s.length + 1)

theorem toNat_sizeOf {s : Bytes} (h : s.length < 2 ^ 32 - 1) : (sizeOf s).toNat = s.length + 1 :=
  UInt32.toNat_ofNat_of_lt' (by
    have hsize : UInt32.size = 2 ^ 32 := rfl
    omega)

theorem writeToAshmem_item {s pre : Bytes} {k : ℕ} (hmapped : ashmem.mapped = true)
    (hbytes : ashmem.bytes = pre ++ List.replicate k 0) (hoffset : offset.toNat = pre.length)
    (hs : s.length < 2 ^ 32 - 1) :
    if s.length + 1 ≤ k then ∃ ashmem', ashmem.writeToAshmem (s ++ [0]) (toInt32 (sizeOf s))
        (toInt32 offset) = some ashmem' ∧ ashmem'.mapped = true ∧
          ashmem'.bytes = (pre ++ (s ++ [0])) ++ List.replicate (k - (s.length + 1)) 0 ∧
          (offset + sizeOf s).toNat = (pre ++ (s ++ [0])).length
    else ashmem.writeToAshmem (s ++ [0]) (toInt32 (sizeOf s)) (toInt32 offset) = none := by
  have hvalid : ashmem.Valid (toInt32 (sizeOf s)) (toInt32 offset) ↔ s.length + 1 ≤ k := by
    rw [valid_iff, toNat_sizeOf hs, hoffset, hbytes, List.length_append, List.length_replicate]
    constructor
    · rintro ⟨-, hle⟩
      omega
    · exact fun hle => ⟨hmapped, by omega⟩
  split_ifs with hk
  · have hv := hvalid.2 hk
    obtain ⟨hoff, hsz, hnext⟩ := toNat_toInt32 hv
    refine ⟨_, dif_pos hv, hmapped, ?_, ?_⟩
    · have hzeros : List.replicate k (0 : UInt8) = List.replicate (s.length + 1) 0 ++
          List.replicate (k - (s.length + 1)) 0 := by
        rw [← List.replicate_add]
        congr 1
        omega
      have hlength : (s ++ [0]).length = s.length + 1 := by simp
      dsimp only
      rw [hoff, hsz, toNat_sizeOf hs, ← hlength, List.take_length, hoffset, hbytes, hzeros,
        ← List.append_assoc, overwrite_append (by rw [List.length_replicate, hlength]), hlength]
    · rw [hnext, hoffset, toNat_sizeOf hs]
      simp
  · exact dif_neg (mt hvalid.1 hk)

theorem writeItems_sizeOf : ∀ (ss : List Bytes) (offset : UInt32) {ashmem : Ashmem} {pre : Bytes}
    {k : ℕ}, ashmem.mapped = true → ashmem.bytes = pre ++ List.replicate k 0 →
    offset.toNat = pre.length → (∀ s ∈ ss, s.length < 2 ^ 32 - 1) →
    if (packed ss).length ≤ k then ∃ ashmem', writeItems (ss.map fun s => (s, sizeOf s)) offset
        ashmem = some ashmem' ∧
          ashmem'.bytes = pre ++ (packed ss ++ List.replicate (k - (packed ss).length) 0)
    else writeItems (ss.map fun s => (s, sizeOf s)) offset ashmem = none
  | [], offset, ashmem, pre, k, _, hbytes, _, _ => by
    have hk : (packed []).length ≤ k := Nat.zero_le _
    rw [if_pos hk]
    exact ⟨ashmem, rfl, hbytes⟩
  | s :: ss, offset, ashmem, pre, k, hmapped, hbytes, hoffset, hs => by
    have hitem := writeToAshmem_item hmapped hbytes hoffset (hs s List.mem_cons_self)
    have hlength : (packed (s :: ss)).length = s.length + 1 + (packed ss).length := by
      rw [length_packed, length_packed, List.map_cons, List.sum_cons]
    rw [List.map_cons, writeItems, hlength]
    by_cases hk : s.length + 1 ≤ k
    · rw [if_pos hk] at hitem
      obtain ⟨ashmem', hwrite, hmapped', hbytes', hoffset'⟩ := hitem
      have ih := writeItems_sizeOf ss _ hmapped' hbytes' hoffset' fun t ht =>
        hs t (List.mem_cons_of_mem _ ht)
      rw [hwrite]
      dsimp only
      by_cases hfits : (packed ss).length ≤ k - (s.length + 1)
      · rw [if_pos hfits] at ih
        obtain ⟨ashmem'', hrest, hbytes''⟩ := ih
        rw [if_pos (by omega)]
        refine ⟨ashmem'', hrest, ?_⟩
        have hcons : packed (s :: ss) = (s ++ [0]) ++ packed ss := rfl
        rw [hbytes'', hcons, Nat.sub_sub]
        simp only [List.append_assoc]
      · rw [if_neg hfits] at ih
        rw [if_neg (by omega)]
        exact ih
    · rw [if_neg hk] at hitem
      rw [hitem, if_neg (by omega)]

/-- A string is found again between its position and its NUL. -/
theorem next_slice (pre : Bytes) {s : Bytes} (post : Bytes) (h : 0 ∉ s) :
    Fields.next (pre ++ ((s ++ [0]) ++ post)) 0 pre.length = some (pre.length + s.length) ∧
      Fields.slice (pre ++ ((s ++ [0]) ++ post)) (pre.length, pre.length + s.length) = s := by
  constructor
  · refine Fields.next_eq_some_iff.2 ⟨Nat.le_add_right _ _, ?_, fun k hk hlt hget => h ?_⟩
    · rw [List.getElem?_append_right (Nat.le_add_right _ _), Nat.add_sub_cancel_left]
      simp
    · rw [List.getElem?_append_right hk, List.append_assoc,
        List.getElem?_append_left (by omega)] at hget
      exact List.mem_of_getElem? hget
  · rw [Fields.slice, List.drop_left, Nat.add_sub_cancel_left, List.append_assoc, List.take_left]

theorem readItems_sizeOf : ∀ (ss : List Bytes) (offset : UInt32) (pre post : Bytes)
    (s : BulkRead), ashmem.mapped = true → ashmem.bytes = pre ++ (packed ss ++ post) →
    offset.toNat = pre.length → (∀ s ∈ ss, 0 ∉ s ∧ s.length < 2 ^ 32 - 1) →
    ∃ reads, readItems c ashmem (ss.map sizeOf) offset s =
      (some true, ⟨s.dest ++ ss.map c.str8ToStr16, reads⟩)
  | [], offset, pre, post, s, _, _, _, _ => ⟨s.reads, by simp [readItems]⟩
  | t :: ss, offset, pre, post, s, hmapped, hbytes, hoffset, hs => by
    obtain ⟨hnul, hlt⟩ := hs t List.mem_cons_self
    have hcons : packed (t :: ss) ++ post = (t ++ [0]) ++ (packed ss ++ post) := by
      simp [packed]
    rw [hcons] at hbytes
    have hv : ashmem.Valid (toInt32 (sizeOf t)) (toInt32 offset) := by
      refine valid_iff.2 ⟨hmapped, ?_⟩
      rw [hoffset, toNat_sizeOf hlt, hbytes]
      simp
    obtain ⟨hoff, -, hnext⟩ := toNat_toInt32 hv
    obtain ⟨hfound, hslice⟩ := next_slice pre (packed ss ++ post) hnul
    obtain ⟨reads, ih⟩ := readItems_sizeOf ss (offset + sizeOf t) (pre ++ (t ++ [0])) post
      ⟨s.dest ++ [c.str8ToStr16 t], s.reads ++ [(pre.length, pre.length + t.length)]⟩ hmapped
      (by rw [hbytes]; simp) (by rw [hnext, hoffset, toNat_sizeOf hlt]; simp)
      fun u hu => hs u (List.mem_cons_of_mem _ hu)
    refine ⟨reads, ?_⟩
    rw [List.map_cons, readItems, Ashmem.readFromAshmem, if_pos hv, hoff, hoffset]
    dsimp only
    rw [hbytes, hfound]
    dsimp only
    rw [hslice, ih]
    simp

theorem parseAllStringItemSize_eq {src : List U16String}
    (hnul : ∀ item ∈ src, 0 ∉ c.str16ToStr8 item) : parseAllStringItemSize c src =
      (src.map c.str16ToStr8).map fun s => (s, sizeOf s) := by
  rw [parseAllStringItemSize, List.map_map]
  refine List.map_congr_left fun item hitem => ?_
  dsimp only [Function.comp]
  rw [cString_eq_self (hnul item hitem), sizeOf]

/-- The region as it is created. -/
def zeroed : Ashmem :=
  ⟨List.replicate ashMemSize 0, by rw [List.length_replicate]; decide, true⟩

/-- `WriteBulkData` with a region, by what the loop does. -/
theorem exec_writeBulkData {src : List U16String} (hnul : ∀ item ∈ src, 0 ∉ c.str16ToStr8 item)
    {sizes : UInt32Vector} (hsizes : sizes.data = (src.map c.str16ToStr8).map sizeOf)
    (parcel : Parcel) : exec (writeBulkData c ⟨true, true⟩ src) parcel =
      match writeItems ((src.map c.str16ToStr8).map fun s => (s, sizeOf s)) 0 zeroed with
      | none => (none, parcel ++ [.uint32Vector sizes])
      | some ashmem => (some ashmem, parcel ++ [.uint32Vector sizes, .ashmem ashmem]) := by
  have hall : ((src.map c.str16ToStr8).map fun s => (s, sizeOf s)).map Prod.snd = sizes.data := by
    rw [hsizes, List.map_map]
    rfl
  have hpush : Parcel.writeUInt32Vector sizes.data = push (.uint32Vector sizes) :=
    dif_pos sizes.length_lt
  have hget : getAshmem ⟨true, true⟩ = some zeroed := rfl
  rw [writeBulkData, parseAllStringItemSize_eq hnul, hall, hpush, exec_bind, hget, Writes.push]
  dsimp only
  rcases writeItems ((src.map c.str16ToStr8).map fun s => (s, sizeOf s)) 0 zeroed with _ | ashmem
  · rfl
  · dsimp only
    rw [exec_bind, Parcel.writeAshmem, Writes.push]
    dsimp only
    rw [exec_pure, List.append_assoc]
    rfl

/-- What does not fit the region is not written. -/
theorem exec_writeBulkData_large {src : List U16String}
    (hnul : ∀ item ∈ src, 0 ∉ c.str16ToStr8 item)
    (hs : ∀ item ∈ src, (c.str16ToStr8 item).length < 2 ^ 32 - 1)
    (hlarge : ashMemSize < (packed (src.map c.str16ToStr8)).length) (parcel : Parcel) :
    (exec (writeBulkData c ⟨true, true⟩ src) parcel).1 = none := by
  by_cases hlength : src.length < 2 ^ 31
  · have hbytes : zeroed.bytes = [] ++ List.replicate ashMemSize 0 := rfl
    have hwrite := writeItems_sizeOf (src.map c.str16ToStr8) 0 rfl hbytes rfl
      (List.forall_mem_map.2 hs)
    rw [if_neg (not_le.2 hlarge)] at hwrite
    have hcount : ((src.map c.str16ToStr8).map sizeOf).length < 2 ^ 31 := by
      rw [List.length_map, List.length_map]
      exact hlength
    rw [@exec_writeBulkData c src hnul ⟨_, hcount⟩ rfl parcel, hwrite]
  · have hfail : Parcel.writeUInt32Vector ((parseAllStringItemSize c src).map Prod.snd) =
        failure := dif_neg (by simpa [parseAllStringItemSize] using hlength)
    rw [writeBulkData, hfail, exec_bind, exec_failure]

/-- What is packed in a region comes back in order. -/
theorem readBulkData_packed {src : List U16String} {post : Bytes}
    (hbytes : ashmem.bytes = packed (src.map c.str16ToStr8) ++ post)
    (hs : ∀ s ∈ src.map c.str16ToStr8, 0 ∉ s ∧ s.length < 2 ^ 32 - 1)
    (hinv : ∀ item ∈ src, c.str8ToStr16 (c.str16ToStr8 item) = item) {sizes : UInt32Vector}
    (hsizes : sizes.data = (src.map c.str16ToStr8).map sizeOf) (dest : List U16String)
    (trailing : Parcel) :
    ∃ reads, readBulkData c ⟨true, true⟩ dest (.uint32Vector sizes :: .ashmem ashmem :: trailing) =
      ((some true, ⟨dest ++ src, reads⟩), trailing) := by
  let mapping : Ashmem := ⟨ashmem.bytes, ashmem.size_lt, true⟩
  obtain ⟨reads, hreads⟩ := @readItems_sizeOf c mapping (src.map c.str16ToStr8) 0 [] _ ⟨dest, []⟩
    rfl hbytes rfl hs
  have hback : (src.map c.str16ToStr8).map c.str8ToStr16 = src := by
    rw [List.map_map]
    exact (List.map_congr_left hinv).trans (List.map_id src)
  have hread : readBulkData c ⟨true, true⟩ dest
      (.uint32Vector sizes :: .ashmem ashmem :: trailing) =
        (readItems c mapping sizes.data 0 ⟨dest, []⟩, trailing) := rfl
  exact ⟨reads, by rw [hread, hsizes, hreads, hback]⟩

/-- What fits the region comes back in order, and what does not is not written. -/
theorem bulkData_roundTrip (c : StringEx) (src : List U16String)
    (hnul : ∀ item ∈ src, 0 ∉ c.str16ToStr8 item) :
    ((src.map fun item => (c.str16ToStr8 item).length + 1).sum ≤ ashMemSize →
      (∀ item ∈ src, c.str8ToStr16 (c.str16ToStr8 item) = item) →
      ∃ ashmem written, (∀ parcel, exec (writeBulkData c ⟨true, true⟩ src) parcel =
          (some ashmem, parcel ++ written)) ∧
        ∀ dest trailing, ∃ reads, readBulkData c ⟨true, true⟩ dest (written ++ trailing) =
          ((some true, ⟨dest ++ src, reads⟩), trailing)) ∧
    (ashMemSize < (src.map fun item => (c.str16ToStr8 item).length + 1).sum →
      (∀ item ∈ src, (c.str16ToStr8 item).length < 2 ^ 32 - 1) →
      ∀ parcel, (exec (writeBulkData c ⟨true, true⟩ src) parcel).1 = none) := by
  have hsum : (src.map fun item => (c.str16ToStr8 item).length + 1).sum =
      (packed (src.map c.str16ToStr8)).length := by
    rw [length_packed, List.map_map]
    rfl
  rw [hsum]
  constructor
  · intro hfits hinv
    have hsmall : ashMemSize < 2 ^ 31 := by decide
    obtain ⟨hcount, hitems⟩ := le_length_packed (src.map c.str16ToStr8)
    have hmem : ∀ s ∈ src.map c.str16ToStr8, 0 ∉ s ∧ s.length < 2 ^ 32 - 1 := by
      intro s hs
      have hle := hitems s hs
      obtain ⟨item, hitem, rfl⟩ := List.mem_map.1 hs
      exact ⟨hnul item hitem, by omega⟩
    have hbytes : zeroed.bytes = [] ++ List.replicate ashMemSize 0 := rfl
    have hwrite := writeItems_sizeOf (src.map c.str16ToStr8) 0 rfl hbytes rfl
      fun s hs => (hmem s hs).2
    rw [if_pos hfits] at hwrite
    obtain ⟨ashmem, hashmem, hbytes'⟩ := hwrite
    have hlength : ((src.map c.str16ToStr8).map sizeOf).length < 2 ^ 31 := by
      rw [List.length_map]
      omega
    refine ⟨ashmem, [.uint32Vector ⟨_, hlength⟩, .ashmem ashmem], fun parcel => ?_,
      readBulkData_packed hbytes' hmem hinv rfl⟩
    rw [@exec_writeBulkData c src hnul ⟨_, hlength⟩ rfl, hashmem]
  · exact fun hlarge hs => exec_writeBulkData_large hnul hs hlarge

/-- The conversions on strings of ASCII characters. -/
def ascii : StringEx :=
  ⟨List.map UInt16.toUInt8, List.map UInt8.toUInt16⟩

theorem bulkData_roundTrip_ascii :
    ∃ ashmem written, (∀ parcel, exec (writeBulkData ascii ⟨true, true⟩ [[48], [49], []]) parcel =
        (some ashmem, parcel ++ written)) ∧
      ∀ dest trailing, ∃ reads, readBulkData ascii ⟨true, true⟩ dest (written ++ trailing) =
        ((some true, ⟨dest ++ [[48], [49], []], reads⟩), trailing) :=
  (bulkData_roundTrip ascii [[48], [49], []] (by decide)).1 (by decide) (by decide)

/-! ## Where a reader stays -/

/-- Where an item begins, by the sizes before it. -/
def offsetOf (sizes : List UInt32) (i : ℕ) : ℕ :=
  ((sizes.take i).map UInt32.toNat).sum

/-- Each item that is reached has a NUL behind it in the mapping, and if all are in the mapping
none has its first NUL behind the next item's begin. -/
structure Terminated (sizes : List UInt32) (bytes : Bytes) : Prop where
  mapped : ∀ i < sizes.length, offsetOf sizes (i + 1) ≤ bytes.length →
    ∃ nul, offsetOf sizes i ≤ nul ∧ bytes[nul]? = some 0
  inside : offsetOf sizes sizes.length ≤ bytes.length → ∀ i < sizes.length,
    ∃ nul, offsetOf sizes i ≤ nul ∧ nul ≤ offsetOf sizes (i + 1) ∧ bytes[nul]? = some 0

/-- No byte behind the mapping is read, and if the data is accepted each string is made of the bytes
of its item. -/
structure StaysInside (sizes : List UInt32) (bytes : Bytes) (r : Option Bool × BulkRead) :
    Prop where
  mapped : ∀ read ∈ r.2.reads, read.2 < bytes.length
  inside : r.1 = some true → ∀ (i : ℕ) (read : ℕ × ℕ), r.2.reads[i]? = some read →
    ∀ k, read.1 ≤ k → k < read.2 → offsetOf sizes i ≤ k ∧ k < offsetOf sizes (i + 1)

/-- There is a NUL from a position on. -/
def HasNul (bytes : Bytes) (pos : ℕ) : Prop :=
  ∃ nul, pos ≤ nul ∧ bytes[nul]? = some 0

theorem offsetOf_cons (size : UInt32) (rest : List UInt32) (i : ℕ) :
    offsetOf (size :: rest) (i + 1) = size.toNat + offsetOf rest i := by
  rw [offsetOf, List.take_succ_cons, List.map_cons, List.sum_cons, offsetOf]

theorem offsetOf_zero (sizes : List UInt32) : offsetOf sizes 0 = 0 := by
  rw [offsetOf, List.take_zero]
  rfl

theorem offsetOf_mono (sizes : List UInt32) {i j : ℕ} (h : i ≤ j) :
    offsetOf sizes i ≤ offsetOf sizes j := by
  obtain ⟨k, rfl⟩ := Nat.exists_eq_add_of_le h
  rw [offsetOf, offsetOf, List.take_add, List.map_append, List.sum_append]
  exact Nat.le_add_right _ _

theorem hasNul_iff {bytes : Bytes} {pos : ℕ} :
    HasNul bytes pos ↔ Fields.next bytes 0 pos ≠ none := by
  rw [Ne, Fields.next_eq_none_iff, HasNul]
  push Not
  rfl

theorem toNat_add_of_le (hmapped : ashmem.mapped = true)
    (h : offset.toNat + size.toNat ≤ ashmem.bytes.length) :
    (offset + size).toNat = offset.toNat + size.toNat :=
  (toNat_toInt32 (valid_iff.2 ⟨hmapped, h⟩)).2.2

/-- One round of the reader, on an item that is in the mapping or not. -/
theorem readItems_cons (hmapped : ashmem.mapped = true) (size offset : UInt32)
    (rest : List UInt32) (s : BulkRead) : readItems c ashmem (size :: rest) offset s =
      if offset.toNat + size.toNat ≤ ashmem.bytes.length then
        match Fields.next ashmem.bytes 0 offset.toNat with
        | none => (none, ⟨s.dest, s.reads ++ [(offset.toNat, ashmem.bytes.length)]⟩)
        | some nul =>
          readItems c ashmem rest (offset + size)
            ⟨s.dest ++ [c.str8ToStr16 (Fields.slice ashmem.bytes (offset.toNat, nul))],
              s.reads ++ [(offset.toNat, nul)]⟩
      else (some false, s) := by
  rw [readItems, Ashmem.readFromAshmem]
  by_cases hv : ashmem.Valid (toInt32 size) (toInt32 offset)
  · rw [if_pos hv, if_pos (valid_iff.1 hv).2, (toNat_toInt32 hv).1]
  · rw [if_neg hv, if_neg fun hle => hv (valid_iff.2 ⟨hmapped, hle⟩)]

/-- The reader stays in the mapping if and only if each item that is reached has a NUL. -/
theorem reads_mapped_iff (hmapped : ashmem.mapped = true) : ∀ (sizes : List UInt32)
    (offset : UInt32) (s : BulkRead), offset.toNat ≤ ashmem.bytes.length →
    ((∀ read ∈ (readItems c ashmem sizes offset s).2.reads, read.2 < ashmem.bytes.length) ↔
      (∀ read ∈ s.reads, read.2 < ashmem.bytes.length) ∧
      ∀ i < sizes.length, offset.toNat + offsetOf sizes (i + 1) ≤ ashmem.bytes.length →
        HasNul ashmem.bytes (offset.toNat + offsetOf sizes i))
  | [], offset, s, _ => by simp [readItems]
  | size :: rest, offset, s, hoffset => by
    have hsplit : (∀ i < (size :: rest).length, offset.toNat + offsetOf (size :: rest) (i + 1) ≤
        ashmem.bytes.length → HasNul ashmem.bytes (offset.toNat + offsetOf (size :: rest) i)) ↔
        (offset.toNat + size.toNat ≤ ashmem.bytes.length →
          HasNul ashmem.bytes offset.toNat) ∧
        ∀ i < rest.length, offset.toNat + size.toNat + offsetOf rest (i + 1) ≤
          ashmem.bytes.length →
            HasNul ashmem.bytes (offset.toNat + size.toNat + offsetOf rest i) := by
      rw [List.length_cons, Nat.forall_lt_succ_left]
      simp only [offsetOf_cons, offsetOf_zero, Nat.add_zero, Nat.add_assoc]
    rw [hsplit, readItems_cons hmapped]
    split_ifs with hle
    · rcases hnext : Fields.next ashmem.bytes 0 offset.toNat with _ | nul
      · have hno : ¬HasNul ashmem.bytes offset.toNat := fun h => hasNul_iff.1 h hnext
        refine iff_of_false (fun h => ?_) fun h => hno (h.2.1 hle)
        exact lt_irrefl _ (h (offset.toNat, ashmem.bytes.length) (by simp))
      · obtain ⟨hfrom, hget, -⟩ := Fields.next_eq_some_iff.1 hnext
        have hnul : nul < ashmem.bytes.length := (List.getElem?_eq_some_iff.1 hget).1
        have hsum := toNat_add_of_le hmapped hle
        have ih := reads_mapped_iff hmapped rest (offset + size)
          ⟨s.dest ++ [c.str8ToStr16 (Fields.slice ashmem.bytes (offset.toNat, nul))],
            s.reads ++ [(offset.toNat, nul)]⟩ (by omega)
        dsimp only at ih ⊢
        rw [ih, hsum, List.forall_mem_append, List.forall_mem_singleton]
        constructor
        · rintro ⟨⟨hs, -⟩, hrest⟩
          exact ⟨hs, fun _ => ⟨nul, hfrom, hget⟩, hrest⟩
        · rintro ⟨hs, -, hrest⟩
          exact ⟨⟨hs, hnul⟩, hrest⟩
    · refine ⟨fun hs => ⟨hs, fun h => absurd h hle, fun i _ h => absurd h ?_⟩, fun h => h.1⟩
      omega

/-- Data that is accepted : every item is in the mapping, and its string goes up to its NUL. -/
theorem readItems_true (hmapped : ashmem.mapped = true) : ∀ (sizes : List UInt32)
    (offset : UInt32) (s : BulkRead), offset.toNat ≤ ashmem.bytes.length →
    (readItems c ashmem sizes offset s).1 = some true →
    offset.toNat + offsetOf sizes sizes.length ≤ ashmem.bytes.length ∧
    ∃ log : List (ℕ × ℕ), log.length = sizes.length ∧
      (readItems c ashmem sizes offset s).2.reads = s.reads ++ log ∧
      (readItems c ashmem sizes offset s).2.dest =
        s.dest ++ log.map (fun read => c.str8ToStr16 (Fields.slice ashmem.bytes read)) ∧
      ∀ (i : ℕ) (read : ℕ × ℕ), log[i]? = some read →
        read.1 = offset.toNat + offsetOf sizes i ∧
          Fields.next ashmem.bytes 0 read.1 = some read.2
  | [], offset, s, hoffset, _ => by
    refine ⟨hoffset, [], rfl, ?_, ?_, fun i read h => nomatch h⟩
    · rw [List.append_nil]
      rfl
    · rw [List.map_nil, List.append_nil]
      rfl
  | size :: rest, offset, s, hoffset, htrue => by
    rw [readItems_cons hmapped] at htrue ⊢
    split_ifs at htrue ⊢ with hle
    · rcases hnext : Fields.next ashmem.bytes 0 offset.toNat with _ | nul
      · rw [hnext] at htrue
        exact nomatch htrue
      · rw [hnext] at htrue
        have hsum := toNat_add_of_le hmapped hle
        obtain ⟨hin, log, hlength, hreads, hdest, hlog⟩ :=
          readItems_true hmapped rest (offset + size) _ (by omega) htrue
        dsimp only at hreads hdest ⊢
        rw [List.length_cons, offsetOf_cons]
        refine ⟨by omega, (offset.toNat, nul) :: log, by rw [List.length_cons, hlength], ?_, ?_, ?_⟩
        · rw [hreads, List.append_assoc]
          rfl
        · rw [hdest, List.append_assoc]
          rfl
        · rintro (_ | i) read hread
          · obtain rfl : (offset.toNat, nul) = read := by simpa using hread
            exact ⟨by rw [offsetOf_zero]; rfl, hnext⟩
          · rw [offsetOf_cons]
            obtain ⟨hfirst, hlast⟩ := hlog i read (by simpa using hread)
            exact ⟨by omega, hlast⟩
    · exact nomatch htrue

/-- Data whose items are all in the mapping and have a NUL is accepted. -/
theorem readItems_accepts (hmapped : ashmem.mapped = true) : ∀ (sizes : List UInt32)
    (offset : UInt32) (s : BulkRead),
    offset.toNat + offsetOf sizes sizes.length ≤ ashmem.bytes.length →
    (∀ i < sizes.length, HasNul ashmem.bytes (offset.toNat + offsetOf sizes i)) →
    (readItems c ashmem sizes offset s).1 = some true
  | [], _, _, _, _ => rfl
  | size :: rest, offset, s, hin, hnul => by
    rw [List.length_cons, offsetOf_cons] at hin
    rw [List.length_cons, Nat.forall_lt_succ_left] at hnul
    simp only [offsetOf_cons, offsetOf_zero, Nat.add_zero] at hnul
    have hle : offset.toNat + size.toNat ≤ ashmem.bytes.length := by omega
    have hsum := toNat_add_of_le hmapped hle
    rw [readItems_cons hmapped, if_pos hle]
    rcases hnext : Fields.next ashmem.bytes 0 offset.toNat with _ | nul
    · exact absurd hnext (hasNul_iff.1 hnul.1)
    · refine readItems_accepts hmapped rest (offset + size) _ (by omega) fun i hi => ?_
      rw [hsum, Nat.add_assoc]
      exact hnul.2 i hi

theorem staysInside_iff (hmapped : ashmem.mapped = true) (sizes : List UInt32)
    (dest : List U16String) :
    StaysInside sizes ashmem.bytes (readItems c ashmem sizes 0 ⟨dest, []⟩) ↔
      Terminated sizes ashmem.bytes := by
  have hzero : (0 : UInt32).toNat = 0 := rfl
  have hmap := reads_mapped_iff (c := c) hmapped sizes 0 ⟨dest, []⟩ (Nat.zero_le _)
  have htrue := readItems_true (c := c) hmapped sizes 0 ⟨dest, []⟩ (Nat.zero_le _)
  have haccepts := readItems_accepts (c := c) hmapped sizes 0 ⟨dest, []⟩
  simp only [hzero, Nat.zero_add, List.nil_append] at hmap htrue haccepts
  constructor
  · rintro ⟨hreads, hinside⟩
    have hnuls := (hmap.1 hreads).2
    refine ⟨hnuls, fun hin i hi => ?_⟩
    have hall : ∀ j < sizes.length, HasNul ashmem.bytes (offsetOf sizes j) := fun j hj =>
      hnuls j hj ((offsetOf_mono sizes hj).trans hin)
    obtain ⟨-, log, hlength, hlogReads, -, hlog⟩ := htrue (haccepts hin hall)
    obtain ⟨read, hget⟩ : ∃ read, log[i]? = some read :=
      ⟨_, List.getElem?_eq_getElem (hlength ▸ hi)⟩
    obtain ⟨hfirst, hnext⟩ := hlog i read hget
    obtain ⟨hle, hnul, -⟩ := Fields.next_eq_some_iff.1 hnext
    refine ⟨read.2, hfirst ▸ hle, ?_, hnul⟩
    -- the byte before the NUL is in the item
    by_contra hlt
    have hmono : offsetOf sizes i ≤ offsetOf sizes (i + 1) := offsetOf_mono sizes (Nat.le_succ i)
    rw [← hlogReads] at hget
    have hlast := (hinside (haccepts hin hall) i read hget (read.2 - 1) (by omega) (by omega)).2
    omega
  · rintro ⟨hnuls, hinside⟩
    refine ⟨hmap.2 ⟨fun read hread => absurd hread List.not_mem_nil, hnuls⟩, ?_⟩
    intro hret i read hread k hk hlt
    obtain ⟨hin, log, hlength, hlogReads, -, hlog⟩ := htrue hret
    rw [hlogReads] at hread
    have hi : i < sizes.length := hlength ▸ (List.getElem?_eq_some_iff.1 hread).1
    obtain ⟨hfirst, hnext⟩ := hlog i read hread
    obtain ⟨nul, hfrom, hto, hnul⟩ := hinside hin i hi
    obtain ⟨-, -, hbefore⟩ := Fields.next_eq_some_iff.1 hnext
    -- the first NUL is not behind this one
    have hle : read.2 ≤ nul := by
      by_contra hgt
      exact hbefore nul (by omega) (by omega) hnul
    omega

/-- The reader stays inside the items and the mapping if and only if the data is terminated. -/
theorem readBulkData_staysInside_iff (c : StringEx) (calls : AshmemCalls) (sizes : UInt32Vector)
    (ashmem : Ashmem) (dest : List U16String) (trailing : Parcel) :
    let r := (readBulkData c calls dest (.uint32Vector sizes :: .ashmem ashmem :: trailing)).1
    (r.1 = some true → r.2.reads.length = sizes.data.length ∧
      r.2.dest = dest ++ r.2.reads.map fun read => c.str8ToStr16 (Fields.slice ashmem.bytes read)) ∧
    (StaysInside sizes.data ashmem.bytes r ↔
      (calls.mapped = true → Terminated sizes.data ashmem.bytes)) := by
  intro r
  let mapping : Ashmem := ashmem.mapReadAndWriteAshmem calls
  have hr : r = if calls.mapped then readItems c mapping sizes.data 0 ⟨dest, []⟩
      else (some false, ⟨dest, []⟩) := by
    have hread : readBulkData c calls dest (.uint32Vector sizes :: .ashmem ashmem :: trailing) =
        if calls.mapped then (readItems c mapping sizes.data 0 ⟨dest, []⟩, trailing)
        else ((some false, ⟨dest, []⟩), trailing) := rfl
    dsimp only [r]
    rw [hread]
    split_ifs
    all_goals rfl
  by_cases hmapped : calls.mapped = true
  · rw [if_pos hmapped] at hr
    rw [hr]
    refine ⟨fun htrue => ?_, ?_⟩
    · obtain ⟨-, log, hlength, hreads, hdest, -⟩ :=
        @readItems_true c mapping hmapped sizes.data 0 _ (Nat.zero_le _) htrue
      rw [hreads, hdest]
      exact ⟨hlength, rfl⟩
    · have hiff := @staysInside_iff c mapping hmapped sizes.data dest
      exact hiff.trans ⟨fun h _ => h, fun h => h hmapped⟩
  · rw [if_neg hmapped] at hr
    rw [hr]
    refine ⟨fun htrue => absurd htrue (by simp), iff_of_true ⟨?_, ?_⟩ fun h => absurd h hmapped⟩
    · exact fun read hread => absurd hread List.not_mem_nil
    · exact fun htrue => absurd htrue (by simp)

/-- A string goes on into the next item, or behind the mapping. -/
theorem not_readBulkData_staysInside :
    let read (sizes : UInt32Vector) (ashmem : Ashmem) :=
      (readBulkData ascii ⟨true, true⟩ [] [.uint32Vector sizes, .ashmem ashmem]).1
    read ⟨[1, 2], by decide⟩ ⟨[65, 66, 0], by decide, true⟩ =
      (some true, ⟨[[65, 66], [66]], [(0, 2), (1, 2)]⟩) ∧
    read ⟨[1], by decide⟩ ⟨[65], by decide, true⟩ = (none, ⟨[], [(0, 1)]⟩) ∧
    ¬∀ (sizes : UInt32Vector) (ashmem : Ashmem),
      StaysInside sizes.data ashmem.bytes (read sizes ashmem) := by
  refine ⟨rfl, rfl, fun h => ?_⟩
  have hread := (h ⟨[1], by decide⟩ ⟨[65], by decide, true⟩).mapped (0, 1) (by decide)
  exact absurd hread (by decide)

end AshMemUtils

end HiSysEvent
