import HiSysEvent.RawDataBaseDef

/-!
# The encoders

The encoders of `raw_data_encoder.h` append to a buffer one piece after another and stop
at the first append that fails. A `Writer` is such a function : it returns whether it
succeeded, with the buffer and the outcomes of the allocations left.

Every encoder is `appendAll` of a fixed list of pieces (`unsignedVarintEncoded_eq`,
`stringValueEncoded_eq`, `floatingNumberEncoded_eq`). On a valid buffer `appendAll` asks
for `growths` allocations. If all are granted it appends every piece
(`appendAll_granted`), otherwise it stops before the first piece that needs a refused
one (`appendAll_refused`).
-/

namespace HiSysEvent

open Wire

/-- Append to a buffer. `false` if an allocation failed. -/
abbrev Writer := RawData × Alloc → Bool × RawData × Alloc

namespace Writer

/-- Append the bytes `bs` in one call. -/
def append (bs : Bytes) : Writer :=
  fun s => s.1.append (some bs) bs.length s.2

/-- Nothing left to do. -/
def done : Writer :=
  fun s => (true, s)

/-- `w && w'`. -/
def andThen (w w' : Writer) : Writer := fun s =>
  match w s with
  | (true, s') => w' s'
  | (false, s') => (false, s')

/-- Append the pieces one by one, up to the first failure. -/
def appendAll : List Bytes → Writer
  | [] => done
  | b :: bs => (append b).andThen (appendAll bs)

theorem andThen_assoc (w w' w'' : Writer) :
    (w.andThen w').andThen w'' = w.andThen (w'.andThen w'') := by
  funext s
  simp only [andThen]
  rcases w s with ⟨_ | _, s'⟩ <;> rfl

theorem andThen_done (w : Writer) : w.andThen done = w := by
  funext s
  simp only [andThen]
  rcases w s with ⟨_ | _, s'⟩ <;> rfl

theorem appendAll_singleton (b : Bytes) : appendAll [b] = append b :=
  andThen_done _

theorem appendAll_append :
    ∀ bs cs : List Bytes, appendAll (bs ++ cs) = (appendAll bs).andThen (appendAll cs)
  | [], _ => rfl
  | b :: bs, cs => by
    rw [List.cons_append, appendAll, appendAll, appendAll_append bs cs, andThen_assoc]

/-- The loop `for (auto item : vals) ret = ret && enc(item)`. -/
theorem foldl_andThen {α : Type} {enc : α → Writer} {pieces : α → List Bytes}
    (h : ∀ x, enc x = appendAll (pieces x)) :
    ∀ (xs : List α) (bs : List Bytes),
      xs.foldl (fun w x => w.andThen (enc x)) (appendAll bs) =
        appendAll (bs ++ xs.flatMap pieces)
  | [], bs => by simp
  | x :: xs, bs => by
    rw [List.foldl_cons, h, ← appendAll_append, foldl_andThen h xs]
    simp

/-! ## One append -/

theorem append_fits {d : RawData} (h : d.Valid) {b : Bytes} (hfit : d.len + b.length ≤ d.capacity)
    (a : Alloc) : ∃ d', append b (d, a) = (true, d', a) ∧ d'.Valid ∧
      d'.capacity = d.capacity ∧ d'.content = d.content ++ b := by
  by_cases h0 : b.length = 0
  · refine ⟨d, by simp only [append, RawData.append, h0, if_true], h, rfl, ?_⟩
    rw [List.length_eq_zero_iff.1 h0, List.append_nil]
  · obtain ⟨d', hup, hv, hc, hcont⟩ := RawData.update_fits h b le_rfl hfit a
    refine ⟨d', by simp only [append, RawData.append, h0, if_false, hup], hv, hc, ?_⟩
    rw [hcont, ← h.length_content, overwrite_length_left]

theorem append_grows {d : RawData} (h : d.Valid) {b : Bytes} (hfull : d.capacity < d.len + b.length)
    {a : Alloc} (ha : a.next = true) : ∃ d', append b (d, a) = (true, d', a.drop 1) ∧ d'.Valid ∧
      d'.capacity = d.capacity + RawData.expansion b.length ∧ d'.content = d.content ++ b := by
  have hle := h.len_le
  obtain ⟨d', hup, hv, hc, hcont⟩ := RawData.update_grows h le_rfl hfull ha
  refine ⟨d', by simp only [append, RawData.append, if_neg (show ¬b.length = 0 by omega), hup],
    hv, hc, ?_⟩
  rw [hcont, ← h.length_content, overwrite_length_left]

theorem append_refused {d : RawData} (h : d.Valid) {b : Bytes}
    (hfull : d.capacity < d.len + b.length) {a : Alloc} (ha : a.next = false) :
    append b (d, a) = (false, d, a.drop 1) := by
  have hle := h.len_le
  simp only [append, RawData.append, if_neg (show ¬b.length = 0 by omega),
    RawData.update_refused h le_rfl hfull ha]

/-! ## A sequence of appends -/

/-- The allocations that appending `bs` asks for when each is granted, from a buffer of
the size `cap` with `len` bytes in use. -/
def growths : ℕ → ℕ → List Bytes → ℕ
  | _, _, [] => 0
  | len, cap, b :: bs =>
    if len + b.length ≤ cap then growths (len + b.length) cap bs
    else 1 + growths (len + b.length) (cap + RawData.expansion b.length) bs

/-- The coming `n` allocations succeed. -/
def Granted (a : Alloc) (n : ℕ) : Prop :=
  ∀ i < n, a i = true

instance decidableGranted (a : Alloc) (n : ℕ) : Decidable (Granted a n) :=
  inferInstanceAs (Decidable (∀ i < n, a i = true))

theorem granted_always (n : ℕ) : Granted Alloc.always n :=
  fun _ _ => rfl

theorem granted_succ (a : Alloc) (n : ℕ) :
    Granted a (1 + n) ↔ a.next = true ∧ Granted (a.drop 1) n := by
  constructor
  · exact fun h => ⟨h 0 (by omega), fun i hi => h (1 + i) (by omega)⟩
  · rintro ⟨h0, h⟩ i hi
    rcases i with _ | i
    · exact h0
    · have := h i (by omega)
      rwa [Alloc.drop, Nat.add_comm] at this

/-- With every allocation granted, every piece is appended. -/
theorem appendAll_granted : ∀ (bs : List Bytes) {d : RawData} (_ : d.Valid) {a : Alloc},
    Granted a (growths d.len d.capacity bs) →
      ∃ d', appendAll bs (d, a) = (true, d', a.drop (growths d.len d.capacity bs)) ∧ d'.Valid ∧
        d'.content = d.content ++ bs.flatten
  | [], d, h, a, _ => ⟨d, by simp [appendAll, done, growths], h, by simp⟩
  | b :: bs, d, h, a, hg => by
    have hlen := h.length_content
    rcases Nat.lt_or_ge d.capacity (d.len + b.length) with hfull | hfit
    · rw [growths, if_neg (by omega)] at hg ⊢
      obtain ⟨ha, hg⟩ := (granted_succ _ _).1 hg
      obtain ⟨d₁, happ, hv, hc, hcont⟩ := append_grows h hfull ha
      have hlen₁ : d₁.len = d.len + b.length := by
        rw [← hv.length_content, hcont, List.length_append, hlen]
      rw [← hlen₁, ← hc] at hg ⊢
      obtain ⟨d₂, happ₂, hv₂, hcont₂⟩ := appendAll_granted bs hv hg
      refine ⟨d₂, ?_, hv₂, by rw [hcont₂, hcont, List.flatten_cons, List.append_assoc]⟩
      simp only [appendAll, andThen, happ, happ₂, Alloc.drop_drop]
    · rw [growths, if_pos hfit] at hg ⊢
      obtain ⟨d₁, happ, hv, hc, hcont⟩ := append_fits h hfit a
      have hlen₁ : d₁.len = d.len + b.length := by
        rw [← hv.length_content, hcont, List.length_append, hlen]
      rw [← hlen₁, ← hc] at hg ⊢
      obtain ⟨d₂, happ₂, hv₂, hcont₂⟩ := appendAll_granted bs hv hg
      refine ⟨d₂, ?_, hv₂, by rw [hcont₂, hcont, List.flatten_cons, List.append_assoc]⟩
      simp only [appendAll, andThen, happ, happ₂]

/-- With an allocation refused, the pieces before the one that needs it stay behind. There
are none only if already the first piece needs it. -/
theorem appendAll_refused : ∀ (bs : List Bytes) {d : RawData} (_ : d.Valid) {a : Alloc},
    ¬Granted a (growths d.len d.capacity bs) →
      ∃ d' a', appendAll bs (d, a) = (false, d', a') ∧ d'.Valid ∧
        ∃ k, d'.content = d.content ++ (bs.take k).flatten ∧
          (k = 0 → d.capacity < d.len + (bs.headD []).length ∧ a.next = false)
  | [], d, h, a, hg => absurd (fun i hi => absurd hi (Nat.not_lt_zero i)) hg
  | b :: bs, d, h, a, hg => by
    have hlen := h.length_content
    rcases Nat.lt_or_ge d.capacity (d.len + b.length) with hfull | hfit
    · rw [growths, if_neg (by omega)] at hg
      cases ha : a.next with
      | false =>
        refine ⟨d, a.drop 1, ?_, h, 0, by simp, fun _ => ⟨hfull, rfl⟩⟩
        simp only [appendAll, andThen, append_refused h hfull ha]
      | true =>
        obtain ⟨d₁, happ, hv, hc, hcont⟩ := append_grows h hfull ha
        have hlen₁ : d₁.len = d.len + b.length := by
          rw [← hv.length_content, hcont, List.length_append, hlen]
        have hg' : ¬Granted (a.drop 1) (growths d₁.len d₁.capacity bs) := by
          rw [hlen₁, hc]
          exact fun h' => hg ((granted_succ _ _).2 ⟨ha, h'⟩)
        obtain ⟨d₂, a₂, happ₂, hv₂, k, hcont₂, -⟩ := appendAll_refused bs hv hg'
        refine ⟨d₂, a₂, ?_, hv₂, k + 1, by simp [hcont₂, hcont], fun hk => by omega⟩
        simp only [appendAll, andThen, happ, happ₂]
    · rw [growths, if_pos hfit] at hg
      obtain ⟨d₁, happ, hv, hc, hcont⟩ := append_fits h hfit a
      have hlen₁ : d₁.len = d.len + b.length := by
        rw [← hv.length_content, hcont, List.length_append, hlen]
      rw [← hlen₁, ← hc] at hg
      obtain ⟨d₂, a₂, happ₂, hv₂, k, hcont₂, -⟩ := appendAll_refused bs hv hg
      refine ⟨d₂, a₂, ?_, hv₂, k + 1, by simp [hcont₂, hcont], fun hk => by omega⟩
      simp only [appendAll, andThen, happ, happ₂]

/-- Whatever the allocations, a success means that every piece was appended. -/
theorem appendAll_true {bs : List Bytes} {d d' : RawData} {a a' : Alloc} (h : d.Valid)
    (happ : appendAll bs (d, a) = (true, d', a')) :
    d'.Valid ∧ d'.content = d.content ++ bs.flatten := by
  by_cases hg : Granted a (growths d.len d.capacity bs)
  · obtain ⟨d₁, h₁, hv, hcont⟩ := appendAll_granted bs h hg
    rw [happ] at h₁
    cases h₁
    exact ⟨hv, hcont⟩
  · obtain ⟨d₁, a₁, h₁, -⟩ := appendAll_refused bs h hg
    rw [happ] at h₁
    cases h₁

end Writer

/-! ## Varints -/

namespace RawDataEncoder

open Writer

abbrev tagByteOffset : ℕ := 5
abbrev tagByteBound : ℕ := 1 <<< tagByteOffset
abbrev tagByteMask : ℕ := tagByteBound - 1
abbrev nonTagByteOffset : ℕ := 7
abbrev nonTagByteBound : ℕ := 1 <<< nonTagByteOffset
abbrev nonTagByteMask : ℕ := nonTagByteBound - 1

/-- `EncodedTag`: the type in the tag's bits. -/
def encodedTag (type : UInt8) : UInt8 :=
  type <<< (UInt8.ofNat (tagByteOffset + 1))

/-- The first byte of a varint. -/
def tagByte (type : EncodeType) (val : ℕ) : UInt8 :=
  encodedTag (UInt8.ofNat type.toNat) |||
    (if val < tagByteBound then 0 else UInt8.ofNat tagByteBound) |||
    UInt8.ofNat (val &&& tagByteMask)

/-- A byte of a varint after the first. -/
def nonTagByte (val : ℕ) : UInt8 :=
  (if val < nonTagByteBound then 0 else UInt8.ofNat nonTagByteBound) |||
    UInt8.ofNat (val &&& nonTagByteMask)

/-- The loop over the bytes after the first. -/
def unsignedVarintLoop (val : ℕ) : Writer :=
  if val > 0 then
    (append [nonTagByte val]).andThen (unsignedVarintLoop (val >>> nonTagByteOffset))
  else done
termination_by val
decreasing_by
  rw [Nat.shiftRight_eq_div_pow]
  exact Nat.div_lt_self (by omega) (by decide)

/-- The width of `T` only bounds `val` : no operation on it wraps. -/
def unsignedVarintEncoded (type : EncodeType) (val : ℕ) : Writer :=
  (append [tagByte type val]).andThen (unsignedVarintLoop (val >>> tagByteOffset))

/-- `static_cast<uint64_t>(valInt64) << 1 ^ signMask`. -/
def zigzagEncoded {w : ℕ} (val : BitVec w) : BitVec 64 :=
  let valInt64 : BitVec 64 := val.signExtend 64
  let signMask : BitVec 64 := if val.toInt ≥ 0 then 0#64 else BitVec.allOnes 64
  (valInt64 <<< 1) ^^^ signMask

/-- `SignedVarintEncoded`: the zigzag of the value, unsigned. -/
def signedVarintEncoded {w : ℕ} (type : EncodeType) (val : BitVec w) : Writer :=
  unsignedVarintEncoded type (zigzagEncoded val).toNat

/-! ## Floating numbers, strings and type bytes -/

/-- `bytes` is the object representation of the number. -/
def floatingNumberEncoded (size : ℕ) (bytes : Bytes) : Writer :=
  (unsignedVarintEncoded .lengthDelimited size).andThen (append bytes)

/-- `StringValueEncoded`: the length, then the bytes. -/
def stringValueEncoded (val : Bytes) : Writer :=
  (unsignedVarintEncoded .lengthDelimited val.length).andThen (append val)

/-- `ValueTypeEncoded`. -/
def valueTypeEncoded (isArray : Bool) (type : ValueType) (count : ℕ) : Writer :=
  append [ParamValueType.toByte {
    isArray := if isArray then 1 else 0
    valueType := BitVec.ofNat 4 type.toNat
    valueByteCnt := BitVec.ofNat 3 count }]

/-! ## The pieces of each encoder -/

/-- The bytes of a varint, appended one at a time. -/
def varintPieces (type : EncodeType) (val : ℕ) : List Bytes :=
  (tagged type.toNat val).map fun b => [b]

theorem nonTagByte_eq (val : ℕ) :
    nonTagByte val = UInt8.ofNat ((if val < 128 then 0 else 128) + val % 128) := by
  have hand : val &&& nonTagByteMask = val % 128 := Nat.and_two_pow_sub_one_eq_mod val 7
  have hlt : val % 128 < 128 := Nat.mod_lt _ (by decide)
  have hbytes : ∀ (n : Fin 128) (p : Prop) [Decidable p],
      (if p then 0 else UInt8.ofNat nonTagByteBound) ||| UInt8.ofNat n =
        UInt8.ofNat ((if p then 0 else 128) + n) := by
    intro n p _
    by_cases hp : p <;> simp only [hp, if_true, if_false] <;> revert n <;> decide
  rw [nonTagByte, hand]
  exact hbytes ⟨val % 128, hlt⟩ (val < 128)

theorem tagByte_eq (type : EncodeType) (val : ℕ) :
    tagByte type val =
      UInt8.ofNat (64 * type.toNat + (if val < 32 then 0 else 32) + val % 32) := by
  have hand : val &&& tagByteMask = val % 32 := Nat.and_two_pow_sub_one_eq_mod val 5
  have hlt : val % 32 < 32 := Nat.mod_lt _ (by decide)
  have hbytes : ∀ (n : Fin 32) (p : Prop) [Decidable p],
      encodedTag (UInt8.ofNat type.toNat) ||| (if p then 0 else UInt8.ofNat tagByteBound) |||
        UInt8.ofNat n = UInt8.ofNat (64 * type.toNat + (if p then 0 else 32) + n) := by
    intro n p _
    cases type <;> by_cases hp : p <;> simp only [hp, if_true, if_false] <;> revert n <;> decide
  rw [tagByte, hand]
  exact hbytes ⟨val % 32, hlt⟩ (val < 32)

theorem unsignedVarintLoop_zero : unsignedVarintLoop 0 = done := by
  funext s
  rw [unsignedVarintLoop, if_neg (by omega)]

theorem unsignedVarintLoop_pos {val : ℕ} (h : 0 < val) :
    unsignedVarintLoop val = (append [nonTagByte val]).andThen (unsignedVarintLoop (val / 128)) := by
  funext s
  rw [unsignedVarintLoop, if_pos h, Nat.shiftRight_eq_div_pow]
  rfl

theorem unsignedVarintLoop_eq (val : ℕ) :
    unsignedVarintLoop val = appendAll ((groups val).map fun b => [b]) := by
  induction val using Nat.strong_induction_on with
  | _ val ih =>
    rcases Nat.eq_zero_or_pos val with rfl | hpos
    · rw [unsignedVarintLoop_zero, groups_zero]
      rfl
    · rw [unsignedVarintLoop_pos hpos, groups_pos hpos, nonTagByte_eq, ih _ (by omega)]
      rfl

theorem unsignedVarintEncoded_eq (type : EncodeType) (val : ℕ) :
    unsignedVarintEncoded type val = appendAll (varintPieces type val) := by
  rw [unsignedVarintEncoded, unsignedVarintLoop_eq, Nat.shiftRight_eq_div_pow, tagByte_eq]
  rfl

theorem floatingNumberEncoded_eq (size : ℕ) (bytes : Bytes) :
    floatingNumberEncoded size bytes =
      appendAll (varintPieces .lengthDelimited size ++ [bytes]) := by
  rw [floatingNumberEncoded, unsignedVarintEncoded_eq, appendAll_append, appendAll_singleton]

theorem stringValueEncoded_eq (val : Bytes) :
    stringValueEncoded val = appendAll (varintPieces .lengthDelimited val.length ++ [val]) := by
  rw [stringValueEncoded, unsignedVarintEncoded_eq, appendAll_append, appendAll_singleton]

@[simp] theorem flatten_varintPieces (type : EncodeType) (val : ℕ) :
    (varintPieces type val).flatten = tagged type.toNat val := by
  simp [varintPieces, List.flatten_eq_flatMap, List.flatMap_map]

/-- On at most 64 bits the shift and the mask compute the zigzag of the value. -/
theorem toNat_zigzagEncoded {w : ℕ} (hw : w ≤ 64) (val : BitVec w) :
    (zigzagEncoded val).toNat = zigzag val.toInt := by
  have hext : (val.signExtend 64).toInt = val.toInt := BitVec.toInt_signExtend_of_le hw
  have hlt := (val.signExtend 64).isLt
  rw [BitVec.toInt_eq_toNat_cond] at hext
  by_cases h : val.toInt ≥ 0
  · simp only [zigzagEncoded, zigzag, if_pos h, BitVec.xor_zero, BitVec.toNat_shiftLeft,
      Nat.shiftLeft_eq]
    split_ifs at hext <;> omega
  · simp only [zigzagEncoded, zigzag, if_neg h, BitVec.xor_allOnes, BitVec.toNat_not,
      BitVec.toNat_shiftLeft, Nat.shiftLeft_eq]
    split_ifs at hext <;> omega

end RawDataEncoder

end HiSysEvent
