import HiSysEvent.EasyWriter
import HiSysEvent.RawDataEncoder

/-!
# The code of the varints

`UnsignedVarintEncoded` is a template. Its operations on a `T` of `w` bits are on `T` after
the integer promotions, and store their results as a `T` again (`Typed`). On every type
they compute what the natural numbers do (`unsignedVarintEncoded_toNat`), and so does
`EncodeUnsignedVarint` of the easy writer.

What is appended is a prefix-free code of the tag and the value (`varint_code`).
-/

namespace HiSysEvent

open Wire Writer

theorem EncodeType.toNat_lt (type : EncodeType) : type.toNat < 4 := by
  cases type <;> decide

theorem EncodeType.toNat_inj {t t' : EncodeType} (h : t.toNat = t'.toNat) : t = t' := by
  cases t <;> cases t' <;> simp_all [EncodeType.toNat]

namespace RawDataEncoder

/-! ## The template on a type -/

namespace Typed

/-- The width of a type after the integer promotions, with `int` and `unsigned int` of 32 bits. -/
def promoted (w : ℕ) : ℕ :=
  max w 32

variable {w : ℕ}

/-- The value after integral promotion. -/
def promote (val : BitVec w) : BitVec (promoted w) :=
  val.setWidth (promoted w)

/-- `val >>= n`. -/
def shiftedRight (val : BitVec w) (n : ℕ) : BitVec w :=
  (promote val >>> n).setWidth w

/-- `(val < bound ? 0 : bound) | static_cast<uint8_t>(val & mask)`, an `unsigned int` that is
stored in a `uint8_t`. -/
def payloadByte (tag : UInt8) (bound mask : ℕ) (val : BitVec w) : UInt8 :=
  let continued : BitVec 32 :=
    if promote val < BitVec.ofNat (promoted w) bound then 0 else BitVec.ofNat 32 bound
  let payload : BitVec 8 := (promote val &&& BitVec.ofNat (promoted w) mask).setWidth 8
  UInt8.ofBitVec ((tag.toBitVec.setWidth 32 ||| continued ||| payload.setWidth 32).setWidth 8)

theorem toNat_shiftedRight (val : BitVec w) (n : ℕ) :
    (shiftedRight val n).toNat = val.toNat >>> n := by
  have hle : val.toNat >>> n ≤ val.toNat := Nat.shiftRight_le _ _
  have hlt := val.isLt
  have hpow : 2 ^ w ≤ 2 ^ promoted w := Nat.pow_le_pow_right (by decide) (le_max_left w 32)
  rw [shiftedRight, promote, BitVec.toNat_setWidth, BitVec.toNat_ushiftRight,
    BitVec.toNat_setWidth, Nat.mod_eq_of_lt (a := val.toNat) (by omega),
    Nat.mod_eq_of_lt (by omega)]

/-- The loop of `UnsignedVarintEncoded` on a `T`. -/
def unsignedVarintLoop (val : BitVec w) : Writer :=
  if 0 < val then
    (append [payloadByte 0 nonTagByteBound nonTagByteMask val]).andThen
      (unsignedVarintLoop (shiftedRight val nonTagByteOffset))
  else done
termination_by val.toNat
decreasing_by
  rename_i h
  rw [toNat_shiftedRight, Nat.shiftRight_eq_div_pow]
  exact Nat.div_lt_self (by simpa [BitVec.lt_def] using h) (by decide)

/-- `UnsignedVarintEncoded` on a `T`. -/
def unsignedVarintEncoded (type : EncodeType) (val : BitVec w) : Writer :=
  (append [payloadByte (encodedTag (UInt8.ofNat type.toNat)) tagByteBound tagByteMask val]).andThen
    (unsignedVarintLoop (shiftedRight val tagByteOffset))

/-! ### On every type the same -/

theorem toNat_promote (val : BitVec w) : (promote val).toNat = val.toNat := by
  have hlt := val.isLt
  have hpow : 2 ^ w ≤ 2 ^ promoted w := Nat.pow_le_pow_right (by decide) (le_max_left w 32)
  rw [promote, BitVec.toNat_setWidth, Nat.mod_eq_of_lt (by omega)]

theorem toNat_ofNat_promoted {n : ℕ} (h : n < 2 ^ 32) :
    (BitVec.ofNat (promoted w) n).toNat = n := by
  have hpow : 2 ^ 32 ≤ 2 ^ promoted w := Nat.pow_le_pow_right (by decide) (le_max_right w 32)
  rw [BitVec.toNat_ofNat, Nat.mod_eq_of_lt (by omega)]

theorem payloadByte_eq (tag : UInt8) {bound mask : ℕ} (hbound : bound < 256) (hmask : mask < 256)
    (val : BitVec w) : payloadByte tag bound mask val =
      tag ||| (if val.toNat < bound then 0 else UInt8.ofNat bound) |||
        UInt8.ofNat (val.toNat &&& mask) := by
  have hlt : promote val < BitVec.ofNat (promoted w) bound ↔ val.toNat < bound := by
    rw [BitVec.lt_def, toNat_promote, toNat_ofNat_promoted (by omega)]
  have hand : (promote val &&& BitVec.ofNat (promoted w) mask).toNat = val.toNat &&& mask := by
    rw [BitVec.toNat_and, toNat_promote, toNat_ofNat_promoted (by omega)]
  have hpayload : (promote val &&& BitVec.ofNat (promoted w) mask).setWidth 8 =
      BitVec.ofNat 8 (val.toNat &&& mask) := by
    refine BitVec.eq_of_toNat_eq ?_
    rw [BitVec.toNat_setWidth, hand, BitVec.toNat_ofNat]
  have hnarrow : ∀ x : BitVec 8, (x.setWidth 32).setWidth 8 = x := fun x =>
    BitVec.setWidth_setWidth_of_le x (by decide)
  rw [payloadByte, hpayload, BitVec.setWidth_or, BitVec.setWidth_or, hnarrow, hnarrow]
  by_cases h : val.toNat < bound
  · rw [if_pos (hlt.2 h), if_pos h]
    rfl
  · rw [if_neg (mt hlt.1 h), if_neg h]
    have hwide : (BitVec.ofNat 32 bound).setWidth 8 = BitVec.ofNat 8 bound := by
      refine BitVec.eq_of_toNat_eq ?_
      rw [BitVec.toNat_setWidth, BitVec.toNat_ofNat, BitVec.toNat_ofNat]
      omega
    rw [hwide]
    rfl

theorem unsignedVarintLoop_toNat (val : BitVec w) :
    unsignedVarintLoop val = RawDataEncoder.unsignedVarintLoop val.toNat := by
  induction hn : val.toNat using Nat.strong_induction_on generalizing val with
  | _ n ih =>
    subst hn
    have hlt : 0 < val ↔ 0 < val.toNat := by
      rw [BitVec.lt_def]
      rfl
    funext s
    rw [unsignedVarintLoop, RawDataEncoder.unsignedVarintLoop]
    by_cases h : 0 < val.toNat
    · have hshift := toNat_shiftedRight val nonTagByteOffset
      have hsmall : val.toNat >>> nonTagByteOffset < val.toNat := by
        rw [Nat.shiftRight_eq_div_pow]
        exact Nat.div_lt_self h (by decide)
      have hbyte : payloadByte 0 nonTagByteBound nonTagByteMask val = nonTagByte val.toNat := by
        rw [payloadByte_eq 0 (by decide) (by decide), UInt8.zero_or, nonTagByte]
      rw [if_pos (hlt.2 h), if_pos h, hbyte, ih _ (hshift ▸ hsmall) _ rfl, hshift]
    · rw [if_neg (mt hlt.1 h), if_neg h]

/-- The template does on every type what the natural numbers do. -/
theorem unsignedVarintEncoded_toNat (type : EncodeType) (val : BitVec w) :
    unsignedVarintEncoded type val = RawDataEncoder.unsignedVarintEncoded type val.toNat := by
  have hbyte : payloadByte (encodedTag (UInt8.ofNat type.toNat)) tagByteBound tagByteMask val =
      tagByte type val.toNat :=
    payloadByte_eq _ (by decide) (by decide) val
  rw [unsignedVarintEncoded, hbyte, unsignedVarintLoop_toNat, toNat_shiftedRight]
  rfl

/-- `SignedVarintEncoded` of a `bool`, whose sign mask is zero. -/
def zigzagEncodedBool (val : Bool) : BitVec 64 :=
  let valInt64 : BitVec 64 := if val then 1#64 else 0#64
  let signMask : BitVec 64 := 0#64
  (valInt64 <<< 1) ^^^ signMask

/-- `SignedVarintEncoded` at the value's own type. -/
def signedVarintEncoded (type : EncodeType) (val : BitVec w) : Writer :=
  unsignedVarintEncoded type (zigzagEncoded val)

/-- `SignedVarintEncoded` of a boolean. -/
def signedVarintEncodedBool (type : EncodeType) (val : Bool) : Writer :=
  unsignedVarintEncoded type (zigzagEncodedBool val)

end Typed

/-! ## The bytes of an encoder -/

open Typed

/-- What an encoder appends to an empty buffer. -/
def encoded (enc : Writer) : Bytes :=
  (enc (RawData.new Alloc.always)).2.1.content

theorem encoded_appendAll (bs : List Bytes) : encoded (appendAll bs) = bs.flatten := by
  obtain ⟨hv, hcont, -⟩ := RawData.valid_new (a := Alloc.always) rfl
  obtain ⟨d', happ, -, hcont'⟩ := appendAll_granted bs hv (granted_always _)
  have hnew : RawData.new Alloc.always = ((RawData.new Alloc.always).1, Alloc.always) := rfl
  rw [encoded, hnew, happ, hcont', hcont, List.nil_append]

variable {w : ℕ}

theorem unsignedVarintEncoded_eq_appendAll (type : EncodeType) (val : BitVec w) :
    Typed.unsignedVarintEncoded type val = appendAll (varintPieces type val.toNat) := by
  rw [unsignedVarintEncoded_toNat, unsignedVarintEncoded_eq]

theorem encoded_unsignedVarint (type : EncodeType) (val : BitVec w) :
    encoded (Typed.unsignedVarintEncoded type val) = tagged type.toNat val.toNat := by
  rw [unsignedVarintEncoded_eq_appendAll, encoded_appendAll, flatten_varintPieces]

theorem read_unsignedVarint (type : EncodeType) (val : BitVec w) (rest : Bytes) :
    readTagged.run (encoded (Typed.unsignedVarintEncoded type val) ++ rest) =
      some ((type.toNat, val.toNat), rest) := by
  rw [encoded_unsignedVarint]
  exact reads_readTagged type.toNat_lt val.toNat rest

theorem toInt_zigzagEncodedBool (val : Bool) :
    unzigzag (zigzagEncodedBool val).toNat = if val then 1 else 0 := by
  cases val <;> decide

/-- The varints are a prefix-free code of tags and values, one to ten bytes long, with the
continuation bits on all bytes but the last. The code is the same for every type of the value and
for the easy writer, and signed values are decoded with the zigzag undone. -/
theorem varint_code :
    (∀ (t t' : EncodeType) (n m : BitVec 64) (r s : Bytes),
      encoded (Typed.unsignedVarintEncoded t n) ++ r =
        encoded (Typed.unsignedVarintEncoded t' m) ++ s → t = t' ∧ n = m ∧ r = s) ∧
    (∀ (t : EncodeType) (n : BitVec 64), 1 ≤ (encoded (Typed.unsignedVarintEncoded t n)).length ∧
      (encoded (Typed.unsignedVarintEncoded t n)).length ≤ 10 ∧
      ∀ (i : ℕ) (h : i < (encoded (Typed.unsignedVarintEncoded t n)).length),
        (encoded (Typed.unsignedVarintEncoded t n))[i].toNat.testBit (continuationBit i) =
          decide (i + 1 < (encoded (Typed.unsignedVarintEncoded t n)).length)) ∧
    (∀ (t : EncodeType) {w w' : ℕ} (n : BitVec w) (n' : BitVec w'), n.toNat = n'.toNat →
      Typed.unsignedVarintEncoded t n = Typed.unsignedVarintEncoded t n') ∧
    (∀ (t : EncodeType) {w : ℕ} (n : BitVec w) {d d' : RawData} {a a' : Alloc}, d.Valid →
      Typed.unsignedVarintEncoded t n (d, a) = (true, d', a') →
        d'.content = d.content ++ encoded (Typed.unsignedVarintEncoded t n)) ∧
    (∀ (t : EncodeType) (n : BitVec 64) (b : Easy.EventBuffer),
      b.Fits (encoded (Typed.unsignedVarintEncoded t n)).length →
        Easy.encodeUnsignedVarint b (UInt8.ofNat t.toNat) n.toNat =
          (Easy.varIntEncodeSuccess, b.put (encoded (Typed.unsignedVarintEncoded t n)))) ∧
    (∀ (t : EncodeType) {w : ℕ} (val : BitVec w) (rest : Bytes), w ≤ 64 →
      ∃ u, readTagged.run (encoded (Typed.signedVarintEncoded t val) ++ rest) =
        some ((t.toNat, u), rest) ∧ unzigzag u = val.toInt) ∧
    ∀ (t : EncodeType) (val : Bool) (rest : Bytes),
      ∃ u, readTagged.run (encoded (signedVarintEncodedBool t val) ++ rest) =
        some ((t.toNat, u), rest) ∧ unzigzag u = if val then 1 else 0 := by
  refine ⟨?_, ?_, ?_, ?_, ?_, ?_, ?_⟩
  · intro t t' n m r s h
    have hread := read_unsignedVarint t n r
    rw [h, read_unsignedVarint, Option.some.injEq, Prod.mk.injEq, Prod.mk.injEq] at hread
    obtain ⟨⟨htag, hval⟩, hrest⟩ := hread
    exact ⟨EncodeType.toNat_inj htag.symm, BitVec.eq_of_toNat_eq hval.symm, hrest.symm⟩
  · intro t n
    rw [encoded_unsignedVarint]
    refine ⟨by rw [tagged, List.length_cons]; omega, ?_, fun i h => ?_⟩
    · exact length_tagged_le _ (lt_trans n.isLt (by decide))
    · exact testBit_tagged t.toNat_lt n.toNat h
  · intro t w w' n n' h
    rw [unsignedVarintEncoded_toNat, unsignedVarintEncoded_toNat, h]
  · intro t w n d d' a a' hd h
    rw [unsignedVarintEncoded_eq_appendAll] at h ⊢
    rw [encoded_appendAll]
    exact (appendAll_true hd h).2
  · intro t n b h
    rw [encoded_unsignedVarint] at h ⊢
    exact Easy.encodeUnsignedVarint_fits t h
  · intro t w val rest hw
    refine ⟨_, read_unsignedVarint t (zigzagEncoded val) rest, ?_⟩
    rw [toNat_zigzagEncoded hw, unzigzag_zigzag]
  · intro t val rest
    exact ⟨_, read_unsignedVarint t (zigzagEncodedBool val) rest, toInt_zigzagEncodedBool val⟩

end RawDataEncoder

end HiSysEvent
