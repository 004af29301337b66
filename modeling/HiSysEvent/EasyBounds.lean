import HiSysEvent.EasyWriter

/-!
# The bounds of the easy writer's buffer

The encoders of the easy writer at any offset of a buffer, also one past its end. Each
puts bytes at the offset as far as there is room (`EventBuffer.Wrote`). A write past the
end would lengthen the buffer, so nothing behind it is written.

An encoder succeeds if and only if its whole encoding fits (`Encodes`). One that fails
after a part of it leaves that part, and the offset behind it.
-/

namespace HiSysEvent

namespace Easy

open Wire

/-! ## Writes within the buffer -/

namespace EventBuffer

/-- Some bytes that fit are put, or nothing is. -/
def Wrote (b b' : EventBuffer) : Prop :=
  b' = b ∨ ∃ bs, b.Fits bs.length ∧ b' = b.put bs

variable {b b' b'' : EventBuffer}

theorem Wrote.refl (b : EventBuffer) : b.Wrote b :=
  Or.inl rfl

theorem Fits.wrote {bs : Bytes} (h : b.Fits bs.length) : b.Wrote (b.put bs) :=
  Or.inr ⟨bs, h, rfl⟩

theorem Wrote.trans (h : b.Wrote b') (h' : b'.Wrote b'') : b.Wrote b'' := by
  rcases h with rfl | ⟨xs, hxs, rfl⟩
  · exact h'
  · rcases h' with rfl | ⟨ys, hys, rfl⟩
    · exact hxs.wrote
    · have hoff : b.offset ≤ b.data.length := le_trans (Nat.le_add_right _ _) hxs
      have hlen := length_put hxs
      have hoff' : (b.put xs).offset = b.offset + xs.length := rfl
      refine Or.inr ⟨xs ++ ys, ?_, put_put hoff⟩
      unfold Fits at hys ⊢
      rw [List.length_append]
      omega

theorem Wrote.length (h : b.Wrote b') : b'.data.length = b.data.length := by
  rcases h with rfl | ⟨bs, hbs, rfl⟩
  · rfl
  · exact length_put hbs

theorem Wrote.le_offset (h : b.Wrote b') : b.offset ≤ b'.offset := by
  rcases h with rfl | ⟨bs, -, rfl⟩
  · exact le_rfl
  · exact Nat.le_add_right _ _

theorem Wrote.offset_le (h : b.Wrote b') (hb : b.offset ≤ b.data.length) :
    b'.offset ≤ b.data.length := by
  rcases h with rfl | ⟨bs, hbs, rfl⟩
  · exact hb
  · exact hbs

/-- Nothing is written at an offset past the end. -/
theorem Wrote.eq_of_lt (h : b.Wrote b') (hb : b.data.length < b.offset) : b' = b := by
  rcases h with rfl | ⟨bs, hbs, -⟩
  · rfl
  · unfold Fits at hbs
    omega

theorem take_put (h : b.offset ≤ b.data.length) (bs : Bytes) :
    (b.put bs).data.take b.offset = b.data.take b.offset := by
  have hlen : (b.data.take b.offset).length = b.offset := by rw [List.length_take, min_eq_left h]
  rw [put, overwrite, List.append_assoc, List.take_append_of_le_length (by omega),
    List.take_take, min_self]

theorem drop_put (h : b.offset ≤ b.data.length) (bs : Bytes) :
    (b.put bs).data.drop b.offset = bs ++ b.data.drop (b.offset + bs.length) := by
  have hlen : (b.data.take b.offset).length = b.offset := by rw [List.length_take, min_eq_left h]
  rw [put, overwrite, List.append_assoc, List.drop_left' hlen]

theorem Wrote.take (h : b.Wrote b') : b'.data.take b.offset = b.data.take b.offset := by
  rcases h with rfl | ⟨bs, hbs, rfl⟩
  · rfl
  · exact take_put (le_trans (Nat.le_add_right _ _) hbs) bs

/-- The bytes from the new offset on are as before. -/
theorem Wrote.drop (h : b.Wrote b') : b'.data.drop b'.offset = b.data.drop b'.offset := by
  rcases h with rfl | ⟨bs, hbs, rfl⟩
  · rfl
  · have hdrop := drop_put (le_trans (Nat.le_add_right _ _) hbs) bs
    have hoff : (b.put bs).offset = b.offset + bs.length := rfl
    rw [hoff, ← List.drop_drop, hdrop, List.drop_left]

/-- Room behind bytes that were put is room for both. -/
theorem Fits.put_iff {bs : Bytes} {n : ℕ} (h : b.Fits bs.length) :
    (b.put bs).Fits n ↔ b.Fits (bs.length + n) := by
  have hoff : (b.put bs).offset = b.offset + bs.length := rfl
  unfold Fits
  rw [length_put h, hoff, Nat.add_assoc]

theorem lacks_iff {n : ℕ} : b.lacks n ↔ ¬b.Fits n := by
  unfold lacks Fits
  omega

end EventBuffer

/-! ## The encoders -/

theorem unsignedVarintLoop_wrote (val : ℕ) : ∀ b : EventBuffer,
    b.Wrote (unsignedVarintLoop b val).2 := by
  induction val using Nat.strong_induction_on with
  | _ val ih =>
    intro b
    rw [unsignedVarintLoop]
    split
    case isTrue hpos =>
      split
      case isTrue => exact EventBuffer.Wrote.refl b
      case isFalse hroom =>
        have hfits : b.Fits [varintNonTagByte val].length :=
          not_not.1 (mt EventBuffer.lacks_iff.2 hroom)
        have hlt : val >>> nonTagByteOffset < val := by
          rw [Nat.shiftRight_eq_div_pow]
          exact Nat.div_lt_self hpos (by decide)
        exact hfits.wrote.trans (ih _ hlt _)
    case isFalse => exact EventBuffer.Wrote.refl b

/-- The loop fails when its bytes do not fit. -/
theorem unsignedVarintLoop_lacks (val : ℕ) : ∀ {b : EventBuffer}, b.offset ≤ b.data.length →
    ¬b.Fits (groups val).length → (unsignedVarintLoop b val).1 = varIntEncodeFail := by
  induction val using Nat.strong_induction_on with
  | _ val ih =>
    intro b hoff h
    rw [unsignedVarintLoop]
    rcases Nat.eq_zero_or_pos val with rfl | hpos
    · exact absurd hoff (by simpa [groups_zero, EventBuffer.Fits] using h)
    · rw [if_pos hpos]
      split
      case isTrue => rfl
      case isFalse hroom =>
        have hfits : b.Fits [varintNonTagByte val].length :=
          not_not.1 (mt EventBuffer.lacks_iff.2 hroom)
        rw [Nat.shiftRight_eq_div_pow]
        refine ih _ (Nat.div_lt_self hpos (by decide)) ?_ fun hrest => h ?_
        · rw [EventBuffer.length_put hfits]
          exact hfits
        · rw [groups_pos hpos, List.length_cons, Nat.add_comm]
          exact hfits.put_iff.1 hrest

theorem encodeUnsignedVarint_wrote (b : EventBuffer) (encodeType : UInt8) (val : ℕ) :
    b.Wrote (encodeUnsignedVarint b encodeType val).2 := by
  rw [encodeUnsignedVarint]
  split
  case isTrue => exact EventBuffer.Wrote.refl b
  case isFalse hroom =>
    have hfits : b.Fits [varintTagByte encodeType val].length :=
      not_not.1 (mt EventBuffer.lacks_iff.2 hroom)
    exact hfits.wrote.trans (unsignedVarintLoop_wrote _ _)

theorem encodeUnsignedVarint_lacks {b : EventBuffer} {encodeType : UInt8} {val : ℕ}
    (h : ¬b.Fits (tagged 1 val).length) :
    (encodeUnsignedVarint b encodeType val).1 = varIntEncodeFail := by
  rw [encodeUnsignedVarint]
  split
  case isTrue => rfl
  case isFalse hroom =>
    have hfits : b.Fits [varintTagByte encodeType val].length :=
      not_not.1 (mt EventBuffer.lacks_iff.2 hroom)
    rw [Nat.shiftRight_eq_div_pow]
    refine unsignedVarintLoop_lacks _ ?_ fun hrest => h ?_
    · rw [EventBuffer.length_put hfits]
      exact hfits
    · rw [tagged, List.length_cons, Nat.add_comm]
      exact hfits.put_iff.1 hrest

theorem encodeValueType_lacks {b : EventBuffer} {valueType : ParamValueType} (h : ¬b.Fits 1) :
    encodeValueType b valueType = (errEncodeValueTypeFailed, b) := by
  rw [encodeValueType, if_pos (EventBuffer.lacks_iff.2 h)]

theorem encodeValueType_fits {b : EventBuffer} {valueType : ParamValueType} (h : b.Fits 1) :
    encodeValueType b valueType = (success, b.put [valueType.toByte]) := by
  rw [encodeValueType, if_neg h.not_lacks]

/-- What is left of a string that does not fit : its length, or a part of that. -/
theorem encodeStringValue_lacks {b : EventBuffer} {content : Bytes}
    (h : ¬b.Fits (ValueType.encodeItem .string (cString content)).length) :
    (encodeStringValue b (some content)).1 = errEncodeStrFailed ∧
      b.Wrote (encodeStringValue b (some content)).2 := by
  have hwrote := encodeUnsignedVarint_wrote b lengthDelimitedEncodeType (strlen content)
  by_cases hlen : b.Fits (tagged 1 (strlen content)).length
  · have hrest : ¬(b.put (tagged 1 (strlen content))).Fits (strlen content) := by
      rw [hlen.put_iff]
      rwa [ValueType.encodeItem, List.length_append] at h
    simp only [encodeStringValue, encodeLength_fits hlen, ne_eq, not_true_eq_false,
      if_false, if_pos (EventBuffer.lacks_iff.2 hrest), true_and]
    exact hlen.wrote
  · have hfail : (encodeUnsignedVarint b lengthDelimitedEncodeType (strlen content)).1 =
        varIntEncodeFail := encodeUnsignedVarint_lacks hlen
    have hne : (encodeUnsignedVarint b lengthDelimitedEncodeType (strlen content)).1 ≠
        varIntEncodeSuccess := by
      rw [hfail]
      decide
    simp only [encodeStringValue, if_pos hne, true_and]
    exact hwrote

theorem encodeStringValue_wrote (b : EventBuffer) (content : Bytes) :
    b.Wrote (encodeStringValue b (some content)).2 := by
  by_cases h : b.Fits (ValueType.encodeItem .string (cString content)).length
  · rw [encodeStringValue_fits h]
    exact h.wrote
  · exact (encodeStringValue_lacks h).2

/-- What is left of a parameter that does not fit : those of its three parts that do. -/
theorem appendStringParam_lacks {b : EventBuffer} {key val : Bytes}
    (h : ¬(strlen val ≤ dataMaxLen ∧
      b.Fits (Param.encode (cString key, .scalar .string (cString val))).length)) :
    (appendStringParam b (some key) (some val)).1 ≠ success ∧
      b.Wrote (appendStringParam b (some key) (some val)).2 := by
  have hstr : errEncodeStrFailed ≠ success := by decide
  have htype : errEncodeValueTypeFailed ≠ success := by decide
  by_cases hval : strlen val ≤ dataMaxLen
  · have hparam : Param.encode (cString key, .scalar .string (cString val)) =
        ValueType.encodeItem .string (cString key) ++ ([24] ++
          ValueType.encodeItem .string (cString val)) := rfl
    have hbyte : ParamValueType.toByte ⟨0, strParamValueType, 0⟩ = 24 := rfl
    simp only [appendStringParam, if_neg (Nat.not_lt.2 hval)]
    by_cases hkey : b.Fits (ValueType.encodeItem .string (cString key)).length
    · rw [encodeStringValue_fits hkey]
      simp only [ne_eq, not_true_eq_false, if_false]
      generalize hb1 : b.put (ValueType.encodeItem .string (cString key)) = b1 at *
      have hwrote1 : b.Wrote b1 := hb1 ▸ hkey.wrote
      by_cases hone : b1.Fits 1
      · rw [encodeValueType_fits hone, hbyte]
        simp only [not_true_eq_false, if_false]
        have hbyteFits : b1.Fits [(24 : UInt8)].length := hone
        have hwrote2 : b1.Wrote (b1.put [24]) := hbyteFits.wrote
        have hrest : ¬(b1.put [24]).Fits (ValueType.encodeItem .string (cString val)).length := by
          intro hrest
          rw [hbyteFits.put_iff, ← hb1, hkey.put_iff] at hrest
          refine h ⟨hval, ?_⟩
          rwa [hparam, List.length_append, List.length_append]
        obtain ⟨hfail, hwrote3⟩ := encodeStringValue_lacks hrest
        exact ⟨by rwa [hfail], hwrote1.trans (hwrote2.trans hwrote3)⟩
      · rw [encodeValueType_lacks hone]
        simp only [htype, not_false_eq_true, if_true, true_and]
        exact hwrote1
    · obtain ⟨hfail, hwrote⟩ := encodeStringValue_lacks hkey
      have hne : (encodeStringValue b (some key)).1 ≠ success := by rwa [hfail]
      simp only [if_pos hne]
      exact ⟨hne, hwrote⟩
  · have hlong : strlen val > dataMaxLen := Nat.lt_of_not_le hval
    simp only [appendStringParam, if_pos hlong]
    exact ⟨by decide, EventBuffer.Wrote.refl b⟩

/-! ## What an encoder does -/

/-- What an encoder of `enc` at the offset of `b` returns and leaves. Besides room it may ask
for `allowed`. -/
structure Encodes (b : EventBuffer) (enc : Bytes) (allowed : Prop) (r : ℤ × EventBuffer) : Prop where
  length : r.2.data.length = b.data.length
  below : r.2.data.take b.offset = b.data.take b.offset
  above : r.2.data.drop r.2.offset = b.data.drop r.2.offset
  le_offset : b.offset ≤ r.2.offset
  offset_le : b.offset ≤ b.data.length → r.2.offset ≤ b.data.length
  past : b.data.length < b.offset → r.2 = b
  success_iff : r.1 = success ↔
    allowed ∧ b.offset ≤ b.data.length ∧ enc.length ≤ b.data.length - b.offset
  written : r.1 = success →
    r.2.offset = b.offset + enc.length ∧ (r.2.data.drop b.offset).take enc.length = enc

theorem encodes_of {b : EventBuffer} {enc : Bytes} {allowed : Prop} {r : ℤ × EventBuffer}
    (hwrote : b.Wrote r.2) (hfits : allowed → b.Fits enc.length → r = (success, b.put enc))
    (hlacks : ¬(allowed ∧ b.Fits enc.length) → r.1 ≠ success) : Encodes b enc allowed r := by
  have hiff : r.1 = success ↔ allowed ∧ b.Fits enc.length := by
    refine ⟨fun h => ?_, fun h => by rw [hfits h.1 h.2]⟩
    by_contra hnot
    exact hlacks hnot h
  have hroom : b.Fits enc.length ↔
      b.offset ≤ b.data.length ∧ enc.length ≤ b.data.length - b.offset := by
    unfold EventBuffer.Fits
    omega
  refine ⟨hwrote.length, hwrote.take, hwrote.drop, hwrote.le_offset, hwrote.offset_le,
    hwrote.eq_of_lt, by rw [hiff, hroom], fun h => ?_⟩
  obtain ⟨hallowed, hfit⟩ := hiff.1 h
  rw [hfits hallowed hfit]
  refine ⟨rfl, ?_⟩
  rw [EventBuffer.drop_put (le_trans (Nat.le_add_right _ _) hfit), List.take_left]

theorem appendHeader_fits {b : EventBuffer} {header : HiSysEventEasyHeader}
    (h : b.Fits header.toBytes.length) :
    appendHeader b header = (success, b.put header.toBytes) := by
  rw [length_toBytes] at h
  rw [appendHeader, if_neg h.not_lacks]

theorem appendHeader_lacks {b : EventBuffer} {header : HiSysEventEasyHeader}
    (h : ¬b.Fits header.toBytes.length) : appendHeader b header = (errMemOptFailed, b) := by
  rw [length_toBytes] at h
  rw [appendHeader, if_pos (EventBuffer.lacks_iff.2 h)]

/-- An encoder that writes all or nothing. -/
theorem encodes_or_stays {b : EventBuffer} {enc : Bytes} {r : ℤ × EventBuffer} {err : ℤ}
    (herr : err ≠ success) (hfits : b.Fits enc.length → r = (success, b.put enc))
    (hlacks : ¬b.Fits enc.length → r = (err, b)) :
    Encodes b enc True r ∧ (r.1 ≠ success → r.2 = b) := by
  by_cases h : b.Fits enc.length
  · obtain rfl := hfits h
    exact ⟨encodes_of h.wrote (fun _ _ => rfl) fun hnot => absurd ⟨trivial, h⟩ hnot,
      fun hne => absurd rfl hne⟩
  · obtain rfl := hlacks h
    exact ⟨encodes_of (EventBuffer.Wrote.refl b) (fun _ hfit => absurd hfit h) fun _ => herr,
      fun _ => rfl⟩

/-- No encoder writes outside the rest of the buffer, each succeeds if and only if its whole
encoding fits, and the two that write in one step write all or nothing. -/
theorem encoders_bounded (b : EventBuffer) :
    (∀ header, Encodes b header.toBytes True (appendHeader b header) ∧
      ((appendHeader b header).1 ≠ success → (appendHeader b header).2 = b)) ∧
    (∀ valueType, Encodes b [valueType.toByte] True (encodeValueType b valueType) ∧
      ((encodeValueType b valueType).1 ≠ success → (encodeValueType b valueType).2 = b)) ∧
    (∀ content, Encodes b (ValueType.encodeItem .string (cString content)) True
      (encodeStringValue b (some content))) ∧
    ∀ key val, Encodes b (Param.encode (cString key, .scalar .string (cString val)))
      (strlen val ≤ dataMaxLen) (appendStringParam b (some key) (some val)) := by
  refine ⟨fun header => ?_, fun valueType => ?_, fun content => ?_, fun key val => ?_⟩
  · exact encodes_or_stays (by decide) appendHeader_fits appendHeader_lacks
  · exact encodes_or_stays (by decide) (fun h => encodeValueType_fits h)
      fun h => encodeValueType_lacks h
  · refine encodes_of (encodeStringValue_wrote b content) (fun _ h => encodeStringValue_fits h)
      fun h => ?_
    rw [(encodeStringValue_lacks fun hfits => h ⟨trivial, hfits⟩).1]
    decide
  · refine encodes_of ?_ (fun hval h => appendStringParam_fits hval h)
      fun h => (appendStringParam_lacks h).1
    by_cases h : strlen val ≤ dataMaxLen ∧
        b.Fits (Param.encode (cString key, .scalar .string (cString val))).length
    · rw [appendStringParam_fits h.1 h.2]
      exact h.2.wrote
    · exact (appendStringParam_lacks h).2

end Easy

end HiSysEvent
