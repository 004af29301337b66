import Mathlib.Data.List.Zip
import HiSysEvent.HiSysEventParam

/-!
# Parameters written from Rust

The Rust `write` copies each name into a zeroed array of 49 bytes, and `ConvertParamWrapper` copies
it from there, up to the first NUL, into an array on the stack that was not cleared. What
follows the name there is what the stack held before.

So a parameter is handed over unchanged exactly if its name has at most 48 bytes, the byte
behind it was a NUL before, and the array size fits an `unsigned int`
(`handedOver_convertParam_iff`, `rustWrite_faithful_iff`).
-/

namespace HiSysEvent

open Wire

/-! ## Strings at the border -/

/-- `CString::new(src).unwrap()`, which panics if there is a NUL. -/
def cStringNew (src : Bytes) : Option Bytes :=
  if 0 ∈ src then none else some src

namespace CharArray

variable {n : ℕ}

/-- `dest[..end].copy_from_slice(&name[..end])` of the bytes that fit. -/
def copySlice (dest : CharArray n) (name : Bytes) : CharArray n :=
  ⟨overwrite dest.1 0 (name.take (if name.length ≤ n then name.length else n)), by
    rw [length_overwrite (Nat.zero_le _), dest.2, List.length_take]
    split <;> omega⟩

end CharArray

/-- Translate a `&str` to an array. -/
def transSliceToArray {n : ℕ} (src : Bytes) (dest : CharArray n) : Option (CharArray n) :=
  (cStringNew src).map dest.copySlice

/-- Copy up to the end of either array, or to the first NUL, which is not copied. -/
def copyUntilNul : Bytes → Bytes → Bytes
  | c :: src, d :: dest => if c ≠ 0 then c :: copyUntilNul src dest else d :: dest
  | _, dest => dest

theorem copyUntilNul_eq : ∀ {src dest : Bytes}, src.length ≤ dest.length →
    copyUntilNul src dest = cString src ++ dest.drop (cString src).length
  | [], dest, _ => by cases dest <;> simp [copyUntilNul, cString]
  | c :: src, d :: dest, h => by
    by_cases hc : c = 0
    · simp [copyUntilNul, cString, hc]
    · have ih := @copyUntilNul_eq src dest (by simpa using h)
      have hcons : cString (c :: src) = c :: cString src := by simp [cString, hc]
      rw [copyUntilNul, if_pos hc, ih, hcons]
      rfl
  | _ :: _, [], h => absurd h (by simp)

theorem length_copyUntilNul : ∀ src dest : Bytes, (copyUntilNul src dest).length = dest.length
  | [], dest => by cases dest <;> rfl
  | _ :: _, [] => rfl
  | c :: src, d :: dest => by
    rw [copyUntilNul]
    split
    · rw [List.length_cons, length_copyUntilNul src dest, List.length_cons]
    · rfl

namespace CharArray

variable {n : ℕ}

/-- `for (j = 0; j < n && src[j] != '\0'; j++) dest[j] = src[j]`. -/
def copyName (dest src : CharArray n) : CharArray n :=
  ⟨copyUntilNul src.1 dest.1, (length_copyUntilNul _ _).trans dest.2⟩

end CharArray

theorem cString_append {s : Bytes} (h : 0 ∉ s) (t : Bytes) : cString (s ++ t) = s ++ cString t :=
  List.takeWhile_append_of_pos fun b hb => by simpa using fun h0 : b = 0 => h (h0 ▸ hb)

/-- The slice is read back from the zeroed array as far as it fits. -/
theorem cString_copySlice_zero {n : ℕ} {src : Bytes} (h : 0 ∉ src) :
    cString ((CharArray.zero n).copySlice src).1 = src.take n := by
  have htake : src.take (if src.length ≤ n then src.length else n) = src.take n := by
    split
    case isTrue hle => rw [List.take_of_length_le le_rfl, List.take_of_length_le hle]
    case isFalse => rfl
  have hnotMem : 0 ∉ src.take n := fun h0 => h (List.mem_of_mem_take h0)
  simp only [CharArray.copySlice, htake, overwrite, CharArray.zero, List.take_zero,
    List.nil_append, List.drop_replicate]
  exact cString_pad hnotMem _

/-- The slice, copied through a zeroed array, lies over what was there before. -/
theorem copyName_copySlice {n : ℕ} {src : Bytes} (h : 0 ∉ src) (dest : CharArray n) :
    (dest.copyName ((CharArray.zero n).copySlice src)).1 =
      src.take n ++ dest.1.drop (min n src.length) := by
  have hcopy := @copyUntilNul_eq ((CharArray.zero n).copySlice src).1 dest.1
    (by rw [((CharArray.zero n).copySlice src).2, dest.2])
  rw [cString_copySlice_zero h, List.length_take] at hcopy
  exact hcopy

/-- Panicking for one item is panicking for the list. -/
theorem mapM_guard {α β : Type} {f : α → Option β} {g : α → β} {bad : α → Prop} [DecidablePred bad]
    (h : ∀ a, f a = if bad a then none else some (g a)) : ∀ l : List α,
      l.mapM f = if ∃ a ∈ l, bad a then none else some (l.map g)
  | [] => by simp
  | a :: l => by
    rw [List.mapM_cons, h a, mapM_guard h l]
    by_cases ha : bad a
    · simp [ha]
    · by_cases hl : ∃ b ∈ l, bad b
      · have hcons : ∃ b ∈ a :: l, bad b := hl.imp fun b hb => ⟨List.mem_cons_of_mem a hb.1, hb.2⟩
        rw [if_neg ha, if_pos hl, if_pos hcons]
        rfl
      · have hcons : ¬∃ b ∈ a :: l, bad b := by simpa [ha] using hl
        rw [if_neg ha, if_neg hl, if_neg hcons]
        rfl

/-! ## The parameters in Rust -/

/-- `HiSysEventParamType` of `sys_event.rs`. -/
inductive RustParamType
  | invalid
  | bool
  | int8
  | uint8
  | int16
  | uint16
  | int32
  | uint32
  | int64
  | uint64
  | float
  | double
  | paramTypeString
  | boolArray
  | int8Array
  | uint8Array
  | int16Array
  | uint16Array
  | int32Array
  | uint32Array
  | int64Array
  | uint64Array
  | floatArray
  | doubleArray
  | paramTypeStringArray

/-- `param_type as i32`. -/
def RustParamType.code : RustParamType → ℕ
  | .invalid => 0
  | .bool => 1
  | .int8 => 2
  | .uint8 => 3
  | .int16 => 4
  | .uint16 => 5
  | .int32 => 6
  | .uint32 => 7
  | .int64 => 8
  | .uint64 => 9
  | .float => 10
  | .double => 11
  | .paramTypeString => 12
  | .boolArray => 13
  | .int8Array => 14
  | .uint8Array => 15
  | .int16Array => 16
  | .uint16Array => 17
  | .int32Array => 18
  | .uint32Array => 19
  | .int64Array => 20
  | .uint64Array => 21
  | .floatArray => 22
  | .doubleArray => 23
  | .paramTypeStringArray => 24

/-- `HiSysEventParam` of `sys_event.rs`. -/
structure RustParam where
  paramName : Bytes
  paramType : RustParamType
  paramValue : HiSysEventParamValue
  arraySize : UInt64

/-- What is passed over the border. -/
structure HiSysEventParamWrapper where
  paramName : CharArray maxLengthOfParamName
  paramType : ℕ
  paramValue : HiSysEventParamValue
  arraySize : UInt32

/-- The parameter as it crosses the interface, its name in an array of fixed length. -/
def RustParam.wrap (p : RustParam) : Option HiSysEventParamWrapper :=
  (transSliceToArray p.paramName (CharArray.zero maxLengthOfParamName)).map fun name =>
    ⟨name, p.paramType.code, p.paramValue, p.arraySize.toUInt32⟩

/-! ## The wrapper in C -/

/-- What `ConvertParamWrapper` makes of an element of the array on the stack. -/
def convertParam (wrapper : HiSysEventParamWrapper) (dest : HiSysEventParam) : HiSysEventParam :=
  ⟨dest.name.copyName wrapper.paramName, wrapper.paramType, wrapper.paramValue,
    wrapper.arraySize.toNat⟩

/-- `ConvertParamWrapper`: every parameter in turn. -/
def convertParamWrapper (src : List HiSysEventParamWrapper) (dest : List HiSysEventParam) :
    List HiSysEventParam :=
  List.zipWith convertParam src dest

/-- A call of `HiSysEvent_Write`. -/
structure WriteCall where
  func : Bytes
  line : ℕ
  domain : Bytes
  name : Bytes
  type : ℤ
  params : List HiSysEventParam
  size : ℕ

/-- The array `params[size]` lies over `prior`. -/
def hiSysEventWriteWrapper (prior : ℕ → HiSysEventParam) (func : Bytes) (line : ℕ)
    (domain name : Bytes) (type : ℤ) (paramWrappers : List HiSysEventParamWrapper)
    (size : UInt32) : WriteCall :=
  let params := (List.range size.toNat).map prior
  ⟨func, line, domain, name, type, convertParamWrapper paramWrappers params, size.toNat⟩

/-- `write` of `sys_event.rs`, from the function and the line it stands in. -/
def rustWrite (prior : ℕ → HiSysEventParam) (func : Bytes) (line : ℕ)
    (eventDomain eventName : Bytes) (eventType : ℤ) (eventParams : List RustParam) :
    Option WriteCall := do
  let paramsWrapper ← eventParams.mapM RustParam.wrap
  let func ← cStringNew func
  let domain ← cStringNew eventDomain
  let eventName ← cStringNew eventName
  return hiSysEventWriteWrapper prior func line domain eventName eventType paramsWrapper
    (UInt32.ofNat eventParams.length)

/-! ## What is handed over -/

/-- The parameter is handed over as it is, and its name is terminated. -/
structure HandedOver (p : RustParam) (q : HiSysEventParam) : Prop where
  key : p.paramName.length ≤ maxParamNameLength → q.key = p.paramName
  terminated : 0 ∈ q.name.1
  type : q.t = p.paramType.code
  value : q.v = p.paramValue
  arraySize : q.arraySize = p.arraySize.toNat

/-- All parameters are handed over, in their order. -/
structure WriteCall.Faithful (call : WriteCall) (params : List RustParam) : Prop where
  size : call.size = params.length
  params : ∀ (i : ℕ) (p : RustParam), params[i]? = some p →
    ∃ q, call.params[i]? = some q ∧ HandedOver p q

/-- The name is short, with a NUL behind its place in the array before, and the size fits. -/
structure RustParam.Clean (p : RustParam) (dest : HiSysEventParam) : Prop where
  length : p.paramName.length ≤ maxParamNameLength
  terminated : dest.name.1[p.paramName.length]? = some 0
  arraySize : p.arraySize.toNat < 2 ^ 32

/-- The wrapper of a parameter whose name has no NUL. -/
def RustParam.wrapper (p : RustParam) : HiSysEventParamWrapper :=
  ⟨(CharArray.zero _).copySlice p.paramName, p.paramType.code, p.paramValue,
    p.arraySize.toUInt32⟩

theorem wrap_eq (p : RustParam) :
    p.wrap = if 0 ∈ p.paramName then none else some p.wrapper := by
  rw [RustParam.wrap, transSliceToArray, cStringNew]
  split <;> rfl

variable {p : RustParam} {dest : HiSysEventParam}

theorem convertParam_name (h : 0 ∉ p.paramName) :
    (convertParam p.wrapper dest).name.1 = p.paramName.take maxLengthOfParamName ++
      dest.name.1.drop (min maxLengthOfParamName p.paramName.length) :=
  copyName_copySlice h dest.name

/-- A name of at most 48 bytes is read back if a NUL follows it. -/
theorem key_convertParam_iff (h : 0 ∉ p.paramName)
    (hlength : p.paramName.length ≤ maxParamNameLength) :
    (convertParam p.wrapper dest).key = p.paramName ↔
      dest.name.1[p.paramName.length]? = some 0 := by
  have hlt : p.paramName.length < dest.name.1.length := by
    rw [dest.name.2]
    exact Nat.lt_succ_of_le hlength
  have hmin : min maxLengthOfParamName p.paramName.length = p.paramName.length :=
    min_eq_right (Nat.le_succ_of_le hlength)
  rw [HiSysEventParam.key, convertParam_name h, hmin,
    List.take_of_length_le (Nat.le_succ_of_le hlength), cString_append h,
    List.drop_eq_getElem_cons hlt, List.append_right_eq_self, List.getElem?_eq_getElem hlt,
    Option.some_inj, cString, List.takeWhile_cons]
  by_cases hzero : dest.name.1[p.paramName.length] = 0
  · simp [hzero]
  · simp [hzero]

/-- A longer name fills the array. -/
theorem terminated_convertParam (h : 0 ∉ p.paramName)
    (hmem : 0 ∈ (convertParam p.wrapper dest).name.1) :
    p.paramName.length ≤ maxParamNameLength := by
  by_contra hlong
  have hle : maxLengthOfParamName ≤ p.paramName.length := Nat.lt_of_not_le hlong
  rw [convertParam_name h, min_eq_left hle,
    List.drop_of_length_le (le_of_eq dest.name.2), List.append_nil] at hmem
  exact h (List.mem_of_mem_take hmem)

theorem handedOver_convertParam_iff (h : 0 ∉ p.paramName) :
    HandedOver p (convertParam p.wrapper dest) ↔ p.Clean dest := by
  have hsize : p.arraySize.toUInt32.toNat = p.arraySize.toNat ↔ p.arraySize.toNat < 2 ^ 32 := by
    rw [UInt64.toNat_toUInt32]
    omega
  constructor
  · intro hover
    have hlength := terminated_convertParam h hover.terminated
    exact ⟨hlength, (key_convertParam_iff h hlength).1 (hover.key hlength),
      hsize.1 hover.arraySize⟩
  · intro hclean
    have hzero : (0 : UInt8) ∈ dest.name.1.drop p.paramName.length :=
      List.mem_of_getElem? (i := 0) (by simpa using hclean.terminated)
    refine ⟨fun _ => (key_convertParam_iff h hclean.length).2 hclean.terminated, ?_, rfl, rfl,
      hsize.2 hclean.arraySize⟩
    rw [convertParam_name h, min_eq_right (Nat.le_succ_of_le hclean.length)]
    exact List.mem_append_right _ hzero

/-! ## The call -/

variable (prior : ℕ → HiSysEventParam) (func : Bytes) (line : ℕ) (domain name : Bytes) (type : ℤ)
  (params : List RustParam)

/-- `write` panics if a string has a NUL, and else hands the wrappers over. -/
theorem rustWrite_eq : rustWrite prior func line domain name type params =
    if (∃ p ∈ params, 0 ∈ p.paramName) ∨ 0 ∈ func ∨ 0 ∈ domain ∨ 0 ∈ name then none
    else some (hiSysEventWriteWrapper prior func line domain name type
      (params.map RustParam.wrapper) (UInt32.ofNat params.length)) := by
  have hparams : params.mapM RustParam.wrap = if ∃ p ∈ params, 0 ∈ p.paramName then none
      else some (params.map RustParam.wrapper) := mapM_guard wrap_eq params
  simp only [rustWrite, hparams, cStringNew]
  by_cases hp : ∃ p ∈ params, 0 ∈ p.paramName
  · simp [hp]
  · by_cases hf : 0 ∈ func
    · simp [hp, hf]
    · by_cases hd : 0 ∈ domain
      · simp [hp, hf, hd]
      · by_cases hn : 0 ∈ name
        · simp [hp, hf, hd, hn]
        · simp [hp, hf, hd, hn]

variable {params}

/-- The elements handed over. -/
theorem getElem?_params (hlength : params.length < 2 ^ 32) {i : ℕ} {p : RustParam}
    (hp : params[i]? = some p) :
    (hiSysEventWriteWrapper prior func line domain name type (params.map RustParam.wrapper)
      (UInt32.ofNat params.length)).params[i]? = some (convertParam p.wrapper (prior i)) := by
  have hi : i < params.length := (List.getElem?_eq_some_iff.1 hp).1
  have hsize : (UInt32.ofNat params.length).toNat = params.length :=
    UInt32.toNat_ofNat_of_lt' hlength
  have hprior : ((List.range params.length).map prior)[i]? = some (prior i) := by
    rw [List.getElem?_map, List.getElem?_range hi]
    rfl
  rw [hiSysEventWriteWrapper, convertParamWrapper, hsize, List.getElem?_zipWith, hprior,
    List.getElem?_map, hp]
  rfl

variable (params)

/-- What `write` hands over is the list it was called with exactly if all is clean, unless it
panics. -/
theorem rustWrite_faithful_iff :
    (∀ call, rustWrite prior func line domain name type params = some call →
      call.Faithful params) ↔
    ((∃ p ∈ params, 0 ∈ p.paramName) ∨ 0 ∈ func ∨ 0 ∈ domain ∨ 0 ∈ name) ∨
      params.length < 2 ^ 32 ∧
        ∀ (i : ℕ) (p : RustParam), params[i]? = some p → p.Clean (prior i) := by
  rw [rustWrite_eq]
  by_cases hpanic : (∃ p ∈ params, 0 ∈ p.paramName) ∨ 0 ∈ func ∨ 0 ∈ domain ∨ 0 ∈ name
  · simp [hpanic]
  · rw [if_neg hpanic, or_iff_right hpanic]
    have hnotMem : ∀ {i : ℕ} {p : RustParam}, params[i]? = some p → 0 ∉ p.paramName :=
      fun hp h0 => hpanic (Or.inl ⟨_, List.mem_of_getElem? hp, h0⟩)
    constructor
    · intro h
      obtain ⟨hsize, hover⟩ := h _ rfl
      have hlength : params.length < 2 ^ 32 := by
        rw [← hsize]
        exact UInt32.toNat_lt _
      refine ⟨hlength, fun i p hp => ?_⟩
      obtain ⟨q, hq, hhanded⟩ := hover i p hp
      rw [getElem?_params prior func line domain name type hlength hp] at hq
      obtain rfl := Option.some.inj hq
      exact (handedOver_convertParam_iff (hnotMem hp)).1 hhanded
    · rintro ⟨hlength, hclean⟩ call hcall
      obtain rfl := Option.some.inj hcall
      refine ⟨UInt32.toNat_ofNat_of_lt' hlength, fun i p hp => ⟨_,
        getElem?_params prior func line domain name type hlength hp, ?_⟩⟩
      exact (handedOver_convertParam_iff (hnotMem hp)).2 (hclean i p hp)

/-- The name `"a"` over an array that holds `"xy"` is read as `"ay"`. -/
theorem not_rustWrite_faithful :
    let value : HiSysEventParamValue := ⟨false, 0, 0, 0, 0, 0, 0, 0, 0, 0, 0, none, none⟩
    let prior : HiSysEventParam :=
      ⟨(CharArray.zero maxLengthOfParamName).copySlice [120, 121], 0, value, 0⟩
    let p : RustParam := ⟨[97], .int32, value, 0⟩
    (rustWrite (fun _ => prior) [102] 1 [68] [78] 1 [p]).map (fun call =>
      call.params.map HiSysEventParam.key) = some [[97, 121]] ∧
    ¬∀ call, rustWrite (fun _ => prior) [102] 1 [68] [78] 1 [p] = some call →
      call.Faithful [p] := by
  refine ⟨by decide, fun h => ?_⟩
  obtain ⟨q, hq, hhanded⟩ := (h _ rfl).params 0 _ rfl
  obtain rfl := Option.some.inj hq
  exact absurd (hhanded.key (by decide)) (by decide)

end HiSysEvent
