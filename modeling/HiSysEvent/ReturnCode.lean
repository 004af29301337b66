import HiSysEvent.Write

/-!
# The meaning of the return code

A negative code says that the block of the event was not handed over by this call. Otherwise
zero says that all parameters are in it with their complete values, and a positive code that
one was left out or shortened (`Means`).

A string over `maxStringLength` sets a warning and is written whole, so the code of an event with
such a string is positive and nothing is missing. Both interfaces keep the meaning unless
that happens in a block that is handed over (`means_iff`).
-/

namespace HiSysEvent

open Wire StringFilter

/-! ## What was passed and what is stored -/

namespace Value

/-- The strings whose length is checked. -/
def strings : Value → List Bytes
  | string s => [s]
  | charPtr mem => [cString mem]
  | stringVector ss => ss
  | _ => []

/-- The size of an array, 0 for the other values. -/
def arraySize : Value → ℕ
  | boolVector vals => vals.length
  | signedVector _ vals => vals.length
  | unsignedVector _ vals => vals.length
  | floatingVector _ vals => vals.length
  | stringVector vals => vals.length
  | _ => 0

/-- All items, an empty vector as one of `bool`. -/
def completeVector (t : ValueType) : List t.Item → ParamValue
  | [] => .array .int64 []
  | items => .array t items

/-- What the receiver reads for a value stored whole. -/
def complete (k : CharKind) : Value → ParamValue
  | boolVector bs => completeVector .int64 (bs.map fun b => if b then 1 else 0)
  | signedVector _ vals => completeVector .int64 (vals.map BitVec.toInt)
  | unsignedVector _ vals => completeVector .uint64 (vals.map BitVec.toNat)
  | floatingVector t vals =>
    completeVector t.valueType (vals.map fun val => t.item (t.finiteOrZero val))
  | stringVector ss => completeVector .string (ss.map (escapeToRaw k))
  | v => v.normalise k

end Value

/-- A proper prefix of a string or of an array. -/
inductive ParamValue.Shortens : ParamValue → ParamValue → Prop
  | string {s s' : Bytes} (h : s <+: s') (hne : s ≠ s') :
    Shortens (.scalar .string s) (.scalar .string s')
  | array {t : ValueType} {items items' : List t.Item} (h : items <+: items')
    (hne : items ≠ items') : Shortens (.array t items) (.array t items')

theorem ParamValue.not_shortens_self (v : ParamValue) : ¬v.Shortens v := by
  intro h
  cases h with
  | string _ hne => exact hne rfl
  | array _ hne => exact hne rfl

/-- Every parameter passed is stored, in order, with its complete value. One of the C interface that
has no value is `none`. -/
def Complete (k : CharKind) (xs : List (Option (Bytes × Value))) (stored : List Param) : Prop :=
  List.Forall₂ (fun x q => ∃ key v, x = some (key, v) ∧ q = (key, v.complete k)) xs stored

/-- A parameter is missing from what is stored. -/
def LeftOut (xs : List (Option (Bytes × Value))) (stored : List Param) : Prop :=
  stored.length < xs.length

/-- Where none is left out, one is stored shortened. -/
def Shortened (k : CharKind) (xs : List (Option (Bytes × Value))) (stored : List Param) : Prop :=
  stored.length = xs.length ∧ ∃ z ∈ xs.zip stored, ∃ key v, z.1 = some (key, v) ∧
    z.2.2.Shortens (v.complete k)

/-- The direct sends of `SendData` handed the block over, after the retries. -/
def Delivered (t t' : Transport) (block : Bytes) : Prop :=
  t'.source.handed = t.retrySendFailedData.source.handed ++ [block]

/-- The meaning of the return code. -/
structure Means (k : CharKind) (xs : List (Option (Bytes × Value))) (block : Bytes)
    (stored : List Param) (t t' : Transport) (retCode : ℤ) : Prop where
  negative : retCode < 0 ↔ ¬Delivered t t' block
  zero : Delivered t t' block → (retCode = 0 ↔ Complete k xs stored)
  positive : Delivered t t' block → (0 < retCode ↔ LeftOut xs stored ∨ Shortened k xs stored)

/-- No parameter is left out and no array is over the limit. -/
def KeptWhole (k : CharKind) (xs : List (Option (Bytes × Value))) : Prop :=
  xs.length ≤ maxParamNumber ∧ ∀ x ∈ xs, ∃ key v, x = some (key, v) ∧
    isValidName k key maxParamNameLength = true ∧ v.arraySize ≤ maxArraySize

/-- No string of a parameter is over the limit. -/
def NoLongString (xs : List (Option (Bytes × Value))) : Prop :=
  ∀ key v, some (key, v) ∈ xs → ∀ s ∈ v.strings, s.length ≤ maxStringLength

/-- The length of the block of an event. -/
def blockLength (p : Process) (params : List Param) : ℕ :=
  4 + (HiSysEventHeader.size + if p.hitraceId.isSome then 17 else 0) + 4 +
    (params.flatMap Param.encode).length

/-- The parameters that have a value. -/
def valid (xs : List (Option (Bytes × Value))) : List (Bytes × Value) :=
  xs.filterMap id

theorem valid_map_some (keyValues : List (Bytes × Value)) :
    valid (keyValues.map some) = keyValues := by
  rw [valid, List.filterMap_map]
  exact List.filterMap_some

/-! ## Values -/

theorem foldl_updateRetCode : ∀ (checks : List ℤ) (r : ℤ),
    checks.foldl updateRetCode r = 0 ↔ r = 0 ∧ ∀ c ∈ checks, c = 0
  | [], r => by simp
  | c :: checks, r => by
    rw [List.foldl_cons, foldl_updateRetCode checks, updateRetCode]
    by_cases hc : c = success
    · simp [hc]
    · simp [hc]

theorem checkValue_eq_zero {s : Bytes} : checkValue s = 0 ↔ s.length ≤ maxStringLength := by
  unfold checkValue
  split_ifs with h
  · exact iff_of_false (by decide) (by omega)
  · exact iff_of_true rfl (by omega)

theorem checkArraySize_eq_zero {n : ℕ} : checkArraySize n = 0 ↔ n ≤ maxArraySize := by
  unfold checkArraySize
  split_ifs with h
  · exact iff_of_false (by decide) (by omega)
  · exact iff_of_true rfl (by omega)

namespace Value

/-- No check of a value fails if its array is within the limit and its strings are. -/
theorem checks_eq_zero : ∀ v : Value, (∀ c ∈ v.checks, c = 0) ↔
    v.arraySize ≤ maxArraySize ∧ ∀ s ∈ v.strings, s.length ≤ maxStringLength
  | bool _ | signed _ _ | unsigned _ _ | floating _ _ => by simp [checks, arraySize, strings]
  | string _ | charPtr _ => by simp [checks, arraySize, strings, checkValue_eq_zero]
  | boolVector _ | signedVector _ _ | unsignedVector _ _ | floatingVector _ _ => by
    simp [checks, arraySize, strings, checkArraySize_eq_zero]
  | stringVector _ => by
    simp [checks, arraySize, strings, checkArraySize_eq_zero, checkValue_eq_zero]

theorem checks_nonneg : ∀ v : Value, ∀ c ∈ v.checks, 0 ≤ c := by
  have hvalue : ∀ s, 0 ≤ checkValue s := fun s => by unfold checkValue; split_ifs <;> decide
  have harray : ∀ n, 0 ≤ checkArraySize n := fun n => by
    unfold checkArraySize; split_ifs <;> decide
  intro v
  cases v <;> simp [checks, hvalue, harray]

theorem normaliseVector_cases {t : ValueType} {n : ℕ} (items : List t.Item)
    (hn : n = items.length) :
    (n ≤ maxArraySize ∧ normaliseVector t items = completeVector t items) ∨
      (maxArraySize < n ∧ (normaliseVector t items).Shortens (completeVector t items)) := by
  subst hn
  rcases Nat.lt_or_ge maxArraySize items.length with hlt | hle
  · right
    refine ⟨hlt, ?_⟩
    cases items with
    | nil => simp at hlt
    | cons x xs =>
      refine .array (List.take_prefix _ _) fun heq => ?_
      have := congrArg List.length heq
      rw [List.length_take] at this
      omega
  · left
    refine ⟨hle, ?_⟩
    cases items with
    | nil => rfl
    | cons x xs => exact congrArg (ParamValue.array t) (List.take_of_length_le hle)

/-- A value is stored whole, or shortened if it is an array over the limit. -/
theorem normalise_cases (k : CharKind) : ∀ v : Value,
    (v.arraySize ≤ maxArraySize ∧ v.normalise k = v.complete k) ∨
      (maxArraySize < v.arraySize ∧ (v.normalise k).Shortens (v.complete k))
  | bool _ | signed _ _ | unsigned _ _ | floating _ _ | string _ | charPtr _ =>
    Or.inl ⟨Nat.zero_le _, rfl⟩
  | boolVector _ | signedVector _ _ | unsignedVector _ _ | floatingVector _ _ | stringVector _ =>
    normaliseVector_cases _ (by simp [arraySize])

end Value

/-! ## What the event keeps -/

section Kept

variable {k : CharKind}

theorem length_accepted_le : ∀ (n : ℕ) (kvs : List (Bytes × Value)),
    (accepted k n kvs).length ≤ kvs.length
  | _, [] => le_rfl
  | n, (key, v) :: kvs => by
    rw [accepted]
    split_ifs
    · exact Nat.succ_le_succ (length_accepted_le (n + 1) kvs)
    · exact (length_accepted_le n kvs).trans (Nat.le_succ _)

theorem length_accepted_valid_le (n : ℕ) (xs : List (Option (Bytes × Value))) :
    (accepted k n (valid xs)).length ≤ xs.length :=
  (length_accepted_le n _).trans (List.length_filterMap_le _ _)

/-- Stored whole after `n` others. -/
def KeptAfter (k : CharKind) (n : ℕ) (xs : List (Option (Bytes × Value))) : Prop :=
  n + xs.length ≤ maxParamNumber ∧ ∀ x ∈ xs, ∃ key v, x = some (key, v) ∧
    isValidName k key maxParamNameLength = true ∧ v.arraySize ≤ maxArraySize

theorem keptAfter_cons {n : ℕ} {key : Bytes} {v : Value} {xs : List (Option (Bytes × Value))} :
    KeptAfter k n (some (key, v) :: xs) ↔
      (isValidName k key maxParamNameLength = true ∧ n < maxParamNumber) ∧
        v.arraySize ≤ maxArraySize ∧ KeptAfter k (n + 1) xs := by
  simp only [KeptAfter, List.length_cons, List.forall_mem_cons]
  constructor
  · rintro ⟨hlen, ⟨key', v', heq, hkey, hsize⟩, hxs⟩
    obtain ⟨rfl, rfl⟩ : key = key' ∧ v = v' := by simpa using heq
    exact ⟨⟨hkey, by omega⟩, hsize, by omega, hxs⟩
  · rintro ⟨⟨hkey, -⟩, hsize, hlen, hxs⟩
    exact ⟨by omega, ⟨key, v, rfl, hkey, hsize⟩, hxs⟩

theorem not_complete_of_leftOut {xs : List (Option (Bytes × Value))} {stored : List Param}
    (h : LeftOut xs stored) : ¬Complete k xs stored := fun hc => by
  have hlen := hc.length_eq
  unfold LeftOut at h
  omega

theorem leftOut_accepted {n : ℕ} {x : Option (Bytes × Value)} {xs : List (Option (Bytes × Value))} :
    LeftOut (x :: xs) (accepted k n (valid xs)) := by
  have := length_accepted_valid_le (k := k) n xs
  rw [LeftOut, List.length_cons]
  omega

theorem missing_cons {key : Bytes} {v : Value} {q : ParamValue}
    {xs : List (Option (Bytes × Value))} {stored : List Param} :
    LeftOut (some (key, v) :: xs) ((key, q) :: stored) ∨
        Shortened k (some (key, v) :: xs) ((key, q) :: stored) ↔
      (LeftOut xs stored ∨ Shortened k xs stored) ∨
        (stored.length = xs.length ∧ q.Shortens (v.complete k)) := by
  have hhead : (∃ key' v', some (key, v) = some (key', v') ∧ q.Shortens (v'.complete k)) ↔
      q.Shortens (v.complete k) := by simp
  simp only [LeftOut, Shortened, List.length_cons, List.zip_cons_cons, List.exists_mem_cons_iff,
    Nat.add_lt_add_iff_right, Nat.add_right_cancel_iff, hhead]
  constructor
  · rintro (h | ⟨hlen, h | h⟩)
    exacts [Or.inl (Or.inl h), Or.inr ⟨hlen, h⟩, Or.inl (Or.inr ⟨hlen, h⟩)]
  · rintro ((h | ⟨hlen, h⟩) | ⟨hlen, h⟩)
    exacts [Or.inl h, Or.inr ⟨hlen, Or.inr h⟩, Or.inr ⟨hlen, Or.inl h⟩]

/-- Everything is stored whole unless it is left out or shortened. -/
theorem complete_accepted : ∀ (n : ℕ) (xs : List (Option (Bytes × Value))), n ≤ maxParamNumber →
    (Complete k xs (accepted k n (valid xs)) ↔ KeptAfter k n xs) ∧
      (LeftOut xs (accepted k n (valid xs)) ∨ Shortened k xs (accepted k n (valid xs)) ↔
        ¬KeptAfter k n xs)
  | n, [], hn => by
    simp [Complete, LeftOut, Shortened, KeptAfter, valid, accepted, hn]
  | n, none :: xs, hn => by
    have hvalid : valid (none :: xs) = valid xs := rfl
    have hkept : ¬KeptAfter k n (none :: xs) := fun h => by simpa using h.2 none (by simp)
    rw [hvalid]
    exact ⟨iff_of_false (not_complete_of_leftOut leftOut_accepted) hkept,
      iff_of_true (Or.inl leftOut_accepted) hkept⟩
  | n, some (key, v) :: xs, hn => by
    have hvalid : valid (some (key, v) :: xs) = (key, v) :: valid xs := rfl
    rw [hvalid, accepted, keptAfter_cons]
    split
    case isFalse hrej =>
      exact ⟨iff_of_false (not_complete_of_leftOut leftOut_accepted) fun h => hrej h.1,
        iff_of_true (Or.inl leftOut_accepted) fun h => hrej h.1⟩
    case isTrue hacc =>
      obtain ⟨hcomplete, hmissing⟩ := complete_accepted (n + 1) xs hacc.2
      have hlen := length_accepted_valid_le (k := k) (n + 1) xs
      generalize accepted k (n + 1) (valid xs) = stored at hcomplete hmissing hlen ⊢
      have hhead : Complete k (some (key, v) :: xs) ((key, v.normalise k) :: stored) ↔
          v.normalise k = v.complete k ∧ Complete k xs stored := by
        simp [Complete, List.forall₂_cons]
      rw [hhead, missing_cons, hcomplete, hmissing]
      rcases v.normalise_cases k with ⟨hsize, heq⟩ | ⟨hsize, hshort⟩
      · simp only [hacc, hsize, heq, ParamValue.not_shortens_self, and_false, or_false, true_and,
          and_self]
      · have hne : v.normalise k ≠ v.complete k := fun heq =>
          ParamValue.not_shortens_self _ (heq ▸ hshort)
        refine ⟨iff_of_false (fun h => hne h.1) (fun h => by omega),
          iff_of_true ?_ (fun h => by omega)⟩
        rcases Nat.lt_or_eq_of_le hlen with hlt | heq
        · exact Or.inl (hmissing.1 (Or.inl hlt))
        · exact Or.inr ⟨heq, hshort⟩

theorem keptAfter_zero {xs : List (Option (Bytes × Value))} : KeptAfter k 0 xs ↔ KeptWhole k xs := by
  rw [KeptAfter, KeptWhole, Nat.zero_add]

theorem noLongString_cons {key : Bytes} {v : Value} {xs : List (Option (Bytes × Value))} :
    NoLongString (some (key, v) :: xs) ↔
      (∀ s ∈ v.strings, s.length ≤ maxStringLength) ∧ NoLongString xs := by
  constructor
  · exact fun h => ⟨h key v (by simp), fun key' v' hmem => h key' v' (by simp [hmem])⟩
  · rintro ⟨hv, hxs⟩ key' v' hmem
    rcases List.mem_cons.1 hmem with heq | hmem
    · obtain ⟨rfl, rfl⟩ : key' = key ∧ v' = v := by simpa using heq
      exact hv
    · exact hxs key' v' hmem

end Kept

/-! ## Both interfaces -/

/-- Write each parameter. One without a value sets the return code. -/
def writeAll (k : CharKind) : List (Option (Bytes × Value)) → EventBase × Alloc → EventBase × Alloc
  | [], s => s
  | none :: xs, s => writeAll k xs (appendInvalidParam s)
  | some (key, v) :: xs, s => writeAll k xs (innerWriteValue k key s v)

theorem innerWrite_eq_writeAll (k : CharKind) : ∀ (keyValues : List (Bytes × Value))
    (s : EventBase × Alloc), innerWrite k keyValues s = writeAll k (keyValues.map some) s
  | [], _ => rfl
  | (key, v) :: keyValues, s => by
    rw [innerWrite, innerWrite_eq_writeAll k keyValues]
    rfl

theorem foldl_appendParam (k : CharKind) : ∀ (params : List HiSysEventParam)
    (s : EventBase × Alloc), params.foldl (fun s param => appendParam k param s) s =
      writeAll k (params.map HiSysEventParam.toCxx) s
  | [], _ => rfl
  | param :: params, s => by
    rw [List.foldl_cons, foldl_appendParam k params, appendParam_eq, List.map_cons]
    cases param.toCxx <;> rfl

theorem retCodeAfter_nonneg {k : CharKind} {n : ℕ} {r : ℤ} (hr : 0 ≤ r) (key : Bytes) (v : Value) :
    0 ≤ retCodeAfter k n r key v := by
  have hfold : ∀ (checks : List ℤ) (r : ℤ), 0 ≤ r → (∀ c ∈ checks, 0 ≤ c) →
      0 ≤ checks.foldl updateRetCode r := by
    intro checks
    induction checks with
    | nil => exact fun r hr _ => hr
    | cons c checks ih =>
      intro r hr hc
      rw [List.foldl_cons]
      refine ih _ ?_ fun c' hc' => hc c' (by simp [hc'])
      unfold updateRetCode
      split_ifs
      · exact hc c (by simp)
      · exact hr
  unfold retCodeAfter
  split_ifs
  · decide
  · decide
  · exact hfold _ _ hr v.checks_nonneg

/-- The return code is zero as long as nothing is left out, cut or too long. -/
theorem writeAll_holds (k : CharKind) : ∀ (xs : List (Option (Bytes × Value))) {e : EventBase}
    {params : List Param}, e.Holds params → 0 ≤ e.retCode → params.length ≤ maxParamNumber →
      ∃ e', writeAll k xs (e, Alloc.always) = (e', Alloc.always) ∧ e'.header = e.header ∧
        e'.traceInfo = e.traceInfo ∧
        e'.Holds (params ++ accepted k params.length (valid xs)) ∧ 0 ≤ e'.retCode ∧
        (e'.retCode = 0 ↔ e.retCode = 0 ∧ KeptAfter k params.length xs ∧ NoLongString xs)
  | [], e, params, h, hr, hlen => by
    refine ⟨e, rfl, rfl, rfl, by simpa [valid, accepted] using h, hr, ?_⟩
    simp [KeptAfter, NoLongString, hlen]
  | none :: xs, e, params, h, hr, hlen => by
    obtain ⟨e', hw, hhd, htr, hholds, hr', hzero⟩ := writeAll_holds k xs
      (h.setRetCode errValueInvalid) (by simp) hlen
    refine ⟨e', hw, hhd, htr, hholds, hr', hzero.trans (iff_of_false ?_ ?_)⟩
    · exact fun h => absurd h.1 (show errValueInvalid ≠ 0 by decide)
    · exact fun h => by simpa using h.2.1.2 none (by simp)
  | some (key, v) :: xs, e, params, h, hr, hlen => by
    obtain ⟨e₁, hw₁, hhd₁, htr₁, hret₁, h₁⟩ := innerWriteValue_holds k key h v
    have hlen₁ : (params ++ accepted k params.length [(key, v)]).length ≤ maxParamNumber := by
      rw [List.length_append]
      exact length_accepted k params.length [(key, v)] hlen
    have hr₁ : 0 ≤ e₁.retCode := hret₁ ▸ retCodeAfter_nonneg hr key v
    obtain ⟨e', hw, hhd, htr, hholds, hr', hzero⟩ := writeAll_holds k xs h₁ hr₁ hlen₁
    rw [List.append_assoc, List.length_append, ← accepted_cons] at hholds
    refine ⟨e', by rw [writeAll, hw₁, hw], hhd.trans hhd₁, htr.trans htr₁, hholds, hr', ?_⟩
    rw [hzero, hret₁, keptAfter_cons, noLongString_cons, List.length_append]
    by_cases hacc : isValidName k key maxParamNameLength = true ∧ params.length < maxParamNumber
    · have hone : (accepted k params.length [(key, v)]).length = 1 := by
        rw [accepted, if_pos hacc]
        rfl
      have hcode : retCodeAfter k params.length e.retCode key v =
          v.checks.foldl updateRetCode e.retCode := by
        rw [retCodeAfter, if_neg (by simp [hacc.1]), if_neg (by omega)]
      rw [hone, hcode, foldl_updateRetCode, v.checks_eq_zero]
      tauto
    · refine iff_of_false (fun h => ?_) fun h => hacc h.2.1.1
      have hcode : retCodeAfter k params.length e.retCode key v ≠ 0 := by
        unfold retCodeAfter
        split_ifs with h1 h2
        · decide
        · decide
        · exact absurd ⟨by simpa using h1, by omega⟩ hacc
      exact hcode h.1

/-! ## Delivery -/

namespace Transport

/-- The retries hand over what they take from the queue. -/
theorem handed_retryLoop : ∀ (q : List RawData) (src : DataSource) (a : Alloc),
    ∃ xs, (retryLoop q src a).source.handed = src.handed ++ xs ∧
      xs.length + (retryLoop q src a).retryDataList.length = q.length
  | [], src, _ => ⟨[], by simp [retryLoop]⟩
  | d :: q, src, a => by
    rcases send_cases (d.copy a).1 src with ⟨-, hs⟩ | ⟨r, hr, -, hs⟩
    · obtain ⟨xs, hxs, hlen⟩ :=
        handed_retryLoop q ((src.drop 1).hand (d.copy a).1.content) (d.copy a).2
      refine ⟨(d.copy a).1.content :: xs, ?_⟩
      simp only [retryLoop, hs, ne_eq, not_true_eq_false, if_false, hxs, List.length_cons, ← hlen]
      refine ⟨by simp, by omega⟩
    · refine ⟨[], ?_⟩
      simp [retryLoop, hs, code_ne_success hr]

theorem handed_retrySendFailedData (t : Transport) :
    ∃ xs, t.retrySendFailedData.source.handed = t.source.handed ++ xs ∧
      xs.length + t.retrySendFailedData.retryDataList.length = t.retryDataList.length :=
  handed_retryLoop t.retryDataList t.source t.alloc

end Transport

/-- The block is too long, or every direct send fails. -/
def Undeliverable (t : Transport) (len : ℕ) : Prop :=
  maxDataSize < len ∨
    ∀ i < Transport.retryTimes, t.retrySendFailedData.source.results i ≠ .success

/-- `SendData` succeeds if and only if it hands the block over, which it does if it can. -/
theorem sendData_cases {d : RawData} (hv : d.Valid) (hne : d.content ≠ []) (t : Transport) :
    ((t.sendData d).1 = success ∧ Delivered t (t.sendData d).2 d.content ∧
      ¬Undeliverable t d.content.length) ∨
    ((t.sendData d).1 < 0 ∧ ¬Delivered t (t.sendData d).2 d.content ∧
      Undeliverable t d.content.length) := by
  have hempty : d.isEmpty = false := by
    rw [← Bool.not_eq_true, Transport.isEmpty_iff hv]
    exact hne
  have hlen := hv.length_content
  have hnot : ∀ t' : Transport, t'.source.handed = t.retrySendFailedData.source.handed →
      ¬Delivered t t' d.content := fun t' heq hdel => by
    rw [Delivered, heq] at hdel
    have := congrArg List.length hdel
    rw [List.length_append, List.length_singleton] at this
    omega
  by_cases hsize : d.len > maxDataSize
  · have hsend : t.sendData d = (errOverSize, t) := by
      simp only [Transport.sendData, hempty, Bool.false_eq_true, if_false, if_pos hsize]
    have hcode : (t.sendData d).1 = errOverSize := by rw [hsend]
    refine Or.inr ⟨hcode ▸ (by decide), fun hdel => ?_, Or.inl (by omega)⟩
    obtain ⟨xs, hxs, -⟩ := t.handed_retrySendFailedData
    rw [hsend, Delivered, hxs] at hdel
    have := congrArg List.length hdel
    simp only [List.length_append, List.length_singleton] at this
    omega
  · by_cases hany : ∃ i < Transport.retryTimes,
        t.retrySendFailedData.source.results i = .success
    · obtain ⟨hcode, hhanded⟩ := Transport.sendLoop_spec d Transport.retryTimes success
        t.retrySendFailedData.source hany
      refine Or.inl ⟨?_, ?_, ?_⟩
      · simp only [Transport.sendData, hempty, Bool.false_eq_true, if_false, if_neg hsize, hcode,
          if_true]
      · simp only [Transport.sendData, hempty, Bool.false_eq_true, if_false, if_neg hsize, hcode,
          if_true, Delivered, hhanded]
      · rintro (hlong | hall)
        · omega
        · obtain ⟨i, hi, hi'⟩ := hany
          exact hall i hi hi'
    · have hall : ∀ i < Transport.retryTimes,
          t.retrySendFailedData.source.results i ≠ .success := fun i hi hi' => hany ⟨i, hi, hi'⟩
      obtain ⟨hhanded, hcode⟩ := Transport.sendLoop_fails d Transport.retryTimes success
        t.retrySendFailedData.source hall
      obtain ⟨r, hr, hcode⟩ := hcode (by decide)
      refine Or.inr ⟨?_, hnot _ ?_, Or.inr hall⟩
      · simp only [Transport.sendData, hempty, Bool.false_eq_true, if_false, if_neg hsize, hcode,
          if_neg (Transport.code_ne_success hr)]
        exact Transport.code_lt_zero hr
      · simp only [Transport.sendData, hempty, Bool.false_eq_true, if_false, if_neg hsize, hcode,
          if_neg (Transport.code_ne_success hr), Transport.addFailedData, hhanded]

/-- The finished block is what is sent, and what `SendData` returns overwrites the code if it is an
error. -/
theorem sendSysEvent_spec {e : EventBase} {params : List Param} (h : e.Holds params)
    {t : Transport} (ht : t.alloc = Alloc.always) :
    ∃ d, d.Valid ∧ d.content = (e.block params).encode ∧
      (sendSysEvent e t).2 = (t.sendData d).2 ∧
      (sendSysEvent e t).1.retCode =
        if (t.sendData d).1 ≠ success then (t.sendData d).1 else e.retCode := by
  obtain ⟨d₁, hget₁, -, -, h₁⟩ := EventBase.getEventRawData_holds h Alloc.always
  rw [hget₁] at h₁
  obtain ⟨d, hget, hv, hcont, -⟩ := EventBase.getEventRawData_holds h₁ Alloc.always
  have hself : { t with alloc := Alloc.always } = t := by rw [← ht]
  refine ⟨d, hv, hcont, ?_⟩
  simp only [sendSysEvent, ht, hget₁, hget, hself]
  split <;> exact ⟨rfl, rfl⟩

/-! ## The return code of a write -/

/-- The condition under which the return code keeps its meaning : something is left out or
shortened, or no string is over the limit, or the block cannot be handed over. -/
def KeepsMeaning (k : CharKind) (p : Process) (xs : List (Option (Bytes × Value)))
    (t : Transport) : Prop :=
  ¬KeptWhole k xs ∨ NoLongString xs ∨
    Undeliverable t (blockLength p (accepted k 0 (valid xs)))

/-- The code and the block agree, with the block handed over or not. -/
theorem means_cases {k : CharKind} {xs : List (Option (Bytes × Value))} {block : Bytes}
    {t t' : Transport} {r retCode : ℤ} (hr : 0 ≤ r)
    (hzero : r = 0 ↔ KeptWhole k xs ∧ NoLongString xs)
    (h : (retCode = r ∧ Delivered t t' block ∧ ¬Undeliverable t block.length) ∨
      (retCode < 0 ∧ ¬Delivered t t' block ∧ Undeliverable t block.length)) :
    Means k xs block (accepted k 0 (valid xs)) t t' retCode ↔
      ¬KeptWhole k xs ∨ NoLongString xs ∨ Undeliverable t block.length := by
  obtain ⟨hcomplete, hmissing⟩ := complete_accepted (k := k) 0 xs (Nat.zero_le _)
  rw [keptAfter_zero] at hcomplete hmissing
  rcases h with ⟨rfl, hdel, hund⟩ | ⟨hneg, hdel, hund⟩
  · constructor
    · intro hmeans
      by_cases hkept : KeptWhole k xs
      · have h0 := (hmeans.zero hdel).2 (hcomplete.2 hkept)
        exact Or.inr (Or.inl (hzero.1 h0).2)
      · exact Or.inl hkept
    · intro hcond
      have hiff : retCode = 0 ↔ KeptWhole k xs := by
        rw [hzero]
        rcases hcond with hkept | hlong | hund'
        · exact iff_of_false (fun h => hkept h.1) hkept
        · exact and_iff_left hlong
        · exact absurd hund' hund
      refine ⟨iff_of_false (by omega) (not_not_intro hdel), fun _ => hiff.trans hcomplete.symm,
        fun _ => ?_⟩
      rw [hmissing, ← hiff]
      omega
  · exact iff_of_true
      ⟨iff_of_true hneg hdel, fun h => absurd h hdel, fun h => absurd h hdel⟩
      (Or.inr (Or.inr hund))

/-- An event that passes the limiter, with every allocation granted. -/
structure Passes (k : CharKind) (param : ControlParam) (callerInfo : CallerInfo)
    (domain eventName : Bytes) (w : World) : Prop where
  validDomain : isValidName k domain maxDomainLength = true
  validName : isValidName k eventName maxEventNameLength = true
  limiter : (checkLimitWritingEvent k param eventName callerInfo w.eventWroteLruCache).1 ≠
    invalidTimeStamp
  alloc : w.transport.alloc = Alloc.always

/-- The raw data of the event a write builds. -/
def rawDataOf (k : CharKind) (p : Process) (param : ControlParam) (callerInfo : CallerInfo)
    (domain eventName : Bytes) (type : ℤ) (fill : EventBase × Alloc → EventBase × Alloc)
    (w : World) : Option RawData :=
  ((prepare k p domain eventName type
    (checkLimitWritingEvent k param eventName callerInfo w.eventWroteLruCache).1 fill
    Alloc.always).1.getEventRawData Alloc.always).1

theorem length_encode_event {e : EventBase} {p : Process} (htrace : e.trace = p.hitraceId)
    (params : List Param) : (e.block params).encode.length = blockLength p params := by
  rw [EventBase.length_encode_block, blockLength, EventBase.base, EventBlock.encodeBase, htrace,
    List.length_append, HiSysEventHeader.length_toBytes]
  cases p.hitraceId <;> simp

/-- A write past the limiter sends the event it built, and returns the event's code if the send
succeeds. -/
theorem writeEvent_sendData {k : CharKind} {param : ControlParam} {callerInfo : CallerInfo}
    {domain eventName : Bytes} {w : World} (h : Passes k param callerInfo domain eventName w)
    (p : Process) (type : ℤ) {fill : EventBase × Alloc → EventBase × Alloc}
    {xs : List (Option (Bytes × Value))} (hfill : ∀ s, fill s = writeAll k xs s) :
    let r := writeEvent k p param callerInfo domain eventName type fill w
    ∃ (e : EventBase) (d : RawData), prepare k p domain eventName type
        (checkLimitWritingEvent k param eventName callerInfo w.eventWroteLruCache).1 fill
        Alloc.always = (e, Alloc.always) ∧
      e.Holds (accepted k 0 (valid xs)) ∧ 0 ≤ e.retCode ∧
      (e.retCode = 0 ↔ KeptWhole k xs ∧ NoLongString xs) ∧
      d.content = (e.block (accepted k 0 (valid xs))).encode ∧
      d.content.length = blockLength p (accepted k 0 (valid xs)) ∧
      d.Valid ∧ d.content ≠ [] ∧ r.2.transport = (w.transport.sendData d).2 ∧
      r.1 = if (w.transport.sendData d).1 ≠ success then (w.transport.sendData d).1
        else e.retCode := by
  obtain ⟨hd, hn, hpass, halloc⟩ := h
  dsimp only
  set ts := (checkLimitWritingEvent k param eventName callerInfo w.eventWroteLruCache).1 with hts
  have hst := EventBase.new_started hd hn type ts
  obtain ⟨e, hprep, hholds, hret, hhd, htr⟩ := prepare_eq hd hn p type ts fill
  obtain ⟨e', hw, hhd', htr', hholds', hr, hzero⟩ :=
    writeAll_holds k xs hholds hret.ge (Nat.zero_le _)
  rw [List.nil_append, List.length_nil] at hholds'
  rw [List.length_nil, hret, keptAfter_zero] at hzero
  rw [hfill, hw] at hprep
  have htrace : e'.trace = p.hitraceId := by
    rw [← EventBase.trace_setProcess hst.isTraceOpened p, EventBase.trace, EventBase.trace, hhd',
      hhd, htr', htr]
  obtain ⟨d, hv, hcont, ht, hcode⟩ := sendSysEvent_spec hholds' halloc
  have hlen := length_encode_event htrace (accepted k 0 (valid xs))
  have hne : d.content ≠ [] := fun h0 => by
    rw [← hcont, h0, blockLength, List.length_nil] at hlen
    omega
  rw [← hcont] at hlen
  have hnoError : isError e' = false := by
    rw [← Bool.not_eq_true, isError_eq_true]
    omega
  have hself : { w.transport with alloc := Alloc.always } = w.transport := by rw [← halloc]
  have hwrite : writeEvent k p param callerInfo domain eventName type fill w =
      ((sendSysEvent e' w.transport).1.retCode,
        ⟨(checkLimitWritingEvent k param eventName callerInfo w.eventWroteLruCache).2,
          (sendSysEvent e' w.transport).2⟩) := by
    simp only [writeEvent, ← hts, if_neg hpass, halloc, hprep, hnoError, Bool.false_eq_true,
      if_false, hself]
  exact ⟨e', d, hprep, hholds', hr, by simpa using hzero, hcont, hlen, hv, hne,
    by rw [hwrite, ht], by rw [hwrite, hcode]⟩

/-- Past the limiter the event's code is returned if the block is handed over. -/
theorem writeEvent_sends {k : CharKind} {param : ControlParam} {callerInfo : CallerInfo}
    {domain eventName : Bytes} {w : World} (h : Passes k param callerInfo domain eventName w)
    (p : Process) (type : ℤ) {fill : EventBase × Alloc → EventBase × Alloc}
    {xs : List (Option (Bytes × Value))} (hfill : ∀ s, fill s = writeAll k xs s) :
    let r := writeEvent k p param callerInfo domain eventName type fill w
    ∃ (e : EventBase) (d : RawData), prepare k p domain eventName type
        (checkLimitWritingEvent k param eventName callerInfo w.eventWroteLruCache).1 fill
        Alloc.always = (e, Alloc.always) ∧
      e.Holds (accepted k 0 (valid xs)) ∧ 0 ≤ e.retCode ∧
      (e.retCode = 0 ↔ KeptWhole k xs ∧ NoLongString xs) ∧
      d.content = (e.block (accepted k 0 (valid xs))).encode ∧
      d.content.length = blockLength p (accepted k 0 (valid xs)) ∧
      ((r.1 = e.retCode ∧ Delivered w.transport r.2.transport d.content ∧
          ¬Undeliverable w.transport d.content.length) ∨
        (r.1 < 0 ∧ ¬Delivered w.transport r.2.transport d.content ∧
          Undeliverable w.transport d.content.length)) := by
  obtain ⟨e, d, hprep, hholds, hr, hzero, hcont, hlen, hv, hne, ht, hcode⟩ :=
    writeEvent_sendData h p type hfill
  refine ⟨e, d, hprep, hholds, hr, hzero, hcont, hlen, ?_⟩
  rcases sendData_cases hv hne w.transport with ⟨hs, hdel, hund⟩ | ⟨hs, hdel, hund⟩
  · exact Or.inl ⟨by rw [hcode, if_neg (not_not_intro hs)], ht ▸ hdel, hund⟩
  · have hs' : (w.transport.sendData d).1 ≠ success := ne_of_lt hs
    exact Or.inr ⟨by rw [hcode, if_pos hs']; exact hs, ht ▸ hdel, hund⟩

/-- The return code of a write keeps its meaning exactly under the condition. -/
theorem means_writeEvent {k : CharKind} {param : ControlParam} {callerInfo : CallerInfo}
    {domain eventName : Bytes} {w : World} (h : Passes k param callerInfo domain eventName w)
    (p : Process) (type : ℤ) {fill : EventBase × Alloc → EventBase × Alloc}
    {xs : List (Option (Bytes × Value))} (hfill : ∀ s, fill s = writeAll k xs s) :
    let r := writeEvent k p param callerInfo domain eventName type fill w
    ∃ d b, rawDataOf k p param callerInfo domain eventName type fill w = some d ∧
      EventBlock.read.run d.content = some (b, []) ∧
      (Means k xs d.content b.params w.transport r.2.transport r.1 ↔
        KeepsMeaning k p xs w.transport) := by
  dsimp only
  obtain ⟨e, d, hprep, hholds, hr, hzero, hcont, hlen, hcases⟩ := writeEvent_sends h p type hfill
  obtain ⟨d₁, hget, -, hcont₁, -⟩ := EventBase.getEventRawData_holds hholds Alloc.always
  have hcnt : (accepted k 0 (valid xs)).length < 2 ^ 32 := by
    have := length_accepted k 0 (valid xs) (Nat.zero_le _)
    exact lt_of_le_of_lt (by omega) (show maxParamNumber < 2 ^ 32 by decide)
  have hread := EventBlock.reads_read (e.block_wellFormed hcnt) []
  rw [List.append_nil, ← hcont₁] at hread
  refine ⟨d₁, e.block (accepted k 0 (valid xs)), by rw [rawDataOf, hprep, hget], hread, ?_⟩
  rw [KeepsMeaning, ← hlen, hcont₁, ← hcont]
  exact means_cases hr hzero hcases

/-- Through both interfaces, with valid names, past the limiter and with every allocation granted,
the return code has its meaning if and only if something is left out or shortened, or no string
is over the limit, or the block cannot be handed over. -/
theorem means_iff (k : CharKind) (p : Process) (param : ControlParam) (callerInfo : CallerInfo)
    (domain eventName : Bytes) (type : ℤ) (w : World)
    (h : Passes k param callerInfo domain eventName w) :
    (∀ keyValues : List (Bytes × Value),
      let r := write k p param callerInfo domain eventName type keyValues w
      ∃ d b, rawDataOf k p param callerInfo domain eventName type (innerWrite k keyValues) w =
          some d ∧ EventBlock.read.run d.content = some (b, []) ∧
        (Means k (keyValues.map some) d.content b.params w.transport r.2.transport r.1 ↔
          KeepsMeaning k p (keyValues.map some) w.transport)) ∧
    (∀ (domainMem nameMem : Bytes) (params : Option (List HiSysEventParam)),
      cString domainMem = domain → cString nameMem = eventName →
      let r := hiSysEventWrite k p param callerInfo (some domainMem) (some nameMem) type params w
      let xs := (params.getD []).map HiSysEventParam.toCxx
      ∃ d b, rawDataOf k p param callerInfo domain eventName type (innerWriteParams k params) w =
          some d ∧ EventBlock.read.run d.content = some (b, []) ∧
        (Means k xs d.content b.params w.transport r.2.transport r.1 ↔
          KeepsMeaning k p xs w.transport)) := by
  constructor
  · intro keyValues
    exact means_writeEvent h p type (innerWrite_eq_writeAll k keyValues)
  · rintro domainMem nameMem params rfl rfl
    exact means_writeEvent h p type (foldl_appendParam k (params.getD []))

theorem passes_new : Passes .signed ⟨5, 100⟩ ⟨[70], 1, 1000⟩ [65] [66]
    (.new fun _ => .success) :=
  ⟨by decide, by decide, by decide +kernel, rfl⟩

/-- An event with one parameter that is left out. -/
theorem means_iff_leftOut :
    let r := write .signed ⟨0, 1, 2, 3, none⟩ ⟨5, 100⟩ ⟨[70], 1, 1000⟩ [65] [66] 1
      [([], .bool true)] (.new fun _ => .success)
    ∃ d b, rawDataOf .signed ⟨0, 1, 2, 3, none⟩ ⟨5, 100⟩ ⟨[70], 1, 1000⟩ [65] [66] 1
        (innerWrite .signed [([], .bool true)]) (.new fun _ => .success) = some d ∧
      EventBlock.read.run d.content = some (b, []) ∧
      (Means .signed [some ([], .bool true)] d.content b.params
          (World.new fun _ => .success).transport r.2.transport r.1 ↔
        KeepsMeaning .signed ⟨0, 1, 2, 3, none⟩ [some ([], .bool true)]
          (World.new fun _ => .success).transport) :=
  (means_iff .signed ⟨0, 1, 2, 3, none⟩ ⟨5, 100⟩ ⟨[70], 1, 1000⟩ [65] [66] 1
    (.new fun _ => .success) passes_new).1 [([], .bool true)]

/-! ## A string over the limit -/

theorem escapeToRaw_replicate (k : CharKind) (n : ℕ) :
    escapeToRaw k (List.replicate n 97) = List.replicate n 97 := by
  have hchar : escapeChar k 97 = [97] := by cases k <;> decide
  simp [escapeToRaw, List.flatMap_replicate, hchar]

theorem not_keepsMeaning {n : ℕ} (hlong : maxStringLength < n) (hfits : n ≤ maxDataSize - 200) :
    ¬KeepsMeaning .signed ⟨0, 1, 2, 3, none⟩ [some ([67], .string (List.replicate n 97))]
      (World.new fun _ => .success).transport := by
  have hkey : isValidName .signed [67] maxParamNameLength = true := by decide
  have hacc : accepted .signed 0 (valid [some ([67], .string (List.replicate n 97))]) =
      [([67], .scalar .string (List.replicate n 97))] := by
    simp [valid, accepted, hkey, Value.normalise, escapeToRaw_replicate]
  rintro (hkept | hshort | hlen | hall)
  · refine hkept ⟨by simp, fun x hx => ?_⟩
    rw [List.mem_singleton.1 hx]
    exact ⟨_, _, rfl, hkey, Nat.zero_le _⟩
  · have := hshort _ _ List.mem_cons_self _ List.mem_cons_self
    rw [List.length_replicate] at this
    omega
  · have h1 : (tagged 1 1).length ≤ 2 := length_tagged_le 1 (n := 1) (by decide)
    have h2 : (tagged 1 n).length ≤ 4 := length_tagged_le 1 (n := 3) (by
      have : maxDataSize = 384 * 1024 := rfl
      omega)
    rw [hacc, blockLength] at hlen
    have hmax : maxDataSize = 384 * 1024 := rfl
    have hsize : HiSysEventHeader.size = 80 := rfl
    simp only [List.flatMap_cons, List.flatMap_nil, List.append_nil, Param.encode,
      ParamValue.encode, ValueType.encodeItem, List.length_append, List.length_cons,
      List.length_nil, List.length_replicate, length_le, Option.isSome_none, Bool.false_eq_true,
      if_false, Nat.zero_add] at hlen
    omega
  · exact hall 0 (by decide) rfl

theorem not_means {n : ℕ} (hlong : maxStringLength < n) (hfits : n ≤ maxDataSize - 200) :
    let keyValues := [(([67] : Bytes), Value.string (List.replicate n 97))]
    let r := write .signed ⟨0, 1, 2, 3, none⟩ ⟨5, 100⟩ ⟨[70], 1, 1000⟩ [65] [66] 1 keyValues
      (.new fun _ => .success)
    ∃ d b, rawDataOf .signed ⟨0, 1, 2, 3, none⟩ ⟨5, 100⟩ ⟨[70], 1, 1000⟩ [65] [66] 1
        (innerWrite .signed keyValues) (.new fun _ => .success) = some d ∧
      EventBlock.read.run d.content = some (b, []) ∧
      ¬Means .signed (keyValues.map some) d.content b.params
        (World.new fun _ => .success).transport r.2.transport r.1 := by
  intro keyValues r
  obtain ⟨d, b, hraw, hread, hmeans⟩ := means_writeEvent passes_new ⟨0, 1, 2, 3, none⟩ 1
    (innerWrite_eq_writeAll .signed keyValues)
  exact ⟨d, b, hraw, hread, fun h => not_keepsMeaning hlong hfits (hmeans.1 h)⟩

/-- A string of 262145 characters is in the block that is handed over, but the code says that
something is missing. -/
theorem not_means_longString :
    Passes .signed ⟨5, 100⟩ ⟨[70], 1, 1000⟩ [65] [66] (.new fun _ => .success) ∧
    let keyValues := [(([67] : Bytes), Value.string (List.replicate (maxStringLength + 1) 97))]
    let r := write .signed ⟨0, 1, 2, 3, none⟩ ⟨5, 100⟩ ⟨[70], 1, 1000⟩ [65] [66] 1 keyValues
      (.new fun _ => .success)
    ∃ d b, rawDataOf .signed ⟨0, 1, 2, 3, none⟩ ⟨5, 100⟩ ⟨[70], 1, 1000⟩ [65] [66] 1
        (innerWrite .signed keyValues) (.new fun _ => .success) = some d ∧
      EventBlock.read.run d.content = some (b, []) ∧
      ¬Means .signed (keyValues.map some) d.content b.params
        (World.new fun _ => .success).transport r.2.transport r.1 := by
  have hfits : maxStringLength + 1 ≤ maxDataSize - 200 := by
    show 256 * 1024 + 1 ≤ 384 * 1024 - 200
    omega
  exact ⟨passes_new, @not_means (maxStringLength + 1) (Nat.lt_succ_self _) hfits⟩

end HiSysEvent
