import HiSysEvent.EventBase
import HiSysEvent.Run

/-!
# Parameters under allocation failures

`AppendParam` appends the pieces of a parameter one by one, and each append may need an
allocation. When one is refused the pieces before it stay in the raw data while the
parameter is not counted, so the receiver takes them for the next parameter.

`KeepsBytes` says that an append that fails leaves the raw data as it was. It fails
unless the step is `Covered` : all allocations it needs are granted, or the buffer is
exactly full and already the first one is refused. A run whose steps are all covered,
and no other, appends every parameter whole or not at all, and its block is well formed
(`keepsBytes_iff_covered`).
-/

namespace HiSysEvent

open Wire Writer Run

namespace EventBase

/-- `AppendParam` as a step on the event and the outcomes of the allocations. -/
def appendStep (s : EventBase × Alloc) (param : EncodedParam) : EventBase × Alloc :=
  s.1.appendParam param s.2

/-- An encoding that fails leaves the raw data as it was. -/
def KeepsBytes (s : EventBase × Alloc) (param : EncodedParam) : Prop :=
  ∀ d d' a', s.1.rawData = some d → param.encode (d, s.2) = (false, d', a') →
    d'.content = d.content

/-- All allocations the parameter needs are granted, or the buffer is full and the next
allocation is refused. -/
def Covered (s : EventBase × Alloc) (param : EncodedParam) : Prop :=
  ∀ d, s.1.rawData = some d →
    Granted s.2 (growths d.len d.capacity param.pieces) ∨
      (d.len = d.capacity ∧ s.2.next = false)

instance decidableCovered (s : EventBase × Alloc) (param : EncodedParam) :
    Decidable (Covered s param) :=
  match h : s.1.rawData with
  | none => isTrue fun d hd => by
    rw [h] at hd
    cases hd
  | some d =>
    decidable_of_iff (Granted s.2 (growths d.len d.capacity param.pieces) ∨
      (d.len = d.capacity ∧ s.2.next = false))
      ⟨fun hcov d' hd' => Option.some.inj (h.symm.trans hd') ▸ hcov, fun hcov => hcov d h⟩

/-- The parameters a run appends whole. -/
def appended : EventBase × Alloc → List EncodedParam → List Param
  | _, [] => []
  | s, param :: params =>
    (if (appendStep s param).1.paramCnt = s.1.paramCnt + 1 then [param.toParam] else []) ++
      appended (appendStep s param) params

/-- The finished raw data is the header part, and the parameters counted are those a run
appends whole. -/
def WholeBlock (s : EventBase × Alloc) (params : List EncodedParam) : Prop :=
  ∃ d, ((exec appendStep s params).1.getEventRawData (exec appendStep s params).2).1 = some d ∧
    d.content = (s.1.block (appended s params)).encode ∧
    (exec appendStep s params).1.paramCnt = (appended s params).length

/-! ## One step -/

/-- The first piece of a parameter is one byte. -/
theorem pieces_eq_cons (param : EncodedParam) : ∃ b bs, param.pieces = [b] :: bs :=
  ⟨_, _, rfl⟩

theorem keepsBytes_iff {s : EventBase × Alloc} {params : List Param} (h : s.1.Holds params)
    (param : EncodedParam) : KeepsBytes s param ↔ Covered s param := by
  obtain ⟨d, -, -, hd, hv, -⟩ := h.raw
  obtain ⟨b, bs, hpieces⟩ := pieces_eq_cons param
  have hle := hv.len_le
  constructor
  · rintro hkeeps d' hd'
    obtain rfl : d = d' := by simpa [hd] using hd'
    by_cases hg : Granted s.2 (growths d.len d.capacity param.pieces)
    · exact Or.inl hg
    · obtain ⟨d₁, a₁, happ, -, k, hcont, hk⟩ := appendAll_refused param.pieces hv hg
      rw [hkeeps d d₁ a₁ hd (by rw [param.encode_eq, happ]), hpieces] at hcont
      have hk0 : k = 0 := by
        rcases k with _ | k
        · rfl
        · simp at hcont
      obtain ⟨hfull, ha⟩ := hk hk0
      rw [hpieces, List.headD_cons, List.length_singleton] at hfull
      exact Or.inr ⟨by omega, ha⟩
  · rintro hcov d₀ d' a' hd₀ henc
    obtain rfl : d = d₀ := by simpa [hd] using hd₀
    rw [param.encode_eq] at henc
    rcases hcov d hd with hg | ⟨hfull, ha⟩
    · obtain ⟨d₁, happ, -⟩ := appendAll_granted param.pieces hv hg
      rw [happ] at henc
      cases henc
    · have happ := append_refused hv (b := [b]) (by simp [hfull]) ha
      rw [hpieces] at henc
      simp only [appendAll, andThen, happ] at henc
      cases henc
      rfl

theorem header_appendStep (s : EventBase × Alloc) (param : EncodedParam) :
    (appendStep s param).1.header = s.1.header ∧
      (appendStep s param).1.traceInfo = s.1.traceInfo := by
  unfold appendStep appendParam
  split
  · exact ⟨rfl, rfl⟩
  · split <;> exact ⟨rfl, rfl⟩

/-- A covered step keeps the invariant, with the parameter or without it. -/
theorem appendStep_covered {s : EventBase × Alloc} {params : List Param} (h : s.1.Holds params)
    {param : EncodedParam} (hcov : Covered s param) :
    (appendStep s param).1.Holds (params ++
      (if (appendStep s param).1.paramCnt = s.1.paramCnt + 1 then [param.toParam] else [])) := by
  obtain ⟨d, -, -, hd, hv, -⟩ := h.raw
  rcases hcov d hd with hg | ⟨hfull, ha⟩
  · obtain ⟨d', happ, hholds⟩ := appendParam_granted h hd param hg
    have hcnt : (appendStep s param).1.paramCnt = s.1.paramCnt + 1 := by
      rw [appendStep, happ]
    rw [if_pos hcnt]
    exact hholds
  · obtain ⟨b, bs, hpieces⟩ := pieces_eq_cons param
    have happ := append_refused hv (b := [b]) (by simp [hfull]) ha
    have henc : param.encode (d, s.2) = (false, d, s.2.drop 1) := by
      rw [param.encode_eq, hpieces]
      simp only [appendAll, andThen, happ]
    have hstep : (appendStep s param).1 = s.1 := by
      simp only [appendStep, appendParam, hd, henc]
      rw [← hd]
    rw [hstep, if_neg (by omega), List.append_nil]
    exact h

/-! ## Runs -/

theorem exec_covered : ∀ {xs : List EncodedParam} {s : EventBase × Alloc} {params : List Param},
    s.1.Holds params → Each appendStep Covered s xs →
      (exec appendStep s xs).1.Holds (params ++ appended s xs) ∧
        (exec appendStep s xs).1.header = s.1.header ∧
        (exec appendStep s xs).1.traceInfo = s.1.traceInfo
  | [], s, params, h, _ => ⟨by simpa [exec, appended] using h, rfl, rfl⟩
  | x :: xs, s, params, h, hcov => by
    obtain ⟨hholds, hhd, htr⟩ := exec_covered (appendStep_covered h hcov.1) hcov.2
    rw [List.append_assoc] at hholds
    have hframe := header_appendStep s x
    exact ⟨hholds, hhd.trans hframe.1, htr.trans hframe.2⟩

theorem wholeBlock_of_covered {s : EventBase × Alloc} (h : s.1.Holds []) {xs : List EncodedParam}
    (hcov : Each appendStep Covered s xs) : WholeBlock s xs := by
  obtain ⟨hholds, hhd, htr⟩ := exec_covered h hcov
  rw [List.nil_append] at hholds
  obtain ⟨d, hget, -, hcont, -⟩ := getEventRawData_holds hholds (exec appendStep s xs).2
  refine ⟨d, by rw [hget], ?_, hholds.paramCnt⟩
  have hblock : (exec appendStep s xs).1.block (appended s xs) = s.1.block (appended s xs) := by
    simp only [block, base, trace, hhd, htr]
  rw [hcont, hblock]

/-- After a successful `WritebaseInfo`, every parameter is appended whole or not at all if and
only if every step of the run is covered. -/
theorem keepsBytes_iff_covered (k : CharKind) (domain eventName : Bytes) (type : ℤ)
    (timeStamp : UInt64) (p : Process) (a : Alloc)
    (h : 0 ≤ ((new k domain eventName type timeStamp).writebaseInfo p a).1.retCode)
    (xs : List EncodedParam) :
    (Each appendStep KeepsBytes ((new k domain eventName type timeStamp).writebaseInfo p a) xs ∧
      WholeBlock ((new k domain eventName type timeStamp).writebaseInfo p a) xs) ↔
    Each appendStep Covered ((new k domain eventName type timeStamp).writebaseInfo p a) xs := by
  have hholds := writebaseInfo_holds h
  have hiff := each_congr (I := fun s : EventBase × Alloc => ∃ params, s.1.Holds params)
    (fun s x ⟨params, hs⟩ => keepsBytes_iff hs x)
    (fun s x ⟨params, hs⟩ hcov => ⟨_, appendStep_covered hs hcov⟩) xs ⟨[], hholds⟩
  rw [hiff, and_iff_left_iff_imp]
  exact wholeBlock_of_covered hholds

/-- A buffer that is granted, a growth that is refused, and the growths after it. -/
def secondRefused : Alloc :=
  fun i => i != 1

/-- The first parameter fills the buffer, the growth for the second is refused, and the third is
appended. -/
theorem keepsBytes_iff_covered_full :
    let s := (new .signed [65] [66] 1 7).writebaseInfo ⟨0, 1, 2, 3, none⟩ secondRefused
    let xs := [stringEncodedParam (List.replicate 20 67) (List.replicate 17 68),
      stringEncodedParam [69] [70], stringEncodedParam [71] [72]]
    (Each appendStep KeepsBytes s xs ∧ WholeBlock s xs) ∧ (exec appendStep s xs).1.paramCnt = 2 :=
  ⟨(keepsBytes_iff_covered .signed [65] [66] 1 7 ⟨0, 1, 2, 3, none⟩ secondRefused (by decide) _).2
    (by decide +kernel), by decide +kernel⟩

/-- A buffer that is granted, and no growth after it. -/
def firstOnly : Alloc :=
  fun i => i == 0

/-- After the base information there is room for the key of this parameter, not for its value :
the key stays behind. -/
theorem not_keepsBytes_firstOnly :
    0 ≤ ((new .signed [65] [66] 1 7).writebaseInfo ⟨0, 1, 2, 3, none⟩ firstOnly).1.retCode ∧
    ¬Each appendStep KeepsBytes
      ((new .signed [65] [66] 1 7).writebaseInfo ⟨0, 1, 2, 3, none⟩ firstOnly)
      [stringEncodedParam (List.replicate 20 67) (List.replicate 31 68)] := by
  have hret : 0 ≤
      ((new .signed [65] [66] 1 7).writebaseInfo ⟨0, 1, 2, 3, none⟩ firstOnly).1.retCode := by
    decide
  have hpieces : (stringEncodedParam (List.replicate 20 67) (List.replicate 31 68)).pieces =
      [[84], List.replicate 20 67, [24], [95], List.replicate 31 68] := by
    simp [stringEncodedParam, EncodedParam.pieces, EncodedValue.pieces,
      RawDataEncoder.varintPieces, tagged,
      groups_zero, EncodeType.toNat, EncodedValue.toParamValue, ParamValue.typeByte,
      ValueType.toNat]
  refine ⟨hret, fun h => ?_⟩
  rcases (keepsBytes_iff (writebaseInfo_holds hret) _).1 h.1 _ rfl with hg | ⟨hfull, -⟩
  · rw [hpieces] at hg
    exact absurd (hg 0 (by decide)) (by decide)
  · exact absurd hfull (by decide)

end EventBase

end HiSysEvent
