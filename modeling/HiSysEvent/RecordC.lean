import HiSysEvent.HiSysEventRecord
import HiSysEvent.StringUtil

/-!
# The C accessors of a record

A C accessor builds a record of the text in the C struct, calls the C++ accessor, and publishes what
it gets. An array is published by its address and its length, but not at once : an empty array
leaves the length as it was, and the length is set before the array is allocated.

So the scalar accessors always agree with the C++ ones, and those of arrays exactly if the length
was right before in these two cases (`Publishable`, `accessors_agree_iff`). An array of pointers
that is not granted is besides reported as a success.
-/

namespace HiSysEvent

open Wire StringUtil

abbrev errNull : ℤ := -1

namespace RecordC

variable {json : JsonCpp}

/-! ## The accessors -/

/-- `GetParamValue<T>`. The first strings are `jsonStr` of the record and the name. -/
def getParamValue {α : Type} (accessor : HiSysEventRecord json → Bytes → α → Option (ℤ × α))
    (jsonStr name : Option Bytes) (value : α) : Option (ℤ × α) :=
  match jsonStr, name with
  | some text, some name =>
    (HiSysEventRecord.new json text).bind fun recordObj => accessor recordObj name value
  | _, _ => some (errNull, value)

/-- `GetParamValue` for `char**`. -/
def getParamStringValue (jsonStr name : Option Bytes) (value : Option ℕ) (heap : Heap json.Double) :
    Option (ℤ × Option ℕ × Heap json.Double) :=
  match jsonStr, name with
  | some text, some name =>
    (HiSysEventRecord.new json text).bind fun recordObj =>
      (recordObj.getParamString name []).map fun (res, str) =>
        if res ≠ 0 then (res, value, heap) else convertCString str value heap
  | _, _ => some (errNull, value, heap)

/-- The end of `GetParamValues<T>`. The length is set before the array is allocated. -/
def publish {α : Type} (block : List α → Block json.Double) (dataVec : List α) (value : Option ℕ)
    (_ : ℕ) (heap : Heap json.Double) : ℤ × (Option ℕ × ℕ) × Heap json.Double :=
  let len := dataVec.length
  match heap.new (block dataVec) with
  | (none, heap) => (errNull, (value, len), heap)
  | (some data, heap) => (0, (some data, len), heap)

/-- `GetParamValues`, up to the conversion of an array that is not empty. -/
def getParamValues {α : Type}
    (accessor : HiSysEventRecord json → Bytes → List α → Option (ℤ × List α))
    (convert : List α → Option ℕ → ℕ → Heap json.Double → ℤ × (Option ℕ × ℕ) × Heap json.Double)
    (jsonStr name : Option Bytes) (value : Option ℕ) (len : ℕ) (heap : Heap json.Double) :
    Option (ℤ × (Option ℕ × ℕ) × Heap json.Double) :=
  match jsonStr, name with
  | some text, some name =>
    (HiSysEventRecord.new json text).bind fun recordObj =>
      (accessor recordObj name []).map fun (res, dataVec) =>
        if res ≠ 0 then (res, (value, len), heap)
        else if dataVec.isEmpty then (0, (value, len), heap)
        else convert dataVec value len heap
  | _, _ => some (errNull, (value, len), heap)

/-- `OH_HiSysEvent_GetParamNames`. -/
def getParamNames (jsonStr : Option Bytes) (names : Option ℕ) (len : ℕ) (heap : Heap json.Double) :
    Option (ℤ × (Option ℕ × ℕ) × Heap json.Double) :=
  match jsonStr with
  | some text =>
    (HiSysEventRecord.new json text).map fun recordObj =>
      let dataVec := recordObj.getParamNames []
      if dataVec.isEmpty then (0, (names, len), heap)
      else convertCStringVec dataVec names len heap
  | none => some (errNull, (names, len), heap)

end RecordC

section interface

open RecordC

variable (json : JsonCpp) (jsonStr name : Option Bytes)

/-- `OH_HiSysEvent_GetParamInt64Value`. -/
def ohHiSysEventGetParamInt64Value : Int64 → Option (ℤ × Int64) :=
  getParamValue (@HiSysEventRecord.getParamInt64 json) jsonStr name

/-- `OH_HiSysEvent_GetParamUint64Value`. -/
def ohHiSysEventGetParamUint64Value : UInt64 → Option (ℤ × UInt64) :=
  getParamValue (@HiSysEventRecord.getParamUInt64 json) jsonStr name

/-- `OH_HiSysEvent_GetParamDoubleValue`. -/
def ohHiSysEventGetParamDoubleValue : json.Double → Option (ℤ × json.Double) :=
  getParamValue HiSysEventRecord.getParamDouble jsonStr name

/-- `OH_HiSysEvent_GetParamStringValue`. -/
def ohHiSysEventGetParamStringValue :
    Option ℕ → Heap json.Double → Option (ℤ × Option ℕ × Heap json.Double) :=
  getParamStringValue jsonStr name

/-- `OH_HiSysEvent_GetParamInt64Values`. -/
def ohHiSysEventGetParamInt64Values :
    Option ℕ → ℕ → Heap json.Double → Option (ℤ × (Option ℕ × ℕ) × Heap json.Double) :=
  getParamValues HiSysEventRecord.getParamInt64s (publish .int64s) jsonStr name

/-- `OH_HiSysEvent_GetParamUint64Values`. -/
def ohHiSysEventGetParamUint64Values :
    Option ℕ → ℕ → Heap json.Double → Option (ℤ × (Option ℕ × ℕ) × Heap json.Double) :=
  getParamValues HiSysEventRecord.getParamUInt64s (publish .uint64s) jsonStr name

/-- `OH_HiSysEvent_GetParamDoubleValues`. -/
def ohHiSysEventGetParamDoubleValues :
    Option ℕ → ℕ → Heap json.Double → Option (ℤ × (Option ℕ × ℕ) × Heap json.Double) :=
  getParamValues HiSysEventRecord.getParamDoubles (publish .doubles) jsonStr name

/-- `OH_HiSysEvent_GetParamStringValues`. -/
def ohHiSysEventGetParamStringValues :
    Option ℕ → ℕ → Heap json.Double → Option (ℤ × (Option ℕ × ℕ) × Heap json.Double) :=
  getParamValues HiSysEventRecord.getParamStrings convertCStringVec jsonStr name

/-- The code is not returned. -/
def ohHiSysEventGetParamNames (params : Option ℕ) (len : ℕ) (heap : Heap json.Double) :
    Option ((Option ℕ × ℕ) × Heap json.Double) :=
  (getParamNames jsonStr params len heap).map Prod.snd

end interface

namespace RecordC

variable {json : JsonCpp}

/-! ## What an accessor should do -/

/-- A C accessor of an array against what the C++ accessor returned for an empty vector. -/
structure ArrayAgrees {α : Type} (holds : Heap json.Double → Option ℕ → List α → Prop)
    (cxx : ℤ × List α) (value : Option ℕ) (len : ℕ) (heap : Heap json.Double)
    (c : ℤ × (Option ℕ × ℕ) × Heap json.Double) : Prop where
  code : c.2.2.denied = heap.denied → c.1 = cxx.1
  codeDenied : heap.denied < c.2.2.denied → c.1 ≠ 0
  success : c.1 = 0 → c.2.1.2 = cxx.2.length ∧ (cxx.2 ≠ [] → holds c.2.2 c.2.1.1 cxx.2)
  failure : c.1 ≠ 0 → c.2.1 = (value, len) ∧ c.2.2.blocks = heap.blocks

/-- A string of the C interface is the C++ one, unless an allocation is refused. -/
structure StringAgrees (cxx : ℤ × Bytes) (value : Option ℕ) (heap : Heap json.Double)
    (c : ℤ × Option ℕ × Heap json.Double) : Prop where
  code : c.2.2.denied = heap.denied → c.1 = cxx.1
  codeDenied : heap.denied < c.2.2.denied → c.1 ≠ 0
  success : c.1 = 0 → HoldsString c.2.2 c.2.1 cxx.2
  failure : c.1 ≠ 0 → c.2.1 = value ∧ c.2.2.blocks = heap.blocks

/-- There is no code, so it is the allocations that tell a success from a failure. -/
structure NamesAgree (cxx : List Bytes) (names : Option ℕ) (len : ℕ) (heap : Heap json.Double)
    (c : (Option ℕ × ℕ) × Heap json.Double) : Prop where
  success : c.2.denied = heap.denied →
    c.1.2 = cxx.length ∧ (cxx ≠ [] → HoldsStrings c.2 c.1.1 cxx)
  failure : heap.denied < c.2.denied → c.1 = (names, len) ∧ c.2.blocks = heap.blocks

/-- A block at an address. -/
def HoldsBlock {α : Type} (block : List α → Block json.Double) (heap : Heap json.Double)
    (p : Option ℕ) (l : List α) : Prop :=
  ∃ a, p = some a ∧ heap.blocks a = some (block l)

/-- The length that was there before is right where an accessor leaves it, or sets it and fails. -/
def Publishable {α : Type} (len : ℕ) (l : List α) (denied : Prop) : Prop :=
  (l = [] → len = 0) ∧ (l ≠ [] → denied → len = l.length)

/-- One of the allocations for an array and its strings is not granted. -/
def SomeDenied (alloc : Alloc) (l : List Bytes) : Prop :=
  ∃ i ≤ l.length, alloc i = false

/-! ## Arrays -/

section arrays

variable {α : Type} {holds : Heap json.Double → Option ℕ → List α → Prop} {value : Option ℕ}
  {len : ℕ} {heap : Heap json.Double} {l : List α}

/-- A code that is passed on. -/
theorem arrayAgrees_of_code {code : ℤ} (hcode : code ≠ 0) :
    ArrayAgrees holds (code, l) value len heap (code, (value, len), heap) where
  code _ := rfl
  codeDenied h := absurd h (lt_irrefl _)
  success h := absurd h hcode
  failure _ := ⟨rfl, rfl⟩

theorem arrayAgrees_empty_iff :
    ArrayAgrees holds (0, ([] : List α)) value len heap (0, (value, len), heap) ↔ len = 0 :=
  ⟨fun h => (h.success rfl).1, fun hlen =>
    ⟨fun _ => rfl, fun h => absurd h (lt_irrefl _), fun _ => ⟨hlen, fun h => absurd rfl h⟩,
      fun h => absurd rfl h⟩⟩

/-- A failure that gave everything back should have left the length as it was. -/
theorem arrayAgrees_failed_iff {heap' : Heap json.Double}
    (hdenied : heap'.denied = heap.denied + 1) (hblocks : heap'.blocks = heap.blocks) :
    ArrayAgrees holds (0, l) value len heap (-1, (value, l.length), heap') ↔ len = l.length := by
  constructor
  · intro h
    exact (Prod.mk.inj (h.failure failed_ne_zero).1).2.symm
  · rintro rfl
    refine ⟨fun h => ?_, fun _ => failed_ne_zero, fun h => absurd h failed_ne_zero,
      fun _ => ⟨rfl, hblocks⟩⟩
    dsimp only at h
    omega

theorem publish_agrees_iff (block : List α → Block json.Double) :
    ArrayAgrees (HoldsBlock block) (0, l) value len heap (publish block l value len heap) ↔
      (heap.alloc 0 = false → len = l.length) := by
  cases hnext : heap.alloc.next with
  | true =>
    have hgranted : ¬heap.alloc 0 = false := by simpa [Alloc.next] using hnext
    refine iff_of_true ?_ fun h => absurd h hgranted
    simp only [publish, CHeap.new_of_next _ _ hnext]
    exact ⟨fun _ => rfl, fun h => absurd h (lt_irrefl _),
      fun _ => ⟨rfl, fun _ => ⟨_, rfl, Function.update_self _ _ _⟩⟩, fun h => absurd rfl h⟩
  | false =>
    simp only [publish, CHeap.new_of_not_next _ _ hnext]
    rw [arrayAgrees_failed_iff (CHeap.denied_deny _) (CHeap.blocks_deny _)]
    exact ⟨fun h _ => h, fun h => h hnext⟩

/-- Either all is granted, or everything is given back. The code is that of success if it is the
array of pointers that is not granted. -/
theorem convertCStringVec_cases {l : List Bytes} (hl : l ≠ [])
    (hlen : ∀ s ∈ l, s.length ≤ 8 * 1024) (h0 : ∀ s ∈ l, 0 ∉ s) (value : Option ℕ) (len : ℕ)
    (heap : Heap json.Double) :
    (¬SomeDenied heap.alloc l ∧ ∃ p heap', convertCStringVec l value len heap =
        (0, (p, l.length), heap') ∧ heap'.denied = heap.denied ∧ HoldsStrings heap' p l) ∨
    (SomeDenied heap.alloc l ∧ ∃ heap', convertCStringVec l value len heap =
        (if heap.alloc 0 = true then -1 else 0, (value, l.length), heap') ∧
      heap'.denied = heap.denied + 1 ∧ heap'.blocks = heap.blocks) := by
  by_cases hdenied : SomeDenied heap.alloc l
  case neg =>
    exact Or.inl ⟨hdenied, convertCStringVec_granted hl hlen h0
      fun i hi => by simpa using fun hfalse => hdenied ⟨i, hi, hfalse⟩⟩
  case pos =>
    refine Or.inr ⟨hdenied, ?_⟩
    cases hnext : heap.alloc.next with
    | true =>
      have hfirst : heap.alloc 0 = true := hnext
      rw [if_pos hfirst]
      exact convertCStringVec_denied hl hlen hnext hdenied
    | false =>
      have hfirst : ¬heap.alloc 0 = true := Bool.eq_false_iff.1 hnext
      rw [if_neg hfirst]
      exact ⟨_, convertCStringVec_noArray hl hnext, CHeap.denied_deny _, CHeap.blocks_deny _⟩

theorem convertCStringVec_agrees_iff {l : List Bytes} (hl : l ≠ [])
    (hlen : ∀ s ∈ l, s.length ≤ 8 * 1024) (h0 : ∀ s ∈ l, 0 ∉ s) :
    ArrayAgrees HoldsStrings (0, l) value len heap (convertCStringVec l value len heap) ↔
      (SomeDenied heap.alloc l → len = l.length ∧ heap.alloc 0 = true) := by
  rcases convertCStringVec_cases hl hlen h0 value len heap with
    ⟨hdenied, p, heap', heq, hsame, hholds⟩ | ⟨hdenied, heap', heq, hone, hblocks⟩
  · rw [heq]
    refine iff_of_true ⟨fun _ => rfl, fun h => ?_, fun _ => ⟨rfl, fun _ => hholds⟩,
      fun h => absurd rfl h⟩ fun h => absurd h hdenied
    exact absurd hsame (ne_of_gt h)
  · rw [heq, forall_prop_of_true hdenied]
    by_cases hfirst : heap.alloc 0 = true
    · rw [if_pos hfirst, arrayAgrees_failed_iff hone hblocks]
      exact (and_iff_left hfirst).symm
    · rw [if_neg hfirst]
      refine iff_of_false (fun h => h.codeDenied ?_ rfl) fun h => hfirst h.2
      exact hone ▸ Nat.lt_succ_self _

/-- An array is published as it should be if its conversion does so, and an empty one if its length
was there before. -/
theorem getParamValues_agrees_iff {text name : Bytes} {record : HiSysEventRecord json}
    (hnew : HiSysEventRecord.new json text = some record)
    {accessor : HiSysEventRecord json → Bytes → List α → Option (ℤ × List α)}
    {convert : List α → Option ℕ → ℕ → Heap json.Double → ℤ × (Option ℕ × ℕ) × Heap json.Double}
    {code : ℤ} (hcxx : accessor record name [] = some (code, l)) {converts : Prop}
    (hconvert : l ≠ [] →
      (ArrayAgrees holds (0, l) value len heap (convert l value len heap) ↔ converts)) :
    (∃ c, getParamValues accessor convert (some text) (some name) value len heap = some c ∧
        ArrayAgrees holds (code, l) value len heap c) ↔
      (code = 0 → (l = [] → len = 0) ∧ (l ≠ [] → converts)) := by
  simp only [getParamValues, hnew, Option.bind_some, hcxx, Option.map_some, Option.some.injEq,
    exists_eq_left']
  split
  case isTrue hcode => exact iff_of_true (arrayAgrees_of_code hcode) fun h => absurd h hcode
  case isFalse hcode =>
    obtain rfl : code = 0 := not_not.1 hcode
    rw [forall_prop_of_true rfl]
    cases hl : l with
    | nil => simpa using arrayAgrees_empty_iff
    | cons a as =>
      rw [hl] at hconvert
      simpa using hconvert (by simp)

end arrays

/-! ## Scalars, strings and names -/

section others

variable {text name : Bytes} {record : HiSysEventRecord json}
  (hnew : HiSysEventRecord.new json text = some record) {heap : Heap json.Double}
include hnew

theorem getParamValue_eq {α : Type}
    {accessor : HiSysEventRecord json → Bytes → α → Option (ℤ × α)} {value : α} {res : ℤ × α}
    (hcxx : accessor record name value = some res) :
    getParamValue accessor (some text) (some name) value = some res := by
  simp only [getParamValue, hnew, Option.bind_some, hcxx]

theorem getParamStringValue_agrees {str : Bytes} {code : ℤ}
    (hcxx : record.getParamString name [] = some (code, str)) (h0 : 0 ∉ str)
    (hlen : str.length ≤ 8 * 1024) (value : Option ℕ) :
    ∃ c, getParamStringValue (some text) (some name) value heap = some c ∧
      StringAgrees (code, str) value heap c := by
  simp only [getParamStringValue, hnew, Option.bind_some, hcxx, Option.map_some,
    Option.some.injEq, exists_eq_left']
  split
  case isTrue hcode =>
    exact ⟨fun _ => rfl, fun h => absurd h (lt_irrefl _), fun h => absurd h hcode,
      fun _ => ⟨rfl, rfl⟩⟩
  case isFalse hcode =>
    obtain rfl : code = 0 := not_not.1 hcode
    cases hnext : heap.alloc.next with
    | true =>
      rw [convertCString, newCString_granted hlen hnext]
      exact ⟨fun _ => rfl, fun h => absurd h (lt_irrefl _),
        fun _ => holdsString_stringBlock h0 (Function.update_self _ _ _), fun h => absurd rfl h⟩
    | false =>
      rw [convertCString, newCString_denied hlen hnext]
      refine ⟨fun h => ?_, fun _ => failed_ne_zero, fun h => absurd h failed_ne_zero,
        fun _ => ⟨rfl, rfl⟩⟩
      simp at h

omit hnew in
theorem namesAgree_failed_iff {l : List Bytes} {names : Option ℕ} {len : ℕ}
    {heap' : Heap json.Double} (hdenied : heap'.denied = heap.denied + 1)
    (hblocks : heap'.blocks = heap.blocks) :
    NamesAgree l names len heap ((names, l.length), heap') ↔ len = l.length := by
  constructor
  · intro h
    exact (Prod.mk.inj (h.failure (by dsimp only; omega)).1).2.symm
  · rintro rfl
    exact ⟨fun h => by dsimp only at h; omega, fun _ => ⟨rfl, hblocks⟩⟩

/-- The names are published as the strings of an array are, but nobody asks for the code. -/
theorem getParamNames_agrees_iff (hlen : ∀ s ∈ record.getParamNames [], s.length ≤ 8 * 1024)
    (h0 : ∀ s ∈ record.getParamNames [], 0 ∉ s) (names : Option ℕ) (len : ℕ) :
    (∃ c, ohHiSysEventGetParamNames json (some text) names len heap = some c ∧
        NamesAgree (record.getParamNames []) names len heap c) ↔
      Publishable len (record.getParamNames [])
        (SomeDenied heap.alloc (record.getParamNames [])) := by
  simp only [ohHiSysEventGetParamNames, getParamNames, hnew, Option.map_some, Option.some.injEq,
    exists_eq_left']
  generalize record.getParamNames [] = l at *
  by_cases hl : l = []
  case pos =>
    subst hl
    refine ⟨fun h => ⟨fun _ => (h.success rfl).1, fun h => absurd rfl h⟩, fun h => ?_⟩
    exact ⟨fun _ => ⟨h.1 rfl, fun h => absurd rfl h⟩, fun h => absurd h (lt_irrefl _)⟩
  case neg =>
    have hpublishable : Publishable len l (SomeDenied heap.alloc l) ↔
        (SomeDenied heap.alloc l → len = l.length) :=
      ⟨fun h => h.2 hl, fun h => ⟨fun hnil => absurd hnil hl, fun _ => h⟩⟩
    rw [hpublishable, if_neg (by simpa using hl)]
    rcases convertCStringVec_cases hl hlen h0 names len heap with
      ⟨hdenied, p, heap', heq, hsame, hholds⟩ | ⟨hdenied, heap', heq, hone, hblocks⟩
    · rw [heq]
      refine iff_of_true ⟨fun _ => ⟨rfl, fun _ => hholds⟩, fun h => ?_⟩ fun h => absurd h hdenied
      exact absurd hsame (ne_of_gt h)
    · rw [heq, forall_prop_of_true hdenied]
      exact namesAgree_failed_iff hone hblocks

end others

/-! ## The nine accessors -/

/-- The scalar accessors agree with the C++ ones. Those of arrays do so exactly if the length was
right before where they leave it, or set it and fail, and, for strings, the array of pointers is
granted. -/
theorem accessors_agree_iff {text name : Bytes} {record : HiSysEventRecord json}
    (hnew : HiSysEventRecord.new json text = some record) (heap : Heap json.Double) :
    (∀ value code out, record.getParamInt64 name value = some (code, out) →
      ohHiSysEventGetParamInt64Value json (some text) (some name) value = some (code, out) ∧
        (code ≠ 0 → out = value)) ∧
    (∀ value code out, record.getParamUInt64 name value = some (code, out) →
      ohHiSysEventGetParamUint64Value json (some text) (some name) value = some (code, out) ∧
        (code ≠ 0 → out = value)) ∧
    (∀ value code out, record.getParamDouble name value = some (code, out) →
      ohHiSysEventGetParamDoubleValue json (some text) (some name) value = some (code, out) ∧
        (code ≠ 0 → out = value)) ∧
    (∀ value code str, record.getParamString name [] = some (code, str) →
      0 ∉ str → str.length ≤ 8 * 1024 →
      ∃ c, ohHiSysEventGetParamStringValue json (some text) (some name) value heap = some c ∧
        StringAgrees (code, str) value heap c) ∧
    (∀ value len code l, record.getParamInt64s name [] = some (code, l) →
      ((∃ c, ohHiSysEventGetParamInt64Values json (some text) (some name) value len heap = some c ∧
          ArrayAgrees (HoldsBlock .int64s) (code, l) value len heap c) ↔
        (code = 0 → Publishable len l (heap.alloc 0 = false)))) ∧
    (∀ value len code l, record.getParamUInt64s name [] = some (code, l) →
      ((∃ c, ohHiSysEventGetParamUint64Values json (some text) (some name) value len heap = some c ∧
          ArrayAgrees (HoldsBlock .uint64s) (code, l) value len heap c) ↔
        (code = 0 → Publishable len l (heap.alloc 0 = false)))) ∧
    (∀ value len code l, record.getParamDoubles name [] = some (code, l) →
      ((∃ c, ohHiSysEventGetParamDoubleValues json (some text) (some name) value len heap = some c ∧
          ArrayAgrees (HoldsBlock .doubles) (code, l) value len heap c) ↔
        (code = 0 → Publishable len l (heap.alloc 0 = false)))) ∧
    (∀ value len code l, record.getParamStrings name [] = some (code, l) →
      (∀ s ∈ l, s.length ≤ 8 * 1024) → (∀ s ∈ l, 0 ∉ s) →
      ((∃ c, ohHiSysEventGetParamStringValues json (some text) (some name) value len heap = some c ∧
          ArrayAgrees HoldsStrings (code, l) value len heap c) ↔
        (code = 0 → Publishable len l (SomeDenied heap.alloc l) ∧
          (l ≠ [] → heap.alloc 0 = true)))) ∧
    ((∀ s ∈ record.getParamNames [], s.length ≤ 8 * 1024) → (∀ s ∈ record.getParamNames [], 0 ∉ s) →
      ∀ names len, (∃ c, ohHiSysEventGetParamNames json (some text) names len heap = some c ∧
          NamesAgree (record.getParamNames []) names len heap c) ↔
        Publishable len (record.getParamNames [])
          (SomeDenied heap.alloc (record.getParamNames []))) := by
  refine ⟨?_, ?_, ?_, ?_, ?_, ?_, ?_, ?_, ?_⟩
  · exact fun value code out hcxx =>
      ⟨getParamValue_eq hnew hcxx, HiSysEventRecord.getParamValue_unchanged _ _ hcxx⟩
  · exact fun value code out hcxx =>
      ⟨getParamValue_eq hnew hcxx, HiSysEventRecord.getParamValue_unchanged _ _ hcxx⟩
  · exact fun value code out hcxx =>
      ⟨getParamValue_eq hnew hcxx, HiSysEventRecord.getParamValue_unchanged _ _ hcxx⟩
  · exact fun value code str hcxx h0 hlen => getParamStringValue_agrees hnew hcxx h0 hlen value
  · exact fun value len code l hcxx =>
      getParamValues_agrees_iff hnew hcxx fun _ => publish_agrees_iff _
  · exact fun value len code l hcxx =>
      getParamValues_agrees_iff hnew hcxx fun _ => publish_agrees_iff _
  · exact fun value len code l hcxx =>
      getParamValues_agrees_iff hnew hcxx fun _ => publish_agrees_iff _
  · intro value len code l hcxx hlen h0
    refine (getParamValues_agrees_iff hnew hcxx fun hl =>
      convertCStringVec_agrees_iff hl hlen h0).trans (forall_congr' fun _ => ?_)
    constructor
    · rintro ⟨hnil, hdenied⟩
      refine ⟨⟨hnil, fun hl h => (hdenied hl h).1⟩, fun hl => ?_⟩
      by_contra hnext
      exact hnext (hdenied hl ⟨0, Nat.zero_le _, by simpa using hnext⟩).2
    · exact fun h => ⟨h.1.1, fun hl hdenied => ⟨h.1.2 hl hdenied, h.2 hl⟩⟩
  · exact fun hlen h0 => getParamNames_agrees_iff hnew hlen h0

/-- The text of an object with the numbers 1 and 2 under `k`, and two strings under `s`. -/
abbrev arraysText : Bytes :=
  [123, 34, 107, 34, 58, 91, 49, 44, 50, 93, 44, 34, 115, 34, 58, 91, 34, 97, 34, 44, 34, 98, 34,
    93, 125]

/-- What jsoncpp makes of it. -/
abbrev arrays : JsonCpp :=
  JsonCpp.reference [(arraysText, .object [([107], .array [.int 1, .int 2]),
    ([115], .array [.string [97], .string [98]])])]

/-- A heap with nothing on it. -/
abbrev arraysHeap (alloc : Alloc) : Heap arrays.Double :=
  ⟨alloc, 1, fun _ => none, 0, [], fun _ _ => rfl⟩

/-- Arrays of two elements. With everything granted they are published whatever the length was
before, and with the second string refused only if the length was right. -/
theorem accessors_agree_arrays :
    let granted := arraysHeap Alloc.always
    let refused := arraysHeap fun i => i ≠ 2
    let numbers := fun heap len => ∃ c, ohHiSysEventGetParamInt64Values arrays (some arraysText)
      (some [107]) none len heap = some c ∧
        ArrayAgrees (HoldsBlock .int64s) (0, [1, 2]) none len heap c
    let strings := fun heap len => ∃ c, ohHiSysEventGetParamStringValues arrays (some arraysText)
      (some [115]) none len heap = some c ∧
        ArrayAgrees HoldsStrings (0, [[97], [98]]) none len heap c
    let names := fun heap len => ∃ c, ohHiSysEventGetParamNames arrays (some arraysText) none len
      heap = some c ∧ NamesAgree [[107], [115]] none len heap c
    (numbers granted 7 ∧ strings granted 7 ∧ names granted 7) ∧ strings refused 2 ∧
      ¬strings refused 7 := by
  intro granted refused numbers strings names
  have hnew : HiSysEventRecord.new arrays arraysText =
    some ⟨arraysText, ⟨some (.object [([107], .array [.int 1, .int 2]),
      ([115], .array [.string [97], .string [98]])])⟩⟩ := rfl
  have hgranted := (@accessors_agree_iff arrays arraysText [107] _ hnew granted).2.2.2.2
  have hstrings := fun heap =>
    (@accessors_agree_iff arrays arraysText [115] _ hnew heap).2.2.2.2.2.2.2
  have hall : ∀ n, ¬∃ i ≤ n, Alloc.always i = false := fun n ⟨i, _, hi⟩ => by cases hi
  have hdenied : SomeDenied refused.alloc [[97], [98]] := ⟨2, le_rfl, rfl⟩
  refine ⟨⟨?_, ?_, ?_⟩, ?_, ?_⟩
  · exact (hgranted.1 none 7 0 [1, 2] rfl).2 fun _ => ⟨by simp, fun _ h => by cases h⟩
  · exact ((hstrings granted).1 none 7 0 [[97], [98]] rfl (by decide) (by decide)).2 fun _ =>
      ⟨⟨by simp, fun _ h => absurd h (hall _)⟩, fun _ => rfl⟩
  · exact (hgranted.2.2.2.2 (by decide) (by decide) none 7).2
      ⟨fun h => absurd h (by decide), fun _ h => absurd h (hall _)⟩
  · exact ((hstrings refused).1 none 2 0 [[97], [98]] rfl (by decide) (by decide)).2 fun _ =>
      ⟨⟨by simp, fun _ _ => rfl⟩, fun _ => rfl⟩
  · intro h
    have hlen := (((hstrings refused).1 none 7 0 [[97], [98]] rfl (by decide) (by decide)).1 h
      rfl).1.2 (by simp) hdenied
    cases hlen

/-- The text `k : []` as an object. -/
abbrev emptyText : Bytes :=
  [123, 34, 107, 34, 58, 91, 93, 125]

/-- What jsoncpp makes of it. -/
abbrev emptyArray : JsonCpp :=
  JsonCpp.reference [(emptyText, .object [([107], .array [])])]

/-- A heap with nothing in it, where every allocation is granted. -/
abbrev emptyHeap : Heap emptyArray.Double :=
  ⟨Alloc.always, 1, fun _ => none, 0, [], fun _ _ => rfl⟩

/-- The length of an empty array is not set. -/
theorem not_accessors_agree : ∃ record c,
    HiSysEventRecord.new emptyArray emptyText = some record ∧
    record.getParamInt64s [107] [] = some (0, []) ∧
    ohHiSysEventGetParamInt64Values emptyArray (some emptyText) (some [107]) none 7 emptyHeap =
      some c ∧ ¬ArrayAgrees (HoldsBlock .int64s) (0, []) none 7 emptyHeap c := by
  refine ⟨_, (0, (none, 7), emptyHeap), rfl, rfl, rfl, fun h => ?_⟩
  cases (h.success rfl).1

end RecordC

end HiSysEvent
