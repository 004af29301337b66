import Mathlib.Algebra.Order.Ring.Int
import Mathlib.Data.Rat.Cast.Defs
import HiSysEvent.HiSysEventJsonDecorator
import HiSysEvent.JsonCpp

/-!
# The validity of attributes

The decorator compares each attribute of an event with its definition : the name of its type,
and for an array a bound on its elements. `JudgeDataType` judges the narrow integers like those
of 32 bits, and of an array only the first element is judged, which an empty one does not have.

So the verdict is that of the definition exactly for values that are `JudgedRight`
(`attrVerdict_iff`).
-/

namespace HiSysEvent

/-- The calls for 32 bits. -/
structure JsonCppInt extends JsonCpp where
  isInt : Value → Bool
  isUInt : Value → Bool
  asInt : Value → Option Int32
  asUInt : Value → Option UInt32

namespace JsonCppInt

/-- What is documented of numbers. A value that is a number has the value `number`, and a call
`isX` says whether it can be represented. An element that is not there is null. -/
structure Represents (json : JsonCppInt) (number : json.Value → Option ℚ) : Prop where
  isInt_iff : ∀ v, json.isInt v = true ↔
    ∃ n : ℤ, number v = some (n : ℚ) ∧ -2 ^ 31 ≤ n ∧ n < 2 ^ 31
  isUInt_iff : ∀ v, json.isUInt v = true ↔
    ∃ n : ℤ, number v = some (n : ℚ) ∧ 0 ≤ n ∧ n < 2 ^ 32
  isInt64_iff : ∀ v, json.isInt64 v = true ↔
    ∃ n : ℤ, number v = some (n : ℚ) ∧ -2 ^ 63 ≤ n ∧ n < 2 ^ 63
  isUInt64_iff : ∀ v, json.isUInt64 v = true ↔
    ∃ n : ℤ, number v = some (n : ℚ) ∧ 0 ≤ n ∧ n < 2 ^ 64
  isDouble_iff : ∀ v, json.isDouble v = true ↔ ∃ q, number v = some q
  asInt : ∀ v (n : ℤ), json.isInt v = true → number v = some (n : ℚ) →
    ∃ i, json.asInt v = some i ∧ i.toInt = n
  asUInt : ∀ v (n : ℤ), json.isUInt v = true → number v = some (n : ℚ) →
    ∃ i, json.asUInt v = some i ∧ (i.toNat : ℤ) = n
  asString : ∀ v, json.isString v = true → (json.asString v).isSome
  null : ∀ v, json.type v = .nullValue →
    number v = none ∧ json.isBool v = false ∧ json.isString v = false
  index : ∀ v i, (json.size v).toNat ≤ i → json.type (json.index v i) = .nullValue

end JsonCppInt

namespace AttrValidity

/-! ## The types of attributes -/

/-- The widths of the integer types. -/
inductive Width
  | w8
  | w16
  | w32
  | w64

/-- The types that `JudgeDataType` knows. -/
inductive AttrType
  | bool
  | int (width : Width)
  | uint (width : Width)
  | float
  | double
  | string

namespace Width

/-- The number of bits. -/
def bits : Width → ℕ
  | w8 => 8
  | w16 => 16
  | w32 => 32
  | w64 => 64

/-- The number of bits as text. -/
def digits : Width → Bytes
  | w8 => [56]
  | w16 => [49, 54]
  | w32 => [51, 50]
  | w64 => [54, 52]

/-- The width that is judged. -/
def widened : Width → Width
  | w64 => w64
  | _ => w32

end Width

namespace AttrType

/-- `BOOL`, `INT8` and so on. -/
def name : AttrType → Bytes
  | bool => [66, 79, 79, 76]
  | int width => [73, 78, 84] ++ width.digits
  | uint width => [85, 73, 78, 84] ++ width.digits
  | float => [70, 76, 79, 65, 84]
  | double => [68, 79, 85, 66, 76, 69]
  | string => [83, 84, 82, 73, 78, 71]

/-- The type that `checkAttrValidity` judges an integer by. -/
def widened : AttrType → AttrType
  | int width => int width.widened
  | uint width => uint width.widened
  | t => t

/-- A value is of a type. -/
def Holds (json : JsonCppInt) (number : json.Value → Option ℚ) : AttrType → json.Value → Prop
  | bool, v => json.isBool v = true ∨ number v = some 0 ∨ number v = some 1
  | int width, v => ∃ n : ℤ, number v = some (n : ℚ) ∧ -2 ^ (width.bits - 1) ≤ n ∧
    n < 2 ^ (width.bits - 1)
  | uint width, v => ∃ n : ℤ, number v = some (n : ℚ) ∧ 0 ≤ n ∧ n < 2 ^ width.bits
  | float, v => ∃ q, number v = some q
  | double, v => ∃ q, number v = some q
  | string, v => json.isString v = true

end AttrType

/-! ## The decorator -/

/-- `type`. -/
def typeKey : Bytes :=
  [116, 121, 112, 101]

/-- `arrsize`. -/
def arrSize : Bytes :=
  [97, 114, 114, 115, 105, 122, 101]

variable (json : JsonCppInt)

/-- `JudgeDataType`, by the name of the type. `none` if a conversion throws. -/
def judgeDataType (dataType : Bytes) (eventJson : json.Value) : Option Bool :=
  if dataType = AttrType.bool.name then
    if json.isBool eventJson then some true
    else if json.isInt eventJson then (json.asInt eventJson).map fun i => i == 0 || i == 1
    else some false
  else if dataType = (AttrType.int .w8).name ∨ dataType = (AttrType.int .w16).name ∨
      dataType = (AttrType.int .w32).name then some (json.isInt eventJson)
  else if dataType = (AttrType.int .w64).name then some (json.isInt64 eventJson)
  else if dataType = (AttrType.uint .w8).name ∨ dataType = (AttrType.uint .w16).name ∨
      dataType = (AttrType.uint .w32).name then some (json.isUInt eventJson)
  else if dataType = (AttrType.uint .w64).name then some (json.isUInt64 eventJson)
  else if dataType = AttrType.float.name ∨ dataType = AttrType.double.name then
    some (json.isDouble eventJson)
  else if dataType = AttrType.string.name then some (json.isString eventJson)
  else some false

/-- `none` if a conversion throws. -/
def checkAttrValidity (eventJson : json.Value) (key : Bytes) (standard : json.Value) :
    Option Validity :=
  if !json.isObject standard || !json.isMember standard key ||
      !json.isObject (json.get standard key) ||
      !json.isMember (json.get standard key) typeKey ||
      !json.isString (json.get (json.get standard key) typeKey) then some .keyInvalid
  else
    let value := json.get eventJson key
    let definition := json.get standard key
    if json.isMember definition arrSize then
      if !json.isArray value || !json.isUInt (json.get definition arrSize) then some .valueInvalid
      else do
        let bound ← json.asUInt (json.get definition arrSize)
        if json.size value > bound then return .valueInvalid
        let dataType ← json.asString (json.get definition typeKey)
        let ret ← judgeDataType json dataType (json.index value 0)
        return if ret then .kvBothValid else .valueInvalid
    else do
      let dataType ← json.asString (json.get definition typeKey)
      let ret ← judgeDataType json dataType value
      return if ret then .kvBothValid else .valueInvalid

/-- The definition of a key names a type. -/
structure Declares (standard : json.Value) (key name : Bytes) : Prop where
  isObject : json.isObject standard = true
  isMember : json.isMember standard key = true
  definition : json.isObject (json.get standard key) = true
  type : json.isMember (json.get standard key) typeKey = true
  isString : json.isString (json.get (json.get standard key) typeKey) = true
  asString : json.asString (json.get (json.get standard key) typeKey) = some name

variable {json} (number : json.Value → Option ℚ)

/-- A value is of the type with a name. -/
def ScalarConforms (name : Bytes) (v : json.Value) : Prop :=
  ∃ t : AttrType, t.name = name ∧ t.Holds json number v

/-- An array of at most as many elements as the bound says. -/
def Admissible (value bound : json.Value) : Prop :=
  json.isArray value = true ∧
    ∃ n : ℤ, number bound = some (n : ℚ) ∧ 0 ≤ n ∧ n < 2 ^ 32 ∧ ((json.size value).toNat : ℤ) ≤ n

/-- A value conforms to a definition. -/
def ValueConforms (name : Bytes) (value definition : json.Value) : Prop :=
  if json.isMember definition arrSize then Admissible number value (json.get definition arrSize) ∧
    ∀ e ∈ json.elements value, ScalarConforms number name e
  else ScalarConforms number name value

/-- The verdict is that of the definition. -/
structure AttrVerdict (eventJson : json.Value) (key : Bytes) (standard : json.Value)
    (validity : Option Validity) : Prop where
  keyInvalid : validity = some .keyInvalid ↔ ¬∃ name, Declares json standard key name
  kvBothValid : validity = some .kvBothValid ↔ ∃ name, Declares json standard key name ∧
    ValueConforms number name (json.get eventJson key) (json.get standard key)
  valueInvalid : validity = some .valueInvalid ↔ ∃ name, Declares json standard key name ∧
    ¬ValueConforms number name (json.get eventJson key) (json.get standard key)

/-- A value is in the range of its type if it is in the range that is judged, and an array that is
admissible has a first element, by which all are judged right. -/
def ValueJudgedRight (name : Bytes) (value definition : json.Value) : Prop :=
  if json.isMember definition arrSize then
    Admissible number value (json.get definition arrSize) →
      0 < (json.size value).toNat ∧ ∀ t : AttrType, t.name = name →
        t.widened.Holds json number (json.index value 0) →
          ∀ e ∈ json.elements value, t.Holds json number e
  else ∀ t : AttrType, t.name = name → t.widened.Holds json number value →
    t.Holds json number value

/-- Every type the definition declares for the attribute judges its value right. -/
def JudgedRight (eventJson : json.Value) (key : Bytes) (standard : json.Value) : Prop :=
  ∀ name, Declares json standard key name →
    ValueJudgedRight number name (json.get eventJson key) (json.get standard key)

/-! ## Judging a type -/

variable {number}

theorem Width.bits_le (width : Width) : width.bits ≤ width.widened.bits := by
  cases width <;> decide

theorem AttrType.holds_widened {t : AttrType} {v : json.Value} (h : t.Holds json number v) :
    t.widened.Holds json number v := by
  rcases t with _ | width | width | _ | _ | _
  case int =>
    obtain ⟨n, hn, hlow, hhigh⟩ := h
    have hpow : (2 : ℤ) ^ (width.bits - 1) ≤ 2 ^ (width.widened.bits - 1) :=
      pow_le_pow_right₀ (by decide) (Nat.sub_le_sub_right width.bits_le 1)
    exact ⟨n, hn, by omega, by omega⟩
  case uint =>
    obtain ⟨n, hn, hlow, hhigh⟩ := h
    have hpow : (2 : ℤ) ^ width.bits ≤ 2 ^ width.widened.bits :=
      pow_le_pow_right₀ (by decide) width.bits_le
    exact ⟨n, hn, hlow, by omega⟩
  all_goals exact h

theorem AttrType.name_injective {t t' : AttrType} (h : t.name = t'.name) : t = t' := by
  rcases t with _ | (_ | _ | _ | _) | (_ | _ | _ | _) | _ | _ | _ <;>
    rcases t' with _ | (_ | _ | _ | _) | (_ | _ | _ | _) | _ | _ | _ <;>
    first
    | rfl
    | exact absurd h (by decide)

section

variable (h : json.Represents number)

include h

theorem judgeDataType_bool (v : json.Value) : ∃ b, judgeDataType json AttrType.bool.name v =
    some b ∧ (b = true ↔ AttrType.bool.Holds json number v) := by
  rw [judgeDataType, if_pos rfl]
  by_cases hbool : json.isBool v = true
  · exact ⟨true, if_pos hbool, iff_of_true rfl (Or.inl hbool)⟩
  · rw [if_neg hbool]
    by_cases hint : json.isInt v = true
    · obtain ⟨n, hn, -⟩ := (h.isInt_iff v).1 hint
      obtain ⟨i, hi, hval⟩ := h.asInt v n hint hn
      refine ⟨i == 0 || i == 1, by rw [if_pos hint, hi, Option.map_some], ?_⟩
      rw [AttrType.Holds, or_iff_right hbool, hn, Bool.or_eq_true, beq_iff_eq, beq_iff_eq,
        ← Int32.toInt_inj, ← Int32.toInt_inj, hval]
      simp only [Option.some.injEq, Int32.toInt_zero, Int32.toInt_one]
      norm_cast
    · refine ⟨false, if_neg hint, iff_of_false Bool.false_ne_true ?_⟩
      rw [h.isInt_iff] at hint
      rintro (hb | h0 | h1)
      · exact hbool hb
      · exact hint ⟨0, by rw [h0, Int.cast_zero], by decide, by decide⟩
      · exact hint ⟨1, by rw [h1, Int.cast_one], by decide, by decide⟩

/-- The type is judged by the widened one. -/
theorem judgeDataType_name (t : AttrType) (v : json.Value) : ∃ b, judgeDataType json t.name v =
    some b ∧ (b = true ↔ t.widened.Holds json number v) := by
  rcases t with _ | (_ | _ | _ | _) | (_ | _ | _ | _) | _ | _ | _
  case bool => exact judgeDataType_bool h v
  case int.w8 | int.w16 | int.w32 => exact ⟨json.isInt v, rfl, h.isInt_iff v⟩
  case int.w64 => exact ⟨json.isInt64 v, rfl, h.isInt64_iff v⟩
  case uint.w8 | uint.w16 | uint.w32 => exact ⟨json.isUInt v, rfl, h.isUInt_iff v⟩
  case uint.w64 => exact ⟨json.isUInt64 v, rfl, h.isUInt64_iff v⟩
  case float | double => exact ⟨json.isDouble v, rfl, h.isDouble_iff v⟩
  case string => exact ⟨json.isString v, rfl, Iff.rfl⟩

omit h in
theorem judgeDataType_other {dataType : Bytes} (hname : ∀ t : AttrType, t.name ≠ dataType)
    (v : json.Value) : judgeDataType json dataType v = some false := by
  have hne : ∀ t : AttrType, dataType ≠ t.name := fun t => (hname t).symm
  simp only [judgeDataType, hne, or_self, if_false]

theorem judgeDataType_spec (dataType : Bytes) (v : json.Value) :
    ∃ b, judgeDataType json dataType v = some b ∧
      (b = true ↔ ∃ t : AttrType, t.name = dataType ∧ t.widened.Holds json number v) := by
  by_cases hname : ∃ t : AttrType, t.name = dataType
  · obtain ⟨t, rfl⟩ := hname
    obtain ⟨b, hb, hiff⟩ := judgeDataType_name h t v
    refine ⟨b, hb, hiff.trans ⟨fun ht => ⟨t, rfl, ht⟩, ?_⟩⟩
    rintro ⟨t', hname, ht'⟩
    rwa [← AttrType.name_injective hname]
  · have hne : ∀ t : AttrType, t.name ≠ dataType := fun t ht => hname ⟨t, ht⟩
    refine ⟨false, judgeDataType_other hne v, iff_of_false Bool.false_ne_true ?_⟩
    rintro ⟨t, ht, -⟩
    exact hne t ht

/-! ## The verdict -/

/-- An admissible array passes the checks of the decorator. -/
theorem admissible_iff (value bound : json.Value) : Admissible number value bound ↔
    json.isArray value = true ∧ json.isUInt bound = true ∧
      ∃ i, json.asUInt bound = some i ∧ ¬json.size value > i := by
  have hsize : ∀ i : UInt32, ¬json.size value > i ↔ (json.size value).toNat ≤ i.toNat := fun i => by
    rw [gt_iff_lt, UInt32.lt_iff_toNat_lt, not_lt]
  constructor
  · rintro ⟨harray, n, hn, h0, hlt, hle⟩
    have huint := (h.isUInt_iff bound).2 ⟨n, hn, h0, hlt⟩
    obtain ⟨i, hi, hval⟩ := h.asUInt bound n huint hn
    exact ⟨harray, huint, i, hi, (hsize i).2 (by omega)⟩
  · rintro ⟨harray, huint, i, hi, hle⟩
    obtain ⟨n, hn, h0, hlt⟩ := (h.isUInt_iff bound).1 huint
    obtain ⟨i', hi', hval⟩ := h.asUInt bound n huint hn
    obtain rfl : i = i' := Option.some.inj (hi.symm.trans hi')
    have hle' := (hsize i).1 hle
    exact ⟨harray, n, hn, h0, hlt, by omega⟩

variable (eventJson : json.Value) (key : Bytes) (standard : json.Value)

/-- The verdict of a declared type. -/
theorem checkAttrValidity_declared {name : Bytes} (hname : Declares json standard key name) :
    ∃ b, checkAttrValidity json eventJson key standard =
        some (if b = true then .kvBothValid else .valueInvalid) ∧
      (b = true ↔
        if json.isMember (json.get standard key) arrSize then
          Admissible number (json.get eventJson key) (json.get (json.get standard key) arrSize) ∧
            ∃ t : AttrType, t.name = name ∧
              t.widened.Holds json number (json.index (json.get eventJson key) 0)
        else ∃ t : AttrType, t.name = name ∧
          t.widened.Holds json number (json.get eventJson key)) := by
  have hguard : (!json.isObject standard || !json.isMember standard key ||
      !json.isObject (json.get standard key) || !json.isMember (json.get standard key) typeKey ||
      !json.isString (json.get (json.get standard key) typeKey)) = false := by
    rw [hname.isObject, hname.isMember, hname.definition, hname.type, hname.isString]
    rfl
  rw [checkAttrValidity, hguard, if_neg Bool.false_ne_true]
  dsimp only
  by_cases harr : json.isMember (json.get standard key) arrSize = true
  · rw [if_pos harr, if_pos harr, admissible_iff h]
    by_cases hchecks : json.isArray (json.get eventJson key) = true ∧
        json.isUInt (json.get (json.get standard key) arrSize) = true
    · obtain ⟨harray, huint⟩ := hchecks
      obtain ⟨n, hn, -⟩ := (h.isUInt_iff _).1 huint
      obtain ⟨i, hi, -⟩ := h.asUInt _ n huint hn
      simp only [harray, huint, hi, Bool.not_true, Bool.or_self, Bool.false_eq_true, if_false,
        Option.bind_eq_bind, Option.bind_some, true_and, Option.some.injEq, exists_eq_left']
      split_ifs with hsize
      · exact ⟨false, rfl, iff_of_false Bool.false_ne_true fun hand => hand.1 hsize⟩
      · obtain ⟨b, hb, hiff⟩ := judgeDataType_spec h name (json.index (json.get eventJson key) 0)
        refine ⟨b, by rw [hname.asString, Option.bind_some, hb]; rfl, hiff.trans ?_⟩
        exact ⟨fun ht => ⟨hsize, ht⟩, fun ht => ht.2⟩
    · have hfails := not_and_or.1 hchecks
      rw [if_pos (by simpa only [Bool.or_eq_true, Bool.not_eq_true', Bool.not_eq_true] using hfails)]
      exact ⟨false, rfl, iff_of_false Bool.false_ne_true fun hand =>
        hchecks ⟨hand.1.1, hand.1.2.1⟩⟩
  · rw [if_neg harr, if_neg harr, hname.asString]
    obtain ⟨b, hb, hiff⟩ := judgeDataType_spec h name (json.get eventJson key)
    exact ⟨b, by rw [Option.bind_eq_bind, Option.bind_some, hb]; rfl, hiff⟩

omit h in
/-- The first of the elements. -/
theorem index_zero_mem {value : json.Value} (hsize : 0 < (json.size value).toNat) :
    json.index value 0 ∈ json.elements value :=
  List.mem_map.2 ⟨0, List.mem_range.2 hsize, rfl⟩

/-- An element that is not there is of no type. -/
theorem not_holds_null {v : json.Value} (hnull : json.type v = .nullValue) (t : AttrType) :
    ¬t.Holds json number v := by
  obtain ⟨hnumber, hbool, hstring⟩ := h.null v hnull
  rcases t with _ | width | width | _ | _ | _
  case bool =>
    rintro (hb | h0 | h1)
    · exact absurd (hbool.symm.trans hb) Bool.false_ne_true
    · exact nomatch hnumber.symm.trans h0
    · exact nomatch hnumber.symm.trans h1
  case int | uint =>
    rintro ⟨n, hn, -⟩
    exact nomatch hnumber.symm.trans hn
  case float | double =>
    rintro ⟨q, hq⟩
    exact nomatch hnumber.symm.trans hq
  case string => exact fun hs => absurd (hstring.symm.trans hs) Bool.false_ne_true

/-- The judgement of a value agrees with its definition if and only if it is judged right. -/
theorem valueJudgedRight_iff (name : Bytes) (value definition : json.Value) :
    ((if json.isMember definition arrSize then
        Admissible number value (json.get definition arrSize) ∧
          ∃ t : AttrType, t.name = name ∧ t.widened.Holds json number (json.index value 0)
      else ∃ t : AttrType, t.name = name ∧ t.widened.Holds json number value) ↔
        ValueConforms number name value definition) ↔
      ValueJudgedRight number name value definition := by
  rw [ValueConforms, ValueJudgedRight]
  by_cases harr : json.isMember definition arrSize = true
  · rw [if_pos harr, if_pos harr, if_pos harr, and_congr_right_iff]
    refine imp_congr_right fun _ => ?_
    constructor
    · intro hiff
      have hpos : 0 < (json.size value).toNat := by
        by_contra hzero
        -- every element of none conforms, but there is no first one to be judged
        have hnone : json.elements value = [] := by
          rw [JsonCpp.elements, Nat.eq_zero_of_not_pos hzero]
          rfl
        obtain ⟨t, -, ht⟩ := hiff.2 fun e he => absurd (hnone ▸ he) List.not_mem_nil
        exact not_holds_null h (h.index value 0 (Nat.le_of_not_lt hzero)) t.widened ht
      refine ⟨hpos, fun t ht hw e he => ?_⟩
      obtain ⟨t', ht', hholds⟩ := hiff.1 ⟨t, ht, hw⟩ e he
      rwa [AttrType.name_injective (ht.trans ht'.symm)]
    · rintro ⟨hpos, hall⟩
      constructor
      · rintro ⟨t, ht, hw⟩ e he
        exact ⟨t, ht, hall t ht hw e he⟩
      · intro hconforms
        obtain ⟨t, ht, hholds⟩ := hconforms _ (index_zero_mem hpos)
        exact ⟨t, ht, AttrType.holds_widened hholds⟩
  · rw [if_neg harr, if_neg harr, if_neg harr]
    constructor
    · intro hiff t ht hw
      obtain ⟨t', ht', hholds⟩ := hiff.1 ⟨t, ht, hw⟩
      rwa [AttrType.name_injective (ht.trans ht'.symm)]
    · intro hall
      constructor
      · rintro ⟨t, ht, hw⟩
        exact ⟨t, ht, hall t ht hw⟩
      · rintro ⟨t, ht, hholds⟩
        exact ⟨t, ht, AttrType.holds_widened hholds⟩

/-- Without a declared type the key is invalid. -/
theorem checkAttrValidity_undeclared (hname : ¬∃ name, Declares json standard key name) :
    checkAttrValidity json eventJson key standard = some .keyInvalid := by
  rw [checkAttrValidity]
  refine if_pos ?_
  by_contra hpass
  simp only [Bool.or_eq_true, Bool.not_eq_true', not_or, Bool.not_eq_false] at hpass
  obtain ⟨⟨⟨⟨hobject, hmember⟩, hdefinition⟩, htype⟩, hstring⟩ := hpass
  obtain ⟨name, hasString⟩ := Option.isSome_iff_exists.1 (h.asString _ hstring)
  exact hname ⟨name, hobject, hmember, hdefinition, htype, hstring, hasString⟩

omit h in
theorem declares_unique {name name' : Bytes} (hname : Declares json standard key name)
    (hname' : Declares json standard key name') : name = name' :=
  Option.some.inj (hname.asString.symm.trans hname'.asString)

omit h in
/-- Under a declared type, the verdict says whether the value conforms. -/
theorem attrVerdict_declared_iff {name : Bytes} (hname : Declares json standard key name)
    (b : Bool) :
    AttrVerdict number eventJson key standard
        (some (if b = true then .kvBothValid else .valueInvalid)) ↔
      (b = true ↔
        ValueConforms number name (json.get eventJson key) (json.get standard key)) := by
  have hunique : ∀ P : Bytes → Prop, (∃ n, Declares json standard key n ∧ P n) ↔ P name :=
    fun P => ⟨fun ⟨n, hn, hp⟩ => declares_unique key standard hn hname ▸ hp,
      fun hp => ⟨name, hname, hp⟩⟩
  have hconforms := hunique fun n =>
    ValueConforms number n (json.get eventJson key) (json.get standard key)
  have hfails := hunique fun n =>
    ¬ValueConforms number n (json.get eventJson key) (json.get standard key)
  constructor
  · intro hverdict
    have hvalid := hverdict.kvBothValid
    rw [hconforms] at hvalid
    rw [← hvalid]
    cases b <;> simp
  · intro hb
    refine ⟨iff_of_false ?_ fun hnone => hnone ⟨name, hname⟩, ?_, ?_⟩
    · cases b <;> simp
    · rw [hconforms, ← hb]
      cases b <;> simp
    · rw [hfails, ← hb]
      cases b <;> simp

/-- The verdict on an attribute is that of its definition if and only if it is judged right. -/
theorem attrVerdict_iff : AttrVerdict number eventJson key standard
    (checkAttrValidity json eventJson key standard) ↔
      JudgedRight number eventJson key standard := by
  by_cases hdeclared : ∃ name, Declares json standard key name
  · obtain ⟨name, hname⟩ := hdeclared
    have hright : JudgedRight number eventJson key standard ↔ ValueJudgedRight number name
        (json.get eventJson key) (json.get standard key) :=
      ⟨fun hj => hj name hname, fun hj n hn => declares_unique key standard hn hname ▸ hj⟩
    obtain ⟨b, hb, hiff⟩ := checkAttrValidity_declared h eventJson key standard hname
    rw [hright, ← valueJudgedRight_iff h, ← hiff, hb]
    exact attrVerdict_declared_iff eventJson key standard hname b
  · rw [checkAttrValidity_undeclared h eventJson key standard hdeclared]
    refine iff_of_true ⟨iff_of_true rfl hdeclared, ?_, ?_⟩ fun n hn => absurd ⟨n, hn⟩ hdeclared
    · exact iff_of_false (by decide) fun ⟨n, hn, _⟩ => hdeclared ⟨n, hn⟩
    · exact iff_of_false (by decide) fun ⟨n, hn, _⟩ => hdeclared ⟨n, hn⟩

end

/-! ## A reference -/

open JsonCpp

/-- The value of a number of the reference. -/
def referenceNumber : Reference → Option ℚ
  | .int n => some n.toInt
  | _ => none

/-- The reference with the calls for 32 bits. An array holds as many elements as its size says. -/
def referenceInt : JsonCppInt where
  toJsonCpp := { JsonCpp.reference [] with
    index := fun v i => if i < (UInt32.ofNat v.size).toNat then v.index i else .null }
  isInt
    | .int n => -2 ^ 31 ≤ n.toInt && n.toInt < 2 ^ 31
    | _ => false
  isUInt
    | .int n => 0 ≤ n.toInt && n.toInt < 2 ^ 32
    | _ => false
  asInt
    | .int n => some (Int32.ofInt n.toInt)
    | _ => none
  asUInt
    | .int n => some (UInt32.ofNat n.toInt.toNat)
    | _ => none

theorem referenceNumber_iff {v : Reference} {n : ℤ} :
    referenceNumber v = some (n : ℚ) ↔ ∃ m : Int64, v = .int m ∧ m.toInt = n := by
  rcases v with _ | b | m | s | items | members
  case int => simp [referenceNumber]
  all_goals simp [referenceNumber]

/-- A call that looks at the value of a number. -/
theorem reference_isX_iff (isX : Reference → Bool) {lo hi : ℤ}
    (hint : ∀ m : Int64, isX (.int m) = true ↔ lo ≤ m.toInt ∧ m.toInt < hi)
    (hother : ∀ v, isX v = true → ∃ m, v = .int m) (v : Reference) :
    isX v = true ↔ ∃ n : ℤ, referenceNumber v = some (n : ℚ) ∧ lo ≤ n ∧ n < hi := by
  constructor
  · intro hv
    obtain ⟨m, rfl⟩ := hother v hv
    exact ⟨m.toInt, rfl, (hint m).1 hv⟩
  · rintro ⟨n, hn, hrange⟩
    obtain ⟨m, rfl, rfl⟩ := referenceNumber_iff.1 hn
    exact (hint m).2 hrange

theorem represents_referenceInt : referenceInt.Represents referenceNumber where
  isInt_iff := reference_isX_iff referenceInt.isInt (fun m => by
    simp [referenceInt]) fun v hv => by
      cases v <;> simp_all [referenceInt]
  isUInt_iff := reference_isX_iff referenceInt.isUInt (fun m => by
    simp [referenceInt]) fun v hv => by
      cases v <;> simp_all [referenceInt]
  isInt64_iff := reference_isX_iff referenceInt.isInt64 (fun m => by
    have hlow := m.le_toInt
    have hhigh := m.toInt_lt
    simp only [referenceInt, reference, Reference.type, decide_true, true_iff]
    exact ⟨hlow, hhigh⟩) fun v hv => by
      cases v <;> simp_all [referenceInt, reference, Reference.type]
  isUInt64_iff := reference_isX_iff referenceInt.isUInt64 (fun m => by
    have hhigh := m.toInt_lt
    simp only [referenceInt, reference, Reference.isUInt64, decide_eq_true_eq,
      Int64.le_iff_toInt_le, Int64.toInt_zero]
    omega) fun v hv => by
      cases v <;> simp_all [referenceInt, reference, Reference.isUInt64]
  isDouble_iff v := by
    cases v <;> simp [referenceInt, reference, Reference.type, referenceNumber]
  asInt v n hv hn := by
    obtain ⟨m, rfl, rfl⟩ := referenceNumber_iff.1 hn
    have hrange : -2 ^ 31 ≤ m.toInt ∧ m.toInt < 2 ^ 31 := by simpa [referenceInt] using hv
    exact ⟨_, rfl, Int32.toInt_ofInt_of_le hrange.1 hrange.2⟩
  asUInt v n hv hn := by
    obtain ⟨m, rfl, rfl⟩ := referenceNumber_iff.1 hn
    have hrange : 0 ≤ m.toInt ∧ m.toInt < 2 ^ 32 := by simpa [referenceInt] using hv
    have hsize : m.toInt.toNat < UInt32.size := by
      have hval : UInt32.size = 2 ^ 32 := rfl
      omega
    refine ⟨_, rfl, ?_⟩
    rw [UInt32.toNat_ofNat_of_lt' hsize, Int.toNat_of_nonneg hrange.1]
  asString v hv := by
    cases v <;> simp_all [referenceInt, reference, Reference.type, Reference.asString]
  null v hv := by
    cases v <;> simp_all [referenceInt, reference, Reference.type, referenceNumber]
  index v i hi := by
    have hindex : referenceInt.index v i = Reference.null := if_neg (not_lt.2 hi)
    rw [hindex]
    rfl

/-- An event with one attribute, and its definition by a type and a bound on its elements. -/
def eventOf (value : Reference) : Reference :=
  .object [([65], value)]

/-- A definition of the attribute `A`, with a bound of its array if there is one. -/
def standardOf (t : AttrType) (bound : Option Int64) : Reference :=
  .object [([65], .object ((typeKey, .string t.name) ::
    (bound.map fun n => (arrSize, Reference.int n)).toList))]

theorem attrVerdict_iff_array :
    @AttrVerdict referenceInt referenceNumber (eventOf (.array [.int 1, .int 2])) [65]
        (standardOf (.int .w32) (some 3))
        (checkAttrValidity referenceInt (eventOf (.array [.int 1, .int 2])) [65]
          (standardOf (.int .w32) (some 3))) ↔
      @JudgedRight referenceInt referenceNumber (eventOf (.array [.int 1, .int 2])) [65]
        (standardOf (.int .w32) (some 3)) :=
  attrVerdict_iff represents_referenceInt _ _ _

/-- 300 passes as an `INT8`, and an array passes by its first element, or fails for want of it. -/
theorem not_attrVerdict :
    checkAttrValidity referenceInt (eventOf (.int 300)) [65] (standardOf (.int .w8) none) =
      some .kvBothValid ∧
    checkAttrValidity referenceInt (eventOf (.array [.int 1, .string []])) [65]
      (standardOf (.int .w32) (some 3)) = some .kvBothValid ∧
    checkAttrValidity referenceInt (eventOf (.array [])) [65] (standardOf (.int .w32) (some 3)) =
      some .valueInvalid ∧
    ¬∀ (eventJson : Reference) (key : Bytes) (standard : Reference),
      @AttrVerdict referenceInt referenceNumber eventJson key standard
        (checkAttrValidity referenceInt eventJson key standard) := by
  refine ⟨rfl, rfl, rfl, fun h => ?_⟩
  obtain ⟨name, hname, t, ht, hholds⟩ :=
    (h (eventOf (.int 300)) [65] (standardOf (.int .w8) none)).kvBothValid.1 rfl
  have heq : (AttrType.int .w8).name = name := Option.some.inj hname.asString
  obtain rfl : t = .int .w8 := AttrType.name_injective (ht.trans heq.symm)
  obtain ⟨n, hn, -, hlt⟩ := hholds
  obtain ⟨m, hm, rfl⟩ := referenceNumber_iff.1 hn
  obtain rfl : (300 : Int64) = m := Reference.int.inj hm
  exact absurd hlt (by decide)

end AttrValidity

end HiSysEvent
