import Mathlib.Data.Rat.Floor
import HiSysEvent.Def

/-!
# Numeric arrays of a script

The numbers of an array are stored as one vector, of unsigned or signed integers or of
doubles. Which one is decided on the way : an element is parsed by what the elements before it
were, and all are cast to the type of the vector at the end.

A negative number behind a fraction is parsed as an unsigned one, and of big integers a negative
one makes the others signed. So the elements are kept exactly if there is no such order of
numbers (`appendNumberArrayData_iff`), and no such pair of big integers
(`appendBigIntArrayData_iff`).
-/

namespace HiSysEvent

/-- Elements of an array, or what cannot be read. -/
inductive JsValue
  | number (val : ℚ)
  | bigint (val : ℤ)
  | other

/-- The casts between doubles and integers, and the two calls for big integers with their flag
for a lossless conversion. -/
structure Platform where
  toInt64 : ℚ → Int64
  toUInt64 : ℚ → UInt64
  ofInt64 : Int64 → ℚ
  ofUInt64 : UInt64 → ℚ
  getBigintInt64 : ℤ → Int64 × Bool
  getBigintUInt64 : ℤ → UInt64 × Bool

namespace Platform

/-- The value without its fraction. -/
def trunc (q : ℚ) : ℤ :=
  if 0 ≤ q then ⌊q⌋ else ⌈q⌉

/-- What is documented. A cast of a number outside the target type has some value of the type. -/
structure Documented (c : Platform) : Prop where
  toInt64 : ∀ q, -2 ^ 63 ≤ trunc q → trunc q < 2 ^ 63 → (c.toInt64 q).toInt = trunc q
  toUInt64 : ∀ q, 0 ≤ trunc q → trunc q < 2 ^ 64 → ((c.toUInt64 q).toNat : ℤ) = trunc q
  ofInt64 : ∀ n, |n.toInt| ≤ 2 ^ 53 → c.ofInt64 n = n.toInt
  ofUInt64 : ∀ n, n.toNat ≤ 2 ^ 53 → c.ofUInt64 n = n.toNat
  ofUInt64_nonneg : ∀ n, 0 ≤ c.ofUInt64 n
  getBigintInt64 : ∀ n, -2 ^ 63 ≤ n → n < 2 ^ 63 → (c.getBigintInt64 n).1.toInt = n
  getBigintUInt64 : ∀ n, (c.getBigintUInt64 n).2 = true ↔ 0 ≤ n ∧ n < 2 ^ 64
  getBigintUInt64_eq : ∀ n, 0 ≤ n → n < 2 ^ 64 → ((c.getBigintUInt64 n).1.toNat : ℤ) = n

end Platform

/-! ## Parsing an array -/

/-- The variant an array's element is parsed to. -/
inductive ParsedItem
  | u64 (val : UInt64)
  | i64 (val : Int64)
  | double (val : ℚ)

/-- What the array is going to be appended as. -/
inductive ArrayParseStatus
  | asU64Arr
  | asI64Arr
  | asDoubleArr
  deriving DecidableEq

/-- The vectors that are stored. -/
inductive ParamArray
  | u64s (vals : List UInt64)
  | i64s (vals : List Int64)
  | doubles (vals : List ℚ)
  deriving DecidableEq

/-- `HiSysEventInfo::params`. -/
abbrev EventParams := Bytes → Option ParamArray

/-- The status and the elements parsed so far. -/
structure ArrayParse where
  pStatus : ArrayParseStatus
  parsedArray : List ParsedItem

variable (c : Platform)

/-- `IsFloatingNumber`: the cast to an integer and back moves the value. -/
def isFloatingNumber (originalVal : ℚ) : Bool :=
  let i64Val := c.toInt64 originalVal
  let i64ToDVal := c.ofInt64 i64Val
  |i64ToDVal - originalVal| > 1 / 10 ^ 9

/-- `static_cast<uint64_t>` of an item. -/
def castUInt64 : ParsedItem → UInt64
  | .u64 val => val
  | .i64 val => val.toUInt64
  | .double val => c.toUInt64 val

/-- The element in an `int64_t` array. -/
def castInt64 : ParsedItem → Int64
  | .u64 val => val.toInt64
  | .i64 val => val
  | .double val => c.toInt64 val

/-- The element in a `double` array. -/
def castDouble : ParsedItem → ℚ
  | .u64 val => c.ofUInt64 val
  | .i64 val => c.ofInt64 val
  | .double val => val

/-- `AppendParamsToEventInfo`, with the type of the vector. -/
def appendParamsToEventInfo (type : ArrayParseStatus) (src : List ParsedItem)
    (params : EventParams) (key : Bytes) : EventParams :=
  let dest : ParamArray :=
    match type with
    | .asU64Arr => .u64s (src.map (castUInt64 c))
    | .asI64Arr => .i64s (src.map (castInt64 c))
    | .asDoubleArr => .doubles (src.map (castDouble c))
  Function.update params key (some dest)

/-- A round of the loop over numbers. Elements of another type are left out. -/
def numberStep (s : ArrayParse) : JsValue → ArrayParse
  | .number parsedVal =>
    if isFloatingNumber c parsedVal then
      ⟨.asDoubleArr, s.parsedArray ++ [.double parsedVal]⟩
    else if parsedVal < 0 ∧ s.pStatus ≠ .asDoubleArr then
      ⟨.asI64Arr, s.parsedArray ++ [.i64 (c.toInt64 parsedVal)]⟩
    else ⟨s.pStatus, s.parsedArray ++ [.u64 (c.toUInt64 parsedVal)]⟩
  | _ => s

/-- `AppendNumberArrayData`: parse every element, then append as the last status says. -/
def appendNumberArrayData (params : EventParams) (key : Bytes) (array : List JsValue) :
    EventParams :=
  let s := array.foldl (numberStep c) ⟨.asU64Arr, []⟩
  appendParamsToEventInfo c s.pStatus s.parsedArray params key

/-- A round of the loop over big integers. -/
def bigIntStep (s : ArrayParse) : JsValue → ArrayParse
  | .bigint val =>
    let u64Ret := c.getBigintUInt64 val
    if u64Ret.2 then ⟨s.pStatus, s.parsedArray ++ [.u64 u64Ret.1]⟩
    else
      let i64Ret := c.getBigintInt64 val
      ⟨.asI64Arr, s.parsedArray ++ [.i64 i64Ret.1]⟩
  | _ => s

/-- `AppendBigIntArrayData`: unsigned unless an element is negative. -/
def appendBigIntArrayData (params : EventParams) (key : Bytes) (array : List JsValue) :
    EventParams :=
  let s := array.foldl (bigIntStep c) ⟨.asU64Arr, []⟩
  if s.pStatus = .asI64Arr then
    appendParamsToEventInfo c .asI64Arr s.parsedArray params key
  else appendParamsToEventInfo c .asU64Arr s.parsedArray params key

/-! ## Numbers -/

/-- A number of a script that is an integer or clear of all integers. -/
structure JsNumber where
  val : ℚ
  small : |val| < 2 ^ 53
  apart : (∃ n : ℤ, val = n) ∨ ∀ n : ℤ, 1 / 10 ^ 9 < |val - n|

/-- A big integer that fits a signed or an unsigned integer. -/
structure JsBigInt where
  val : ℤ
  low : -2 ^ 63 ≤ val
  high : val < 2 ^ 64

/-- Not an integer. -/
def IsFraction (q : ℚ) : Prop :=
  ∀ n : ℤ, q ≠ n

/-- A negative integer. -/
def JsNumber.IsNegInt (q : JsNumber) : Prop :=
  q.val < 0 ∧ ¬IsFraction q.val

/-- The elements of a vector. -/
def ParamArray.values : ParamArray → List ℚ
  | u64s vals => vals.map fun val => (val.toNat : ℚ)
  | i64s vals => vals.map fun val => (val.toInt : ℚ)
  | doubles vals => vals

/-- The elements are stored as they are. -/
def StoredAs (params : EventParams) (key : Bytes) (vals : List ℚ) : Prop :=
  ∃ stored, params key = some stored ∧ stored.values = vals

/-- No negative integer is behind a fraction. -/
def InOrder (nums : List JsNumber) : Prop :=
  nums.Pairwise fun a b => IsFraction a.val → ¬b.IsNegInt

/-- A negative big integer, and one that is no signed integer. -/
def MixedSigns (bigs : List JsBigInt) : Prop :=
  (∃ a ∈ bigs, a.val < 0) ∧ ∃ b ∈ bigs, 2 ^ 63 ≤ b.val

namespace Platform

theorem trunc_intCast (n : ℤ) : trunc n = n := by
  rw [trunc, Int.floor_intCast, Int.ceil_intCast, ite_self]

theorem abs_trunc_le {q : ℚ} (h : |q| < 2 ^ 53) : |trunc q| ≤ 2 ^ 53 := by
  obtain ⟨hlow, hhigh⟩ := abs_lt.1 h
  rw [trunc, abs_le]
  split_ifs with hq
  · have hfloor : (⌊q⌋ : ℚ) ≤ q := Int.floor_le q
    have hpos : 0 ≤ ⌊q⌋ := Int.floor_nonneg.2 hq
    have hle : ⌊q⌋ ≤ 2 ^ 53 := by
      exact_mod_cast (hfloor.trans hhigh.le)
    exact ⟨by omega, hle⟩
  · have hceil : q ≤ (⌈q⌉ : ℚ) := Int.le_ceil q
    have hneg : ⌈q⌉ ≤ 0 := Int.ceil_le.2 (by exact_mod_cast (not_le.1 hq).le)
    have hge : -2 ^ 53 ≤ ⌈q⌉ := by
      exact_mod_cast (hlow.le.trans hceil)
    exact ⟨hge, by omega⟩

end Platform

namespace JsNumber

open Platform

variable {c : Platform} (h : c.Documented) (q : JsNumber)

theorem eq_intCast (hq : ¬IsFraction q.val) : ∃ n : ℤ, q.val = n ∧ |n| < 2 ^ 53 := by
  rw [IsFraction] at hq
  push Not at hq
  obtain ⟨n, hn⟩ := hq
  have hsmall := q.small
  rw [hn] at hsmall
  exact ⟨n, hn, by exact_mod_cast hsmall⟩

include h

theorem isFloatingNumber_iff : isFloatingNumber c q.val = true ↔ IsFraction q.val := by
  have htrunc := abs_trunc_le q.small
  have hrange := abs_le.1 htrunc
  have hcast : (c.toInt64 q.val).toInt = trunc q.val := h.toInt64 _ (by omega) (by omega)
  have hback : c.ofInt64 (c.toInt64 q.val) = (trunc q.val : ℚ) := by
    rw [h.ofInt64 _ (by rw [hcast]; exact htrunc), hcast]
  simp only [isFloatingNumber, hback, decide_eq_true_eq]
  constructor
  · rintro hfar n hn
    rw [hn, trunc_intCast, sub_self, abs_zero] at hfar
    exact absurd hfar (by norm_num)
  · intro hfraction
    rcases q.apart with ⟨n, hn⟩ | hapart
    · exact absurd hn (hfraction n)
    · rw [abs_sub_comm]
      exact hapart (trunc q.val)

end JsNumber

/-! ## The parse of numbers -/

/-- How a number is parsed behind others. -/
def parseNumber (status : ArrayParseStatus) (val : ℚ) : ArrayParseStatus × ParsedItem :=
  if isFloatingNumber c val then (.asDoubleArr, .double val)
  else if val < 0 ∧ status ≠ .asDoubleArr then (.asI64Arr, .i64 (c.toInt64 val))
  else (status, .u64 (c.toUInt64 val))

/-- The elements parsed one after the other, with the status they leave. -/
def parseNumbers : ArrayParseStatus → List ℚ → ArrayParseStatus × List ParsedItem
  | status, [] => (status, [])
  | status, val :: vals =>
    ((parseNumbers (parseNumber c status val).1 vals).1,
      (parseNumber c status val).2 :: (parseNumbers (parseNumber c status val).1 vals).2)

theorem foldl_numberStep : ∀ (vals : List ℚ) (s : ArrayParse),
    (vals.map JsValue.number).foldl (numberStep c) s =
      ⟨(parseNumbers c s.pStatus vals).1, s.parsedArray ++ (parseNumbers c s.pStatus vals).2⟩
  | [], s => by
    rw [parseNumbers, List.append_nil]
    rfl
  | val :: vals, s => by
    have hstep : numberStep c s (.number val) = ⟨(parseNumber c s.pStatus val).1,
        s.parsedArray ++ [(parseNumber c s.pStatus val).2]⟩ := by
      rw [numberStep, parseNumber]
      split_ifs
      all_goals rfl
    rw [List.map_cons, List.foldl_cons, hstep, foldl_numberStep vals, parseNumbers]
    simp only [List.append_assoc, List.singleton_append]

namespace JsNumber

open Platform

variable {c} (h : c.Documented) (q : JsNumber) (status : ArrayParseStatus)

include h

theorem parseNumber_fraction (hq : IsFraction q.val) :
    parseNumber c status q.val = (.asDoubleArr, .double q.val) :=
  if_pos ((isFloatingNumber_iff h q).2 hq)

theorem parseNumber_negInt (hq : q.IsNegInt) (hstatus : status ≠ .asDoubleArr) :
    ∃ v : Int64, parseNumber c status q.val = (.asI64Arr, .i64 v) ∧ (v.toInt : ℚ) = q.val ∧
      |v.toInt| ≤ 2 ^ 53 := by
  obtain ⟨n, hn, hsmall⟩ := q.eq_intCast hq.2
  have hrange := abs_lt.1 hsmall
  have hcast := h.toInt64 q.val
  rw [hn, trunc_intCast] at hcast
  have hv := hcast (by omega) (by omega)
  refine ⟨c.toInt64 q.val, ?_, by rw [hn, hv], by rw [hn, hv]; exact hsmall.le⟩
  rw [parseNumber, if_neg (mt (isFloatingNumber_iff h q).1 hq.2), if_pos ⟨hq.1, hstatus⟩]

theorem parseNumber_lost (hq : q.IsNegInt) :
    parseNumber c .asDoubleArr q.val = (.asDoubleArr, .u64 (c.toUInt64 q.val)) := by
  rw [parseNumber, if_neg (mt (isFloatingNumber_iff h q).1 hq.2), if_neg fun hand => hand.2 rfl]

theorem parseNumber_nonneg (hq : ¬IsFraction q.val) (hpos : ¬q.IsNegInt) :
    ∃ v : UInt64, parseNumber c status q.val = (status, .u64 v) ∧ (v.toNat : ℚ) = q.val ∧
      v.toNat ≤ 2 ^ 53 := by
  obtain ⟨n, hn, hsmall⟩ := q.eq_intCast hq
  have hnonneg : ¬q.val < 0 := fun hlt => hpos ⟨hlt, hq⟩
  have hn0 : 0 ≤ n := by
    rw [hn] at hnonneg
    exact_mod_cast not_lt.1 hnonneg
  have hrange := abs_lt.1 hsmall
  have hcast := h.toUInt64 q.val
  rw [hn, trunc_intCast] at hcast
  have hv := hcast (by omega) (by omega)
  refine ⟨c.toUInt64 q.val, ?_, ?_, by rw [hn]; omega⟩
  · rw [parseNumber, if_neg (mt (isFloatingNumber_iff h q).1 hq), if_neg fun hand =>
      hnonneg hand.1]
  · rw [hn]
    exact_mod_cast hv

/-- In a vector of doubles a number is kept, unless it is a negative integer behind a fraction. -/
theorem castDouble_parseNumber : castDouble c (parseNumber c status q.val).2 = q.val ↔
    (status = .asDoubleArr → ¬q.IsNegInt) := by
  by_cases hfraction : IsFraction q.val
  · rw [q.parseNumber_fraction h status hfraction]
    exact iff_of_true rfl fun _ hneg => hneg.2 hfraction
  · by_cases hneg : q.IsNegInt
    · by_cases hstatus : status = .asDoubleArr
      · rw [hstatus, q.parseNumber_lost h hneg]
        refine iff_of_false (fun heq => ?_) fun hnot => hnot rfl hneg
        exact absurd hneg.1 (not_lt.2 (heq ▸ h.ofUInt64_nonneg (c.toUInt64 q.val)))
      · obtain ⟨v, hv, hval, hle⟩ := q.parseNumber_negInt h status hneg hstatus
        rw [hv]
        exact iff_of_true ((h.ofInt64 v hle).trans hval) fun hd => absurd hd hstatus
    · obtain ⟨v, hv, hval, hle⟩ := q.parseNumber_nonneg h status hfraction hneg
      rw [hv]
      exact iff_of_true ((h.ofUInt64 v hle).trans hval) fun _ => hneg

theorem parseNumber_status : (parseNumber c status q.val).1 = .asDoubleArr ↔
    status = .asDoubleArr ∨ IsFraction q.val := by
  by_cases hfraction : IsFraction q.val
  · rw [q.parseNumber_fraction h status hfraction]
    exact iff_of_true rfl (Or.inr hfraction)
  · rw [or_iff_left hfraction]
    by_cases hneg : q.IsNegInt
    · by_cases hstatus : status = .asDoubleArr
      · rw [hstatus, q.parseNumber_lost h hneg]
      · obtain ⟨v, hv, -⟩ := q.parseNumber_negInt h status hneg hstatus
        rw [hv]
        exact iff_of_false (fun heq => nomatch heq) hstatus
    · obtain ⟨v, hv, -⟩ := q.parseNumber_nonneg h status hfraction hneg
      rw [hv]

end JsNumber

/-! ## What is stored of numbers -/

variable {c}

theorem storedAs_append_iff {type : ArrayParseStatus} {src : List ParsedItem}
    {params : EventParams} {key : Bytes} {vals : List ℚ} :
    StoredAs (appendParamsToEventInfo c type src params key) key vals ↔
      (match type with
        | .asU64Arr => src.map fun item => ((castUInt64 c item).toNat : ℚ)
        | .asI64Arr => src.map fun item => ((castInt64 c item).toInt : ℚ)
        | .asDoubleArr => src.map (castDouble c)) = vals := by
  simp only [StoredAs, appendParamsToEventInfo, Function.update_self, Option.some.injEq,
    exists_eq_left']
  cases type
  case asU64Arr =>
    rw [ParamArray.values, List.map_map]
    rfl
  case asI64Arr =>
    rw [ParamArray.values, List.map_map]
    rfl
  case asDoubleArr => rfl

theorem toInt_toInt64 {v : UInt64} (hv : v.toNat < 2 ^ 63) : v.toInt64.toInt = v.toNat :=
  BitVec.toInt_eq_toNat_of_lt (by rw [UInt64.toBitVec_toInt64]; have := v.toNat_toBitVec; omega)

section

variable (h : c.Documented)

include h

theorem castDouble_parseNumbers : ∀ (nums : List JsNumber) (status : ArrayParseStatus),
    (parseNumbers c status (nums.map JsNumber.val)).2.map (castDouble c) =
        nums.map JsNumber.val ↔
      (status = .asDoubleArr → ∀ q ∈ nums, ¬q.IsNegInt) ∧ InOrder nums
  | [], status => iff_of_true rfl ⟨fun _ q hq => absurd hq List.not_mem_nil, List.Pairwise.nil⟩
  | q :: nums, status => by
    have ih := castDouble_parseNumbers nums (parseNumber c status q.val).1
    rw [q.parseNumber_status h] at ih
    rw [List.map_cons, parseNumbers, List.map_cons, List.cons.injEq, ih,
      q.castDouble_parseNumber h, InOrder, InOrder, List.pairwise_cons, List.forall_mem_cons]
    constructor
    · rintro ⟨hq, hnums, horder⟩
      exact ⟨fun hd => ⟨hq hd, hnums (Or.inl hd)⟩, fun b hb hf => hnums (Or.inr hf) b hb, horder⟩
    · rintro ⟨hd, hf, horder⟩
      refine ⟨fun hs => (hd hs).1, ?_, horder⟩
      rintro (hs | hfraction) b hb
      · exact (hd hs).2 b hb
      · exact hf b hb hfraction

theorem parseNumbers_status : ∀ (nums : List JsNumber) (status : ArrayParseStatus),
    (parseNumbers c status (nums.map JsNumber.val)).1 = .asDoubleArr ↔
      status = .asDoubleArr ∨ ∃ q ∈ nums, IsFraction q.val
  | [], status => by simp [parseNumbers]
  | q :: nums, status => by
    rw [List.map_cons, parseNumbers, parseNumbers_status nums, q.parseNumber_status h, or_assoc]
    simp only [List.mem_cons, exists_eq_or_imp]

/-- Without a fraction, in a vector of signed integers every number is kept. -/
theorem castInt64_parseNumbers : ∀ (nums : List JsNumber) (status : ArrayParseStatus),
    status ≠ .asDoubleArr → (∀ q ∈ nums, ¬IsFraction q.val) →
    ((parseNumbers c status (nums.map JsNumber.val)).2.map fun item =>
      ((castInt64 c item).toInt : ℚ)) = nums.map JsNumber.val
  | [], _, _, _ => rfl
  | q :: nums, status, hstatus, hnums => by
    have hq := hnums q List.mem_cons_self
    have hnext : (parseNumber c status q.val).1 ≠ .asDoubleArr := fun heq =>
      ((q.parseNumber_status h status).1 heq).elim hstatus hq
    have ih := castInt64_parseNumbers nums _ hnext fun r hr =>
      hnums r (List.mem_cons_of_mem _ hr)
    rw [List.map_cons, parseNumbers, List.map_cons, ih]
    refine congrArg (· :: nums.map JsNumber.val) ?_
    by_cases hneg : q.IsNegInt
    · obtain ⟨v, hv, hval, -⟩ := q.parseNumber_negInt h status hneg hstatus
      rw [hv]
      exact hval
    · obtain ⟨v, hv, hval, hle⟩ := q.parseNumber_nonneg h status hq hneg
      rw [hv, ← hval]
      rw [castInt64, toInt_toInt64 (by omega), Int.cast_natCast]

/-- If the numbers are stored as unsigned integers, all are. -/
theorem castUInt64_parseNumbers : ∀ (nums : List JsNumber) (status : ArrayParseStatus),
    (parseNumbers c status (nums.map JsNumber.val)).1 = .asU64Arr →
    status = .asU64Arr ∧ ((parseNumbers c status (nums.map JsNumber.val)).2.map fun item =>
      ((castUInt64 c item).toNat : ℚ)) = nums.map JsNumber.val
  | [], _, hfinal => ⟨hfinal, rfl⟩
  | q :: nums, status, hfinal => by
    rw [List.map_cons, parseNumbers] at hfinal
    obtain ⟨hnext, ih⟩ := castUInt64_parseNumbers nums _ hfinal
    rw [List.map_cons, parseNumbers, List.map_cons, ih]
    by_cases hfraction : IsFraction q.val
    · rw [q.parseNumber_fraction h status hfraction] at hnext
      exact nomatch hnext
    · by_cases hneg : q.IsNegInt
      · by_cases hstatus : status = .asDoubleArr
        · rw [hstatus, q.parseNumber_lost h hneg] at hnext
          exact nomatch hnext
        · obtain ⟨v, hv, -⟩ := q.parseNumber_negInt h status hneg hstatus
          rw [hv] at hnext
          exact nomatch hnext
      · obtain ⟨v, hv, hval, -⟩ := q.parseNumber_nonneg h status hfraction hneg
        rw [hv] at hnext ⊢
        exact ⟨hnext, congrArg (· :: nums.map JsNumber.val) hval⟩

/-- Numbers are stored as they are if and only if no negative integer is behind a fraction. -/
theorem appendNumberArrayData_iff (params : EventParams) (key : Bytes) (nums : List JsNumber) :
    StoredAs (appendNumberArrayData c params key (nums.map fun q => .number q.val)) key
      (nums.map JsNumber.val) ↔ InOrder nums := by
  have harray : (nums.map fun q => JsValue.number q.val) =
      (nums.map JsNumber.val).map JsValue.number := by
    rw [List.map_map]
    rfl
  rw [appendNumberArrayData, harray, foldl_numberStep, List.nil_append, storedAs_append_iff]
  have hdouble := parseNumbers_status h nums .asU64Arr
  rw [or_iff_right (by decide)] at hdouble
  by_cases hfraction : ∃ q ∈ nums, IsFraction q.val
  · rw [hdouble.2 hfraction]
    refine (castDouble_parseNumbers h nums .asU64Arr).trans (and_iff_right ?_)
    exact fun heq => nomatch heq
  · push Not at hfraction
    have horder : InOrder nums :=
      List.pairwise_of_forall_mem_list fun q hq _ _ hf => absurd hf (hfraction q hq)
    refine iff_of_true ?_ horder
    cases hfinal : (parseNumbers c .asU64Arr (nums.map JsNumber.val)).1
    case asU64Arr => exact (castUInt64_parseNumbers h nums .asU64Arr hfinal).2
    case asI64Arr => exact castInt64_parseNumbers h nums .asU64Arr (by decide) hfraction
    case asDoubleArr =>
      obtain ⟨q, hq, hf⟩ := hdouble.1 hfinal
      exact absurd hf (hfraction q hq)

end

/-! ## Big integers -/

/-- The item of a big integer. -/
def parseBigInt (c : Platform) (val : ℤ) : ParsedItem :=
  if (c.getBigintUInt64 val).2 then .u64 (c.getBigintUInt64 val).1
  else .i64 (c.getBigintInt64 val).1

theorem foldl_bigIntStep : ∀ (vals : List ℤ) (s : ArrayParse),
    (vals.map JsValue.bigint).foldl (bigIntStep c) s =
      ⟨if ∀ val ∈ vals, (c.getBigintUInt64 val).2 then s.pStatus else .asI64Arr,
        s.parsedArray ++ vals.map (parseBigInt c)⟩
  | [], s => by
    rw [if_pos fun _ hval => absurd hval List.not_mem_nil, List.map_nil, List.map_nil,
      List.append_nil]
    rfl
  | val :: vals, s => by
    rw [List.map_cons, List.foldl_cons, foldl_bigIntStep vals, List.map_cons, parseBigInt,
      bigIntStep]
    simp only [List.forall_mem_cons]
    by_cases hval : (c.getBigintUInt64 val).2 = true
    · simp only [hval, if_true, true_and, List.append_assoc, List.singleton_append]
    · simp only [hval, if_false, false_and, ite_self, List.append_assoc, List.singleton_append,
        Bool.false_eq_true]

namespace JsBigInt

variable (h : c.Documented) (b : JsBigInt)

include h

theorem lossless_iff : (c.getBigintUInt64 b.val).2 = true ↔ 0 ≤ b.val :=
  (h.getBigintUInt64 b.val).trans (and_iff_left b.high)

theorem parseBigInt_nonneg (hb : 0 ≤ b.val) :
    ∃ v : UInt64, parseBigInt c b.val = .u64 v ∧ (v.toNat : ℤ) = b.val :=
  ⟨_, if_pos ((b.lossless_iff h).2 hb), h.getBigintUInt64_eq b.val hb b.high⟩

theorem parseBigInt_neg (hb : b.val < 0) :
    ∃ v : Int64, parseBigInt c b.val = .i64 v ∧ v.toInt = b.val :=
  ⟨_, if_neg (mt (b.lossless_iff h).1 (not_le.2 hb)),
    h.getBigintInt64 b.val b.low (hb.trans (by norm_num))⟩

theorem castUInt64_parseBigInt (hb : 0 ≤ b.val) :
    ((castUInt64 c (parseBigInt c b.val)).toNat : ℤ) = b.val := by
  obtain ⟨v, hv, hval⟩ := b.parseBigInt_nonneg h hb
  rw [hv]
  exact hval

/-- In a vector of signed integers a big integer is kept if and only if it is a signed one. -/
theorem castInt64_parseBigInt :
    (castInt64 c (parseBigInt c b.val)).toInt = b.val ↔ b.val < 2 ^ 63 := by
  by_cases hb : 0 ≤ b.val
  · obtain ⟨v, hv, hval⟩ := b.parseBigInt_nonneg h hb
    rw [hv, castInt64]
    constructor
    · intro heq
      rw [← heq]
      exact v.toInt64.toInt_lt
    · intro hlt
      rw [toInt_toInt64 (by omega), hval]
  · obtain ⟨v, hv, hval⟩ := b.parseBigInt_neg h (not_le.1 hb)
    rw [hv]
    exact iff_of_true hval (by omega)

end JsBigInt

/-- Big integers are stored as they are if and only if no negative one is beside one that is no
signed integer. -/
theorem appendBigIntArrayData_iff (h : c.Documented) (params : EventParams) (key : Bytes)
    (bigs : List JsBigInt) :
    StoredAs (appendBigIntArrayData c params key (bigs.map fun b => .bigint b.val)) key
      (bigs.map fun b => (b.val : ℚ)) ↔ ¬MixedSigns bigs := by
  have harray : (bigs.map fun b => JsValue.bigint b.val) =
      (bigs.map JsBigInt.val).map JsValue.bigint := by
    rw [List.map_map]
    rfl
  have hflag : (∀ val ∈ bigs.map JsBigInt.val, (c.getBigintUInt64 val).2 = true) ↔
      ∀ b ∈ bigs, 0 ≤ b.val := by
    rw [List.forall_mem_map]
    exact forall₂_congr fun b _ => b.lossless_iff h
  rw [appendBigIntArrayData, harray, foldl_bigIntStep, List.nil_append, List.map_map]
  by_cases hneg : ∀ b ∈ bigs, 0 ≤ b.val
  · have hmixed : ¬MixedSigns bigs := fun ⟨⟨a, ha, hlt⟩, _⟩ => absurd hlt (not_lt.2 (hneg a ha))
    refine iff_of_true ?_ hmixed
    rw [if_pos (hflag.2 hneg), if_neg ArrayParseStatus.noConfusion, storedAs_append_iff]
    simp only [List.map_map]
    refine List.map_congr_left fun b hb => ?_
    have hkept := b.castUInt64_parseBigInt h (hneg b hb)
    simp only [Function.comp_apply]
    exact_mod_cast hkept
  · rw [if_neg (mt hflag.1 hneg), if_pos rfl, storedAs_append_iff]
    simp only [List.map_map, List.map_inj_left]
    push Not at hneg
    rw [MixedSigns, and_iff_right hneg]
    push Not
    refine forall₂_congr fun b _ => ?_
    rw [← b.castInt64_parseBigInt h]
    exact Int.cast_inj

/-- Numbers are stored as they are if and only if no negative integer is behind a fraction, and
big integers if and only if no negative one is beside one that is no signed integer. -/
theorem numericArrays_iff (h : c.Documented) (params : EventParams) (key : Bytes) :
    (∀ nums : List JsNumber,
      StoredAs (appendNumberArrayData c params key (nums.map fun q => .number q.val)) key
        (nums.map JsNumber.val) ↔ InOrder nums) ∧
    ∀ bigs : List JsBigInt,
      (StoredAs (appendBigIntArrayData c params key (bigs.map fun b => .bigint b.val)) key
          (bigs.map fun b => (b.val : ℚ)) ∨
        appendBigIntArrayData c params key (bigs.map fun b => .bigint b.val) key = none) ↔
      ¬MixedSigns bigs := by
  refine ⟨appendNumberArrayData_iff h params key, fun bigs => ?_⟩
  rw [← appendBigIntArrayData_iff h params key, or_iff_left]
  rw [appendBigIntArrayData]
  split_ifs
  all_goals
    rw [appendParamsToEventInfo, Function.update_self]
    exact Option.some_ne_none _

/-! ## Casts that saturate -/

/-- The casts of AArch64. -/
def saturating : Platform where
  toInt64 q := .ofInt (max (-2 ^ 63) (min (Platform.trunc q) (2 ^ 63 - 1)))
  toUInt64 q := .ofNat (min (Platform.trunc q).toNat (2 ^ 64 - 1))
  ofInt64 n := n.toInt
  ofUInt64 n := n.toNat
  getBigintInt64 n := (.ofInt n, -2 ^ 63 ≤ n ∧ n < 2 ^ 63)
  getBigintUInt64 n := (.ofNat (n % 2 ^ 64).toNat, 0 ≤ n ∧ n < 2 ^ 64)

theorem saturating_documented : saturating.Documented where
  toInt64 q hlow hhigh := by
    simp only [saturating]
    rw [min_eq_left (by omega), max_eq_right hlow]
    exact Int64.toInt_ofInt_of_le hlow hhigh
  toUInt64 q hlow hhigh := by
    simp only [saturating]
    have hsize : (Platform.trunc q).toNat < UInt64.size := (Int.toNat_lt hlow).2 hhigh
    rw [min_eq_left (by omega), UInt64.toNat_ofNat_of_lt' hsize]
    exact Int.toNat_of_nonneg hlow
  ofInt64 _ _ := rfl
  ofUInt64 _ _ := rfl
  ofUInt64_nonneg n := Nat.cast_nonneg _
  getBigintInt64 n hlow hhigh := Int64.toInt_ofInt_of_le hlow hhigh
  getBigintUInt64 _ := decide_eq_true_iff
  getBigintUInt64_eq n hlow hhigh := by
    simp only [saturating]
    have hsize : n.toNat < UInt64.size := (Int.toNat_lt hlow).2 hhigh
    rw [Int.emod_eq_of_lt hlow hhigh, UInt64.toNat_ofNat_of_lt' hsize]
    exact Int.toNat_of_nonneg hlow

/-- An integer of less than 53 bits as a number of the script. -/
def JsNumber.ofInt (n : ℤ) (hn : |n| < 2 ^ 53) : JsNumber :=
  ⟨n, by exact_mod_cast hn, Or.inl ⟨n, rfl⟩⟩

/-- One half. -/
def JsNumber.half : JsNumber where
  val := 1 / 2
  small := by norm_num
  apart := Or.inr fun n => by
    rcases le_or_gt n 0 with hn | hn
    · have hcast : (n : ℚ) ≤ 0 := by exact_mod_cast hn
      exact lt_abs.2 (Or.inl (by linarith))
    · have hcast : (1 : ℚ) ≤ n := by exact_mod_cast hn
      exact lt_abs.2 (Or.inr (by linarith))

theorem numericArrays_kept :
    StoredAs (appendNumberArrayData saturating (fun _ => none) []
      [.number (-1), .number (1 / 2), .number 3]) [] [-1, 1 / 2, 3] ∧
    StoredAs (appendBigIntArrayData saturating (fun _ => none) [] [.bigint (-1), .bigint 5]) []
      [-1, 5] := by
  obtain ⟨hnums, hbigs⟩ := numericArrays_iff saturating_documented (fun _ => none) []
  constructor
  · have hkept := (hnums [.ofInt (-1) (by norm_num), .half, .ofInt 3 (by norm_num)]).2 ?_
    · simpa [JsNumber.ofInt, JsNumber.half] using hkept
    · have hhalf : ¬JsNumber.half.IsNegInt := fun hlt =>
        absurd hlt.1 (by norm_num [JsNumber.half])
      have hthree : ¬(JsNumber.ofInt 3 (by norm_num)).IsNegInt := fun hlt =>
        absurd hlt.1 (by norm_num [JsNumber.ofInt])
      simp [InOrder, hhalf, hthree]
  · have hmixed : ¬MixedSigns [⟨-1, by norm_num, by norm_num⟩, ⟨5, by norm_num, by norm_num⟩] := by
      rintro ⟨-, b, hb, hle⟩
      simp only [List.mem_cons, List.not_mem_nil, or_false] at hb
      rcases hb with rfl | rfl
      all_goals exact absurd hle (by norm_num)
    rcases (hbigs _).2 hmixed with hkept | hnone
    · simpa using hkept
    · exact absurd hnone (by decide +kernel)

/-- `[0.5, -1]` is stored as `[0.5, 0]`, and `[-1, 9223372036854775808]` with the second number
negative. -/
theorem numericArrays_lost :
    saturating.Documented ∧
    ¬StoredAs (appendNumberArrayData saturating (fun _ => none) []
      ([.half, .ofInt (-1) (by decide)].map fun q : JsNumber => .number q.val)) []
      ([.half, .ofInt (-1) (by decide)].map JsNumber.val) ∧
    ¬(StoredAs (appendBigIntArrayData saturating (fun _ => none) []
        [.bigint (-1), .bigint 9223372036854775808]) [] [-1, 9223372036854775808] ∨
      appendBigIntArrayData saturating (fun _ => none) []
        [.bigint (-1), .bigint 9223372036854775808] [] = none) := by
  have hnums : appendNumberArrayData saturating (fun _ => none) []
      ([.half, .ofInt (-1) (by decide)].map fun q : JsNumber => .number q.val) [] =
      some (.doubles [1 / 2, 0]) := by decide +kernel
  have hbigs : appendBigIntArrayData saturating (fun _ => none) []
      [.bigint (-1), .bigint 9223372036854775808] [] =
      some (.i64s [-1, -9223372036854775808]) := by decide +kernel
  refine ⟨saturating_documented, ?_, ?_⟩
  · rintro ⟨stored, hstored, hvals⟩
    rw [hnums, Option.some.injEq] at hstored
    rw [← hstored] at hvals
    exact absurd hvals (by decide +kernel)
  · rintro (⟨stored, hstored, hvals⟩ | hnone)
    · rw [hbigs, Option.some.injEq] at hstored
      rw [← hstored] at hvals
      exact absurd hvals (by decide +kernel)
    · exact absurd (hbigs.symm.trans hnone) (Option.some_ne_none _)

end HiSysEvent
