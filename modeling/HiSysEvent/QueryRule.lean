import HiSysEvent.DomainMask
import HiSysEvent.RustWrapper

/-!
# Query rules built from Rust

The Rust `query` joins the names of the events of a rule with `'|'` into a zeroed array of 339
bytes, and `SplitStringToArray` splits this again into the ten entries of the C rule. It
leaves out slices that are empty or longer than an entry, and puts the others over what the entries
held before, without a NUL (`splitStringToArray_eq`).

The number of names is bounded by the bytes of the array, not by the entries, so a rule with more
than ten names is handed over with a size beyond them. A rule is well formed exactly if it has
at most ten names, and what the array held before terminates each string
(`rustQuery_wellFormed_iff`). On zeroed entries, up to ten names that fit with their NUL come back
from the split (`splitStringToArray_intercalate`).
-/

namespace HiSysEvent

open Wire

abbrev maxLengthOfEventDomain : ℕ := 17
abbrev maxLengthOfEventName : ℕ := 33
abbrev maxNumberOfEventList : ℕ := 10
abbrev maxEventListLen : ℕ := 339

/-! ## The rules -/

/-- `QueryRule` of `lib.rs`. -/
structure QueryRule where
  domain : Bytes
  eventList : List Bytes
  condition : Bytes

/-- What is passed over the border. The condition is an address : its string is dropped before the
call. -/
structure HiSysEventQueryRuleWrapper where
  domain : CharArray maxLengthOfEventDomain
  eventList : CharArray maxEventListLen
  eventListSize : UInt32
  condition : Option ℕ

/-- The entries of a rule. -/
abbrev EventList := Fin maxNumberOfEventList → CharArray maxLengthOfEventName

/-- `HiSysEventQueryRule`, with the C strings in arrays of fixed length. -/
structure HiSysEventQueryRule where
  domain : CharArray maxLengthOfEventDomain
  eventList : EventList
  eventListSize : ℕ
  condition : Option ℕ

/-- The turn of the loop of `query` for a rule, whose condition is put at an address. -/
def QueryRule.wrap (rule : QueryRule) (addr : ℕ) : Option HiSysEventQueryRuleWrapper := do
  let _ ← cStringNew rule.condition
  let domain ← transSliceToArray rule.domain (CharArray.zero maxLengthOfEventDomain)
  let srcLen := rule.eventList.length
  let destLen := maxEventListLen
  let totalCnt := if srcLen ≤ destLen then srcLen else destLen
  let srcStr := [bar].intercalate rule.eventList
  let eventList ← transSliceToArray srcStr (CharArray.zero maxEventListLen)
  return ⟨domain, eventList, UInt32.ofNat totalCnt, some addr⟩

/-- The wrappers that `query` passes on. -/
def rustQuery (addr : ℕ → ℕ) (queryRules : List QueryRule) :
    Option (List HiSysEventQueryRuleWrapper) :=
  queryRules.zipIdx.mapM fun rule => rule.1.wrap (addr rule.2)

/-! ## The split -/

/-- `memcpy_s` to an entry. There is nothing but the entries to write to. -/
def EventList.copyItem (dest : EventList) (index : ℕ) (slice : Bytes) : Option EventList :=
  if h : index < maxNumberOfEventList then
    ((dest ⟨index, h⟩).copyFrom slice).map (Function.update dest ⟨index, h⟩)
  else none

/-- The variables of `SplitStringToArray`. -/
structure SplitState where
  dest : EventList
  curPos : ℕ
  destItemIndex : ℕ
  sliceBegin : ℤ
  sliceEnd : ℤ

/-- The `cpyLen` bytes from `sliceBegin` on. -/
def sliceOf (src : Bytes) (sliceBegin cpyLen : ℤ) : Bytes :=
  (src.drop sliceBegin.toNat).take cpyLen.toNat

/-- The loop, over the bytes from `curPos` on. -/
def splitLoop (src : Bytes) (destSize : ℕ) : Bytes → SplitState → Option SplitState
  | [], s => some s
  | c :: rest, s =>
    if c = 0 then some s
    else if c ≠ bar then splitLoop src destSize rest { s with curPos := s.curPos + 1 }
    else
      let sliceEnd : ℤ := s.curPos - 1
      let cpyLen := sliceEnd - s.sliceBegin + 1
      if cpyLen ≤ 0 ∨ cpyLen > maxLengthOfEventName then
        splitLoop src destSize rest
          { s with curPos := s.curPos + 1, sliceBegin := s.curPos + 1, sliceEnd := sliceEnd }
      else
        match s.dest.copyItem s.destItemIndex (sliceOf src s.sliceBegin cpyLen) with
        | none => none
        | some dest =>
          let next : SplitState :=
            ⟨dest, s.curPos + 1, s.destItemIndex + 1, s.curPos + 1, sliceEnd⟩
          if next.destItemIndex ≥ destSize then some next
          else splitLoop src destSize rest next

/-- The last slice, behind the loop. -/
def splitLast (src : Bytes) (destSize : ℕ) (s : SplitState) : Option EventList :=
  let sliceEnd := if src[s.curPos]?.getD 0 = 0 then (s.curPos : ℤ) - 1 else s.sliceEnd
  let cpyLen := sliceEnd - s.sliceBegin + 1
  if cpyLen ≤ 0 ∨ cpyLen > maxLengthOfEventName ∨ s.destItemIndex ≥ destSize then some s.dest
  else s.dest.copyItem s.destItemIndex (sliceOf src s.sliceBegin cpyLen)

/-- `StringUtil::SplitStringToArray`: the loop, then what stands behind the last delimiter. -/
def splitStringToArray (src : Bytes) (srcMaxLen : ℕ) (dest : EventList) (destSize : ℕ) :
    Option EventList :=
  let src := src.take srcMaxLen
  (splitLoop src destSize src ⟨dest, 0, 0, 0, 1⟩).bind (splitLast src destSize)

/-! ## The conversion -/

/-- What `ConvertQueryRuleWrapper` makes of an element of the array on the stack. -/
def convertQueryRule (wrapper : HiSysEventQueryRuleWrapper) (dest : HiSysEventQueryRule) :
    Option HiSysEventQueryRule :=
  (splitStringToArray wrapper.eventList.1 maxEventListLen dest.eventList
    wrapper.eventListSize.toNat).map fun eventList =>
      ⟨dest.domain.copyName wrapper.domain, eventList, wrapper.eventListSize.toNat,
        wrapper.condition⟩

/-- `ConvertQueryRuleWrapper`: every rule in turn. -/
def convertQueryRuleWrapper (src : List HiSysEventQueryRuleWrapper)
    (dest : List HiSysEventQueryRule) : Option (List HiSysEventQueryRule) :=
  (src.zip dest).mapM fun rule => convertQueryRule rule.1 rule.2

/-- The rules handed to `OhHiSysEventRustQuery`. The array `rules[ruleSize]` lies over `prior`. -/
def hiSysEventQueryWrapper (prior : ℕ → HiSysEventQueryRule)
    (queryRules : List HiSysEventQueryRuleWrapper) (ruleSize : UInt32) :
    Option (List HiSysEventQueryRule) :=
  convertQueryRuleWrapper queryRules ((List.range ruleSize.toNat).map prior)

/-! ## What the split does -/

/-- The slices that fit an entry. -/
def eventSlices (src : Bytes) : List Bytes :=
  (src.splitOn bar).filter fun slice => 1 ≤ slice.length ∧ slice.length ≤ maxLengthOfEventName

/-- The entries with the slices put over them, one by one. -/
def EventList.overlay (dest : EventList) (slices : List Bytes) : EventList := fun k =>
  match slices[k.1]? with
  | none => dest k
  | some slice => (dest k).copySlice slice

/-- A slice that fits is put over the next entry. -/
theorem copyItem_overlay {dest : EventList} {slices : List Bytes} {slice : Bytes}
    (hlength : slice.length ≤ maxLengthOfEventName)
    (hindex : slices.length < maxNumberOfEventList) :
    (dest.overlay slices).copyItem slices.length slice =
      some (dest.overlay (slices ++ [slice])) := by
  have hentry : dest.overlay slices ⟨slices.length, hindex⟩ = dest ⟨slices.length, hindex⟩ := by
    simp [EventList.overlay]
  rw [EventList.copyItem, dif_pos hindex, hentry, CharArray.copyFrom, dif_pos hlength]
  refine congrArg some (funext fun k => ?_)
  by_cases hk : k = ⟨slices.length, hindex⟩
  · subst hk
    simp [EventList.overlay, CharArray.copySlice, hlength]
  · have hne : k.1 ≠ slices.length := fun h => hk (Fin.ext h)
    have hget : (slices ++ [slice])[k.1]? = slices[k.1]? := by
      rw [List.getElem?_append]
      split
      case isTrue => rfl
      case isFalse hlt =>
        rw [List.getElem?_eq_none (by rw [List.length_singleton]; omega),
          List.getElem?_eq_none (by omega)]
    rw [Function.update_of_ne hk, EventList.overlay, EventList.overlay, hget]

/-- The variables in the middle of a slice `cur` that begins behind `pre`. -/
def splitAt (dest : EventList) (slices : List Bytes) (pre cur : Bytes) (sliceEnd : ℤ) :
    SplitState :=
  ⟨dest.overlay slices, pre.length + cur.length, slices.length, pre.length, sliceEnd⟩

theorem sliceOf_middle (pre cur rest : Bytes) :
    sliceOf (pre ++ (cur ++ rest)) pre.length cur.length = cur := by
  simp [sliceOf]

theorem cpyLen_eq (pre cur : Bytes) :
    ((pre.length + cur.length : ℕ) : ℤ) - 1 - (pre.length : ℤ) + 1 = cur.length := by
  push_cast
  ring

theorem eventSlices_of_not_mem {cur : Bytes} (h : bar ∉ cur) : eventSlices cur =
    if 1 ≤ cur.length ∧ cur.length ≤ maxLengthOfEventName then [cur] else [] := by
  rw [eventSlices, List.splitOn_eq_singleton h, List.filter_singleton]
  simp

theorem eventSlices_append {cur : Bytes} (h : bar ∉ cur) (rest : Bytes) :
    eventSlices (cur ++ bar :: rest) = eventSlices cur ++ eventSlices rest := by
  rw [eventSlices, List.splitOn_append_cons_self_of_not_mem h, eventSlices_of_not_mem h,
    List.filter_cons, eventSlices]
  simp only [decide_eq_true_eq]
  split <;> rfl

variable {dest : EventList} {slices : List Bytes} {src pre cur : Bytes} {destSize : ℕ}

/-- The last slice, at the end of the string. -/
theorem splitLast_eq {rest : Bytes} {sliceEnd : ℤ} (hsrc : src = pre ++ (cur ++ rest))
    (hrest : rest[0]?.getD 0 = 0) (hbar : bar ∉ cur) (hindex : slices.length < destSize)
    (hsize : destSize ≤ maxNumberOfEventList) :
    splitLast src destSize (splitAt dest slices pre cur sliceEnd) =
      some (dest.overlay ((slices ++ eventSlices cur).take destSize)) := by
  have hget : src[pre.length + cur.length]? = rest[0]? := by
    rw [hsrc, List.getElem?_append_right (Nat.le_add_right _ _),
      List.getElem?_append_right (by omega)]
    congr 1
    omega
  simp only [splitLast, splitAt, hget, hrest, if_true, cpyLen_eq]
  rw [eventSlices_of_not_mem hbar, hsrc, sliceOf_middle]
  by_cases hfits : 1 ≤ cur.length ∧ cur.length ≤ maxLengthOfEventName
  · rw [if_neg (by omega), if_pos hfits, copyItem_overlay hfits.2 (hindex.trans_le hsize),
      List.take_of_length_le (by rw [List.length_append, List.length_singleton]; omega)]
  · rw [if_pos (by omega), if_neg hfits, List.append_nil, List.take_of_length_le hindex.le]

/-- Behind a delimiter the next slice begins. -/
theorem splitAt_bar (slices : List Bytes) (pre cur : Bytes) :
    (⟨dest.overlay slices, pre.length + cur.length + 1, slices.length,
      ((pre.length + cur.length : ℕ) : ℤ) + 1,
      ((pre.length + cur.length : ℕ) : ℤ) - 1⟩ : SplitState) =
    splitAt dest slices (pre ++ (cur ++ [bar])) []
      (((pre.length + cur.length : ℕ) : ℤ) - 1) := by
  simp only [splitAt, List.length_append, List.length_singleton, List.length_nil]
  push_cast
  simp [add_assoc]

/-- The loop and what is behind it, from the middle of a slice on. -/
theorem splitLoop_eq (hsize : destSize ≤ maxNumberOfEventList) : ∀ (rest : Bytes)
    (slices : List Bytes) (pre cur : Bytes) (sliceEnd : ℤ), src = pre ++ (cur ++ rest) →
    bar ∉ cur → slices.length < destSize →
    (splitLoop src destSize rest (splitAt dest slices pre cur sliceEnd)).bind
      (splitLast src destSize) =
      some (dest.overlay ((slices ++ eventSlices (cur ++ cString rest)).take destSize))
  | [], slices, pre, cur, sliceEnd, hsrc, hbar, hindex => by
    have hcur : cur ++ cString [] = cur := by simp [cString]
    rw [hcur]
    exact splitLast_eq hsrc rfl hbar hindex hsize
  | c :: rest, slices, pre, cur, sliceEnd, hsrc, hbar, hindex => by
    rw [splitLoop]
    by_cases hnul : c = 0
    · have hcur : cur ++ cString (c :: rest) = cur := by simp [cString, hnul]
      rw [if_pos hnul, hcur]
      exact splitLast_eq hsrc (by simp [hnul]) hbar hindex hsize
    · have hcons : cString (c :: rest) = c :: cString rest := by simp [cString, hnul]
      rw [if_neg hnul, hcons]
      by_cases hc : c = bar
      · subst hc
        rw [if_neg (not_not.2 rfl), eventSlices_append hbar]
        have hnext : src = (pre ++ (cur ++ [bar])) ++ ([] ++ rest) := by
          rw [hsrc]
          simp
        simp only [splitAt, cpyLen_eq, hsrc, sliceOf_middle]
        rw [← hsrc, eventSlices_of_not_mem hbar]
        by_cases hfits : 1 ≤ cur.length ∧ cur.length ≤ maxLengthOfEventName
        · have hlength : (slices ++ [cur]).length = slices.length + 1 := by simp
          rw [if_neg (by omega), if_pos hfits,
            copyItem_overlay hfits.2 (hindex.trans_le hsize)]
          dsimp only
          by_cases hlast : slices.length + 1 ≥ destSize
          · have htake : (slices ++ ([cur] ++ eventSlices (cString rest))).take destSize =
                slices ++ [cur] := by
              rw [← List.append_assoc, List.take_left' (by rw [hlength]; omega)]
            rw [if_pos hlast, htake, Option.bind_some, splitLast]
            dsimp only
            rw [if_pos (Or.inr (Or.inr hlast))]
          · have ih := splitLoop_eq hsize rest (slices ++ [cur]) _ []
              (((pre.length + cur.length : ℕ) : ℤ) - 1) hnext List.not_mem_nil (by omega)
            rw [if_neg hlast, ← hlength, splitAt_bar, ih]
            simp
        · have ih := splitLoop_eq hsize rest slices _ []
            (((pre.length + cur.length : ℕ) : ℤ) - 1) hnext List.not_mem_nil hindex
          rw [if_pos (by omega), if_neg hfits, splitAt_bar, ih]
          simp
      · have hnext : src = pre ++ ((cur ++ [c]) ++ rest) := by
          rw [hsrc]
          simp
        have hmem : bar ∉ cur ++ [c] := by simpa [hbar] using Ne.symm hc
        have ih := splitLoop_eq hsize rest slices pre (cur ++ [c]) sliceEnd hnext hmem hindex
        rw [if_pos hc]
        simpa [splitAt, add_assoc] using ih

/-- The first slices that fit are put over the entries. -/
theorem splitStringToArray_eq {srcMaxLen : ℕ} (hsize : destSize ≤ maxNumberOfEventList)
    (hsrc : cString (src.take srcMaxLen) ≠ [] → 0 < destSize) :
    splitStringToArray src srcMaxLen dest destSize =
      some (dest.overlay ((eventSlices (cString (src.take srcMaxLen))).take destSize)) := by
  rw [splitStringToArray]
  generalize src.take srcMaxLen = src at *
  have hinit : (⟨dest, 0, 0, 0, 1⟩ : SplitState) = splitAt dest [] [] [] 1 := rfl
  by_cases hpos : 0 < destSize
  · rw [hinit]
    exact splitLoop_eq hsize src [] [] [] 1 rfl List.not_mem_nil hpos
  · have hnil : cString src = [] := not_not.1 (mt hsrc hpos)
    have hloop : splitLoop src destSize src ⟨dest, 0, 0, 0, 1⟩ = some ⟨dest, 0, 0, 0, 1⟩ := by
      rcases src with _ | ⟨c, rest⟩
      · rfl
      · by_cases hc : c = 0
        · rw [splitLoop, if_pos hc]
        · simp [cString, hc] at hnil
    have hzero : destSize = 0 := by omega
    rw [hloop, hzero, hnil, Option.bind_some, splitLast]
    dsimp only
    rw [if_pos (by omega)]
    rfl

/-! ## What is handed over -/

/-- Each string is terminated within its array. -/
structure HiSysEventQueryRule.WellFormed (rule : HiSysEventQueryRule) : Prop where
  eventListSize : rule.eventListSize ≤ maxNumberOfEventList
  domain : 0 ∈ rule.domain.1
  eventList : ∀ k : Fin maxNumberOfEventList, k.1 < rule.eventListSize → 0 ∈ (rule.eventList k).1

namespace QueryRule

/-- The names, joined and cut to the array. -/
def joined (rule : QueryRule) : Bytes :=
  ([bar].intercalate rule.eventList).take maxEventListLen

/-- A string for which `CString::new` panics. -/
def HasNul (rule : QueryRule) : Prop :=
  0 ∈ rule.condition ∨ 0 ∈ rule.domain ∨ ∃ name ∈ rule.eventList, 0 ∈ name

/-- The names fit the entries, and what was there before terminates each string. -/
structure Clean (rule : QueryRule) (dest : HiSysEventQueryRule) : Prop where
  eventList : rule.eventList.length ≤ maxNumberOfEventList
  domain : 0 ∈ dest.domain.1.drop rule.domain.length
  entries : ∀ k : Fin maxNumberOfEventList, k.1 < rule.eventList.length →
    0 ∈ (dest.eventList k).1.drop ((eventSlices rule.joined)[k.1]?.elim 0 List.length)

instance (rule : QueryRule) : Decidable rule.HasNul :=
  inferInstanceAs (Decidable (_ ∨ _ ∨ _))

/-- The wrapper of a rule whose strings have no NUL. -/
def wrapper (rule : QueryRule) (addr : ℕ) : HiSysEventQueryRuleWrapper :=
  ⟨(CharArray.zero _).copySlice rule.domain,
    (CharArray.zero _).copySlice ([bar].intercalate rule.eventList),
    UInt32.ofNat (if rule.eventList.length ≤ maxEventListLen then rule.eventList.length
      else maxEventListLen), some addr⟩

end QueryRule

theorem mem_intercalate {sep c : UInt8} (hne : c ≠ sep) : ∀ {l : List Bytes},
    c ∈ [sep].intercalate l ↔ ∃ s ∈ l, c ∈ s
  | [] => by simp [List.intercalate]
  | [s] => by simp [List.intercalate]
  | s :: t :: l => by
    have ih := mem_intercalate hne (l := t :: l)
    rw [List.intercalate_cons_cons, List.mem_append, List.mem_append, ih, List.mem_singleton,
      or_iff_left hne]
    simp

variable (rule : QueryRule) (addr : ℕ) (d : HiSysEventQueryRule)

theorem queryRule_wrap_eq :
    rule.wrap addr = if rule.HasNul then none else some (rule.wrapper addr) := by
  have hmem : 0 ∈ [bar].intercalate rule.eventList ↔ ∃ name ∈ rule.eventList, 0 ∈ name :=
    mem_intercalate (by decide)
  simp only [QueryRule.wrap, QueryRule.HasNul, transSliceToArray, cStringNew, hmem]
  by_cases hcond : 0 ∈ rule.condition
  · simp [hcond]
  · by_cases hdomain : 0 ∈ rule.domain
    · simp [hcond, hdomain]
    · by_cases hnames : ∃ name ∈ rule.eventList, 0 ∈ name
      · simp [hcond, hdomain, hnames]
      · simp [hcond, hdomain, hnames, QueryRule.wrapper]

theorem rustQuery_eq (addr : ℕ → ℕ) (rules : List QueryRule) : rustQuery addr rules =
    if ∃ rule ∈ rules, rule.HasNul then none
    else some (rules.zipIdx.map fun rule => rule.1.wrapper (addr rule.2)) := by
  have hmem : (∃ rule ∈ rules.zipIdx.map Prod.fst, rule.HasNul) ↔
      ∃ rule ∈ rules.zipIdx, rule.1.HasNul := by
    simp only [List.mem_map, exists_exists_and_eq_and]
  rw [List.zipIdx_map_fst] at hmem
  have hmapM : rustQuery addr rules = if ∃ rule ∈ rules.zipIdx, rule.1.HasNul then none
      else some (rules.zipIdx.map fun rule => rule.1.wrapper (addr rule.2)) :=
    mapM_guard (fun rule => queryRule_wrap_eq rule.1 (addr rule.2)) rules.zipIdx
  simp only [hmapM, hmem]

variable {rule addr d}

/-- The size handed over is bounded by the bytes of the array. -/
theorem eventListSize_wrapper :
    (rule.wrapper addr).eventListSize.toNat = min rule.eventList.length maxEventListLen := by
  have hcount : (if rule.eventList.length ≤ maxEventListLen then rule.eventList.length
      else maxEventListLen) = min rule.eventList.length maxEventListLen := rfl
  rw [QueryRule.wrapper, hcount]
  exact UInt32.toNat_ofNat_of_lt' (by
    have hle : min rule.eventList.length maxEventListLen ≤ maxEventListLen := min_le_right _ _
    have hlt : maxEventListLen < UInt32.size := by decide
    omega)

/-- A rule with at most ten names is converted without a write outside its entries. -/
theorem convertQueryRule_eq (hnul : ¬rule.HasNul)
    (hlength : rule.eventList.length ≤ maxNumberOfEventList) :
    convertQueryRule (rule.wrapper addr) d = some ⟨d.domain.copyName (rule.wrapper addr).domain,
      d.eventList.overlay ((eventSlices rule.joined).take rule.eventList.length),
      rule.eventList.length, some addr⟩ := by
  have hmem : 0 ∉ [bar].intercalate rule.eventList :=
    fun h => hnul (Or.inr (Or.inr ((mem_intercalate (by decide)).1 h)))
  have hsrc : cString ((rule.wrapper addr).eventList.1.take maxEventListLen) = rule.joined := by
    rw [List.take_of_length_le (le_of_eq (rule.wrapper addr).eventList.2)]
    exact cString_copySlice_zero hmem
  have hsize : (rule.wrapper addr).eventListSize.toNat = rule.eventList.length := by
    rw [eventListSize_wrapper, min_eq_left (hlength.trans (by decide))]
  have hpos : cString ((rule.wrapper addr).eventList.1.take maxEventListLen) ≠ [] →
      0 < rule.eventList.length := fun hne => by
    rw [hsrc] at hne
    refine List.length_pos_iff.2 fun hnil => hne ?_
    rw [QueryRule.joined, hnil]
    rfl
  rw [convertQueryRule, hsize, splitStringToArray_eq hlength hpos, hsrc]
  rfl

theorem mem_domain_iff (hnul : ¬rule.HasNul) :
    0 ∈ (d.domain.copyName (rule.wrapper addr).domain).1 ↔
      0 ∈ d.domain.1.drop rule.domain.length := by
  have hmem : 0 ∉ rule.domain := fun h => hnul (Or.inr (Or.inl h))
  have hcopy : (d.domain.copyName (rule.wrapper addr).domain).1 =
      rule.domain.take maxLengthOfEventDomain ++
        d.domain.1.drop (min maxLengthOfEventDomain rule.domain.length) :=
    copyName_copySlice hmem d.domain
  rw [hcopy, List.mem_append, or_iff_right fun h => hmem (List.mem_of_mem_take h)]
  rcases le_total maxLengthOfEventDomain rule.domain.length with hle | hle
  · rw [min_eq_left hle, List.drop_of_length_le (le_of_eq d.domain.2),
      List.drop_of_length_le ((le_of_eq d.domain.2).trans hle)]
  · rw [min_eq_right hle]

theorem mem_overlay_iff {dest : EventList} {slices : List Bytes} (hnul : ∀ s ∈ slices, 0 ∉ s)
    (hlength : ∀ s ∈ slices, s.length ≤ maxLengthOfEventName) (k : Fin maxNumberOfEventList) :
    0 ∈ (dest.overlay slices k).1 ↔
      0 ∈ (dest k).1.drop (slices[k.1]?.elim 0 List.length) := by
  cases hk : slices[k.1]? with
  | none => simp [EventList.overlay, hk]
  | some slice =>
    have hmem := List.mem_of_getElem? hk
    simp [EventList.overlay, hk, CharArray.copySlice, hlength slice hmem, overwrite,
      hnul slice hmem]

theorem eventSlices_joined (hnul : ¬rule.HasNul) {s : Bytes} (hs : s ∈ eventSlices rule.joined) :
    0 ∉ s ∧ s.length ≤ maxLengthOfEventName := by
  obtain ⟨hsplit, hlength⟩ := List.mem_filter.1 hs
  rw [decide_eq_true_eq] at hlength
  refine ⟨fun h => ?_, hlength.2⟩
  have hjoined : 0 ∈ rule.joined := by
    have hjoin : [bar].intercalate (rule.joined.splitOn bar) = rule.joined :=
      List.intercalate_splitOn bar
    rw [← hjoin]
    exact (mem_intercalate (by decide)).2 ⟨s, hsplit, h⟩
  exact hnul (Or.inr (Or.inr ((mem_intercalate (by decide)).1 (List.mem_of_mem_take hjoined))))

/-- A rule is well formed exactly if it is converted from a clean one. -/
theorem wellFormed_convertQueryRule_iff (hnul : ¬rule.HasNul) :
    (∃ r, convertQueryRule (rule.wrapper addr) d = some r ∧ r.WellFormed) ↔ rule.Clean d := by
  by_cases hlength : rule.eventList.length ≤ maxNumberOfEventList
  · have hentry : ∀ k : Fin maxNumberOfEventList, k.1 < rule.eventList.length →
        (0 ∈ (d.eventList.overlay ((eventSlices rule.joined).take rule.eventList.length) k).1 ↔
          0 ∈ (d.eventList k).1.drop ((eventSlices rule.joined)[k.1]?.elim 0 List.length)) :=
      fun k hk => by
        have hslices := fun s (hs : s ∈ (eventSlices rule.joined).take rule.eventList.length) =>
          eventSlices_joined hnul (List.mem_of_mem_take hs)
        rw [mem_overlay_iff (fun s hs => (hslices s hs).1) (fun s hs => (hslices s hs).2),
          List.getElem?_take_of_lt hk]
    rw [convertQueryRule_eq hnul hlength]
    constructor
    · rintro ⟨r, hr, hformed⟩
      obtain rfl := Option.some.inj hr
      exact ⟨hlength, (mem_domain_iff hnul).1 hformed.domain,
        fun k hk => (hentry k hk).1 (hformed.eventList k hk)⟩
    · intro hclean
      exact ⟨_, rfl, hlength, (mem_domain_iff hnul).2 hclean.domain,
        fun k hk => (hentry k hk).2 (hclean.entries k hk)⟩
  · refine iff_of_false ?_ fun hclean => hlength hclean.eventList
    rintro ⟨r, hr, hformed⟩
    obtain ⟨eventList, -, rfl⟩ := Option.map_eq_some_iff.1 hr
    have hsize := hformed.eventListSize
    simp only [eventListSize_wrapper] at hsize
    exact hlength ((min_le_iff.1 hsize).resolve_right (by decide))

/-! ## All rules -/

/-- Converting all is converting each. -/
theorem mapM_forall_iff {α β : Type} {f : α → Option β} {P : β → Prop} : ∀ {l : List α},
    (∃ bs, l.mapM f = some bs ∧ ∀ b ∈ bs, P b) ↔ ∀ a ∈ l, ∃ b, f a = some b ∧ P b
  | [] => by simp
  | a :: l => by
    have ih := mapM_forall_iff (l := l) (f := f) (P := P)
    rw [List.forall_mem_cons, ← ih, List.mapM_cons]
    constructor
    · rintro ⟨bs, hbs, hP⟩
      obtain ⟨b, hb, hrest⟩ := Option.bind_eq_some_iff.1 hbs
      obtain ⟨cs, hcs, hcons⟩ := Option.bind_eq_some_iff.1 hrest
      obtain rfl := Option.some.inj hcons
      rw [List.forall_mem_cons] at hP
      exact ⟨⟨b, hb, hP.1⟩, cs, hcs, hP.2⟩
    · rintro ⟨⟨b, hb, hPb⟩, cs, hcs, hPcs⟩
      exact ⟨b :: cs, by rw [hb, hcs]; rfl, List.forall_mem_cons.2 ⟨hPb, hPcs⟩⟩

variable (addr : ℕ → ℕ) (prior : ℕ → HiSysEventQueryRule) (rules : List QueryRule)

/-- The rules that are converted, each with what lies under it. -/
theorem mem_zip_wrapper_iff {size : ℕ} (hsize : size ≤ rules.length)
    {pair : HiSysEventQueryRuleWrapper × HiSysEventQueryRule} :
    pair ∈ (rules.zipIdx.map fun rule => rule.1.wrapper (addr rule.2)).zip
        ((List.range size).map prior) ↔
      ∃ (i : ℕ) (rule : QueryRule), i < size ∧ rules[i]? = some rule ∧
        pair = (rule.wrapper (addr i), prior i) := by
  rw [List.mem_iff_getElem?]
  refine exists_congr fun i => ?_
  rw [List.getElem?_zip_eq_some, List.getElem?_map, List.getElem?_map, List.getElem?_zipIdx]
  by_cases hi : i < size
  · have hlt : i < rules.length := hi.trans_le hsize
    rw [List.getElem?_range hi, List.getElem?_eq_getElem hlt]
    simp [hi, Prod.ext_iff, eq_comm]
  · simp [hi]

/-- The rules handed over are well formed, and the split writes only to their entries, exactly if
all is clean, unless `query` panics. -/
theorem rustQuery_wellFormed_iff :
    (∀ wrappers, rustQuery addr rules = some wrappers →
      ∃ handed, hiSysEventQueryWrapper prior wrappers (UInt32.ofNat rules.length) = some handed ∧
        ∀ rule ∈ handed, rule.WellFormed) ↔
    (∃ rule ∈ rules, rule.HasNul) ∨ ∀ (i : ℕ) (rule : QueryRule), i < rules.length % 2 ^ 32 →
      rules[i]? = some rule → rule.Clean (prior i) := by
  rw [rustQuery_eq]
  by_cases hpanic : ∃ rule ∈ rules, rule.HasNul
  · simp [hpanic]
  · have hnul : ∀ {i : ℕ} {rule : QueryRule}, rules[i]? = some rule → ¬rule.HasNul :=
      fun hrule h => hpanic ⟨_, List.mem_of_getElem? hrule, h⟩
    have hsize : (UInt32.ofNat rules.length).toNat = rules.length % 2 ^ 32 := rfl
    rw [if_neg hpanic, or_iff_right hpanic]
    simp only [Option.some.injEq, forall_eq', hiSysEventQueryWrapper, convertQueryRuleWrapper,
      hsize, mapM_forall_iff]
    constructor
    · intro h i rule hi hrule
      exact (wellFormed_convertQueryRule_iff (hnul hrule)).1 (h _
        ((mem_zip_wrapper_iff addr prior rules (Nat.mod_le _ _)).2 ⟨i, rule, hi, hrule, rfl⟩))
    · intro h pair hpair
      obtain ⟨i, rule, hi, hrule, rfl⟩ :=
        (mem_zip_wrapper_iff addr prior rules (Nat.mod_le _ _)).1 hpair
      exact (wellFormed_convertQueryRule_iff (hnul hrule)).2 (h i rule hi hrule)

/-- Eleven names are handed over as eleven, beyond the entries of a cleared rule. -/
theorem not_rustQuery_wellFormed :
    let rule : QueryRule := ⟨[68], List.replicate 11 [69], []⟩
    let prior : HiSysEventQueryRule := ⟨CharArray.zero _, fun _ => CharArray.zero _, 0, none⟩
    (rustQuery (fun _ => 0) [rule]).map (List.map fun w => w.eventListSize) = some [11] ∧
    ¬∀ wrappers, rustQuery (fun _ => 0) [rule] = some wrappers →
      ∃ handed, hiSysEventQueryWrapper (fun _ => prior) wrappers (UInt32.ofNat 1) = some handed ∧
        ∀ rule ∈ handed, rule.WellFormed := by
  refine ⟨by decide, fun h => ?_⟩
  obtain ⟨handed, hhanded, hformed⟩ := h _ rfl
  have hclean := mapM_forall_iff.1 ⟨handed, hhanded, hformed⟩ _ List.mem_cons_self
  exact absurd ((wellFormed_convertQueryRule_iff (by decide)).1 hclean).eventList (by decide)

/-! ## Splitting undoes joining -/

theorem length_intercalate_le (sep : UInt8) {n : ℕ} : ∀ {l : List Bytes},
    (∀ s ∈ l, s.length ≤ n) → ([sep].intercalate l).length ≤ l.length * (n + 1)
  | [], _ => by simp [List.intercalate]
  | [s], h => by
    have hs := h s List.mem_cons_self
    simp only [List.intercalate_singleton, List.length_singleton]
    omega
  | s :: t :: l, h => by
    have hs := h s List.mem_cons_self
    have ih := length_intercalate_le sep (l := t :: l) fun u hu =>
      h u (List.mem_cons_of_mem _ hu)
    have hlength : (s :: t :: l).length * (n + 1) = (t :: l).length * (n + 1) + (n + 1) := by
      rw [List.length_cons, Nat.add_mul, Nat.one_mul]
    rw [List.intercalate_cons_cons, List.length_append, List.length_append,
      List.length_singleton, hlength]
    omega

/-- A name of an event that an entry holds with its NUL. -/
structure IsEventName (name : Bytes) : Prop where
  pos : 1 ≤ name.length
  length : name.length < maxLengthOfEventName
  bar : bar ∉ name
  nul : 0 ∉ name

/-- The slices of joined names are the names. -/
theorem eventSlices_intercalate {names : List Bytes} (h : ∀ name ∈ names, IsEventName name) :
    eventSlices ([bar].intercalate names) = names := by
  by_cases hnil : names = []
  · subst hnil
    decide
  · rw [eventSlices, List.splitOn_intercalate bar (fun name hname => (h name hname).bar) hnil]
    refine List.filter_eq_self.2 fun name hname => ?_
    simpa using ⟨(h name hname).pos, (h name hname).length.le⟩

/-- Up to ten names, joined and copied to the array, are split into the entries again. The entries
behind are as before. -/
theorem splitStringToArray_intercalate {names : List Bytes}
    (hcount : names.length ≤ maxNumberOfEventList) (hname : ∀ name ∈ names, IsEventName name) :
    ∃ src dest, transSliceToArray ([bar].intercalate names) (CharArray.zero maxEventListLen) =
        some src ∧
      splitStringToArray src.1 maxEventListLen (fun _ => CharArray.zero _) names.length =
        some dest ∧
      (∀ (i : ℕ) (h : i < names.length), cString (dest ⟨i, h.trans_le hcount⟩).1 = names[i]) ∧
      ∀ k : Fin maxNumberOfEventList, names.length ≤ k.1 → dest k = CharArray.zero _ := by
  have hnul : 0 ∉ [bar].intercalate names := fun h => by
    obtain ⟨name, hmem, h0⟩ := (mem_intercalate (by decide)).1 h
    exact (hname name hmem).nul h0
  have hlength : ([bar].intercalate names).length ≤ maxEventListLen := by
    have hle := length_intercalate_le bar fun name hmem =>
      Nat.le_of_lt_succ (hname name hmem).length
    have hmul : names.length * 33 ≤ 10 * 33 := Nat.mul_le_mul_right _ hcount
    exact (hle.trans hmul).trans (by decide)
  have hfull : ((CharArray.zero maxEventListLen).copySlice ([bar].intercalate names)).1.length ≤
      maxEventListLen := le_of_eq (CharArray.copySlice _ _).2
  have hsrc : cString (((CharArray.zero maxEventListLen).copySlice
      ([bar].intercalate names)).1.take maxEventListLen) = [bar].intercalate names := by
    rw [List.take_of_length_le hfull, cString_copySlice_zero hnul, List.take_of_length_le hlength]
  have htrans : transSliceToArray ([bar].intercalate names) (CharArray.zero maxEventListLen) =
      some ((CharArray.zero maxEventListLen).copySlice ([bar].intercalate names)) := by
    rw [transSliceToArray, cStringNew, if_neg hnul, Option.map_some]
  refine ⟨_, _, htrans, splitStringToArray_eq hcount fun hne => ?_, ?_, ?_⟩
  · rw [hsrc] at hne
    refine List.length_pos_iff.2 fun hnil => hne ?_
    rw [hnil]
    rfl
  · intro i h
    rw [hsrc, eventSlices_intercalate hname, List.take_length]
    have hi := hname _ (List.getElem_mem h)
    simp only [EventList.overlay, List.getElem?_eq_getElem h]
    rw [cString_copySlice_zero hi.nul, List.take_of_length_le hi.length.le]
  · intro k hk
    rw [hsrc, eventSlices_intercalate hname, List.take_length]
    simp only [EventList.overlay, List.getElem?_eq_none hk]

theorem splitStringToArray_two :
    ∃ src dest, transSliceToArray ([bar].intercalate [[65], [66, 67]])
        (CharArray.zero maxEventListLen) = some src ∧
      splitStringToArray src.1 maxEventListLen (fun _ => CharArray.zero _) 2 = some dest ∧
      (∀ (i : ℕ) (h : i < 2), cString (dest ⟨i, h.trans_le (by decide)⟩).1 =
        ([[65], [66, 67]] : List Bytes)[i]) ∧
      ∀ k : Fin maxNumberOfEventList, 2 ≤ k.1 → dest k = CharArray.zero _ :=
  splitStringToArray_intercalate (by decide) fun name hname => by
    rcases List.mem_pair.1 hname with rfl | rfl
    · exact ⟨by decide, by decide, by decide, by decide⟩
    · exact ⟨by decide, by decide, by decide, by decide⟩

end HiSysEvent
