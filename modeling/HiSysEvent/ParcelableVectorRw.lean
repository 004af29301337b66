import HiSysEvent.BaseManager
import HiSysEvent.Parcel

/-!
# Rule vectors in a parcel

A vector is written as a tag, and if it is not empty as its count and its rules. The reader
clears the destination only behind the tag of a vector that is not empty, takes every other tag
for an empty vector, and a count below one for no rules.

So an empty vector is read back only into an empty destination, and a parcel that is accepted
holds what the writer writes for the result exactly if it is `WellTagged`
(`sysEventRules_parcel`).
-/

set_option linter.unusedSectionVars false

namespace HiSysEvent

open Queue Parcelable

abbrev valueNull : ℤ := -1
abbrev valueObject : ℤ := 1
abbrev ruleCountLimit : ℤ := 512 * 1024

/-- `SysEventQueryRule`. -/
structure SysEventQueryRule where
  domain : Bytes
  eventList : List Bytes
  ruleType : UInt32
  eventType : UInt32
  condition : Bytes
  deriving DecidableEq

/-! ## The methods of the rules -/

namespace SysEventRule

/-- `SysEventRule::Marshalling`. -/
def marshalling (rule : SysEventRule) : Program Field Unit := do
  Parcel.writeString rule.domain
  Parcel.writeString rule.eventName
  Parcel.writeString rule.tag
  Parcel.writeUint32 rule.ruleType
  Parcel.writeUint32 rule.eventType

/-- `SysEventRule::Unmarshalling`. -/
def unmarshalling : Program Field SysEventRule := do
  let domain ← Parcel.readString
  let eventName ← Parcel.readString
  let tag ← Parcel.readString
  let ruleType ← Parcel.readUint32
  let eventType ← Parcel.readUint32
  return ⟨domain, eventName, tag, ruleType, eventType⟩

/-- The fields of a rule, in order. -/
def fields (rule : SysEventRule) : Parcel :=
  [.string rule.domain, .string rule.eventName, .string rule.tag, .uint32 rule.ruleType,
    .uint32 rule.eventType]

instance : Parcelable SysEventRule :=
  ⟨marshalling, unmarshalling⟩

theorem canonical : Canonical fields where
  writes rule := (Writes.push _).seq <| (Writes.push _).seq <| (Writes.push _).seq <|
    (Writes.push _).seq (Writes.push _)
  reads := by
    intro q rule rest
    have hexec : exec (Parcelable.unmarshalling : Program Field SysEventRule) q =
        exec unmarshalling q := rfl
    simp only [hexec, unmarshalling, Parcel.reads_readString.bind, Parcel.reads_readUint32.bind,
      exec_pure, fields]
    constructor
    · rintro ⟨domain, q₁, rfl, eventName, q₂, rfl, tag, q₃, rfl, ruleType, q₄, rfl, eventType, q₅,
        rfl, h⟩
      obtain ⟨hrule, rfl⟩ := Prod.mk.inj h
      rw [← Option.some.inj hrule]
      rfl
    · rintro rfl
      exact ⟨_, _, rfl, _, _, rfl, _, _, rfl, _, _, rfl, _, _, rfl, rfl⟩

end SysEventRule

namespace SysEventQueryRule

/-- `SysEventQueryRule::Marshalling`. -/
def marshalling (rule : SysEventQueryRule) : Program Field Unit := do
  Parcel.writeUint32 rule.eventType
  Parcel.writeUint32 rule.ruleType
  Parcel.writeString rule.domain
  Parcel.writeString rule.condition
  Parcel.writeStringVector rule.eventList

/-- `SysEventQueryRule::Unmarshalling`. -/
def unmarshalling : Program Field SysEventQueryRule := do
  let eventType ← Parcel.readUint32
  let ruleType ← Parcel.readUint32
  let domain ← Parcel.readString
  let condition ← Parcel.readString
  let eventList ← Parcel.readStringVector
  return ⟨domain, eventList, ruleType, eventType, condition⟩

/-- The fields a query rule is written as. -/
def fields (rule : SysEventQueryRule) : Parcel :=
  [.uint32 rule.eventType, .uint32 rule.ruleType, .string rule.domain, .string rule.condition,
    .stringVector rule.eventList]

instance : Parcelable SysEventQueryRule :=
  ⟨marshalling, unmarshalling⟩

theorem canonical : Canonical fields where
  writes rule := (Writes.push _).seq <| (Writes.push _).seq <| (Writes.push _).seq <|
    (Writes.push _).seq (Writes.push _)
  reads := by
    intro q rule rest
    have hexec : exec (Parcelable.unmarshalling : Program Field SysEventQueryRule) q =
        exec unmarshalling q := rfl
    simp only [hexec, unmarshalling, Parcel.reads_readString.bind, Parcel.reads_readUint32.bind,
      Parcel.reads_readStringVector.bind, exec_pure, fields]
    constructor
    · rintro ⟨eventType, q₁, rfl, ruleType, q₂, rfl, domain, q₃, rfl, condition, q₄, rfl,
        eventList, q₅, rfl, h⟩
      obtain ⟨hrule, rfl⟩ := Prod.mk.inj h
      rw [← Option.some.inj hrule]
      rfl
    · rintro rfl
      exact ⟨_, _, rfl, _, _, rfl, _, _, rfl, _, _, rfl, _, _, rfl, rfl⟩

end SysEventQueryRule

/-! ## Vectors -/

variable {T : Type} [Parcelable T]

/-- The rest of the vector, read behind the rules that are there. -/
def readRules : ℕ → List T → Parcel → (Bool × List T) × Parcel
  | 0, rules, parcel => ((true, rules), parcel)
  | size + 1, rules, parcel =>
    match exec readParcelable parcel with
    | (none, parcel) => ((false, rules), parcel)
    | (some rule, parcel) => readRules size (rules ++ [rule]) parcel

/-- What is returned and the destination, with the parcel that is left. -/
def readVectorFromParcel (parcel : Parcel) (rules : List T) : (Bool × List T) × Parcel :=
  match exec Parcel.readInt32 parcel with
  | (none, parcel) => ((false, rules), parcel)
  | (some empty, parcel) =>
    if empty.toInt = valueObject then
      match exec Parcel.readInt32 parcel with
      | (none, parcel) => ((false, rules), parcel)
      | (some size, parcel) =>
        if size.toInt > ruleCountLimit then ((false, rules), parcel)
        else readRules size.toInt.toNat [] parcel
    else ((true, rules), parcel)

/-- `WriteVectorToParcel`: a marker, the length, then the rules. -/
def writeVectorToParcel (rules : List T) : Program Field Unit :=
  if rules.length = 0 then Parcel.writeInt32 (BitVec.ofInt 32 valueNull)
  else do
    Parcel.writeInt32 (BitVec.ofInt 32 valueObject)
    Parcel.writeInt32 (BitVec.ofNat 32 rules.length)
    rules.forM writeParcelable

/-! ## What is written and what is read -/

variable {fields : T → Parcel}

/-- The fields of a vector. -/
def vectorFields (fields : T → Parcel) (rules : List T) : Parcel :=
  if rules.length = 0 then [.int32 (BitVec.ofInt 32 valueNull)]
  else .int32 (BitVec.ofInt 32 valueObject) :: .int32 (BitVec.ofNat 32 rules.length) ::
    rules.flatMap fun rule => .object :: fields rule

theorem writes_writeVectorToParcel (h : Canonical fields) (rules : List T) :
    Writes (writeVectorToParcel rules) (vectorFields fields rules) := by
  rw [writeVectorToParcel, vectorFields]
  split
  case isTrue => exact Writes.push _
  case isFalse =>
    exact (Writes.push _).seq <| (Writes.push _).seq <| Writes.forM h.writeParcelable rules

theorem readRules_true_iff (h : Canonical fields) : ∀ (size : ℕ) (rules dest : List T)
    (parcel rest : Parcel), readRules size rules parcel = ((true, dest), rest) ↔
      ∃ l : List T, l.length = size ∧ dest = rules ++ l ∧
        parcel = (l.flatMap fun rule => .object :: fields rule) ++ rest
  | 0, rules, dest, parcel, rest => by
    rw [readRules]
    constructor
    · intro heq
      obtain ⟨hdest, hrest⟩ := Prod.mk.inj heq
      exact ⟨[], rfl, by rw [List.append_nil, (Prod.mk.inj hdest).2], hrest⟩
    · rintro ⟨l, hl, rfl, rfl⟩
      rw [List.eq_nil_of_length_eq_zero hl, List.append_nil]
      rfl
  | size + 1, rules, dest, parcel, rest => by
    have hread := h.readParcelable parcel
    rw [readRules]
    constructor
    · intro heq
      rcases hexec : exec (readParcelable : Program Field T) parcel with ⟨_ | rule, parcel'⟩
      · rw [hexec] at heq
        exact absurd heq (by simp)
      · rw [hexec] at heq
        obtain ⟨l, hl, hdest, hparcel⟩ := (readRules_true_iff h size _ dest parcel' rest).1 heq
        refine ⟨rule :: l, by rw [List.length_cons, hl], ?_, ?_⟩
        · rw [hdest, List.append_assoc]
          rfl
        · rw [(hread rule parcel').1 hexec, hparcel, List.flatMap_cons, List.append_assoc]
    · rintro ⟨_ | ⟨rule, l⟩, hl, rfl, hparcel⟩
      · exact absurd hl (by simp)
      · rw [List.flatMap_cons, List.append_assoc] at hparcel
        rw [(hread rule _).2 hparcel]
        exact (readRules_true_iff h size _ _ _ rest).2
          ⟨l, by simpa using hl, by simp, rfl⟩

/-- What the reader accepts : the rules behind a count, or nothing but the tag. -/
theorem readVectorFromParcel_true_iff (h : Canonical fields) {parcel rest : Parcel}
    {rules dest : List T} : readVectorFromParcel parcel rules = ((true, dest), rest) ↔
      ∃ tag q, parcel = .int32 tag :: q ∧
        if tag.toInt = valueObject then ∃ size : BitVec 32, size.toInt ≤ ruleCountLimit ∧
          dest.length = size.toInt.toNat ∧
          q = .int32 size :: ((dest.flatMap fun rule => .object :: fields rule) ++ rest)
        else dest = rules ∧ rest = q := by
  have hread := Parcel.reads_readInt32
  rw [readVectorFromParcel]
  constructor
  · intro heq
    rcases htag : exec Parcel.readInt32 parcel with ⟨_ | tag, q⟩
    · rw [htag] at heq
      exact absurd heq (by simp)
    · rw [htag] at heq
      dsimp only at heq
      refine ⟨tag, q, (hread parcel tag q).1 htag, ?_⟩
      split_ifs at heq ⊢ with hobject
      · rcases hsize : exec Parcel.readInt32 q with ⟨_ | size, q'⟩
        · rw [hsize] at heq
          exact absurd heq (by simp)
        · rw [hsize] at heq
          dsimp only at heq
          split_ifs at heq with hlimit
          · exact absurd heq (by simp)
          · obtain ⟨l, hl, hdest, hparcel⟩ := (readRules_true_iff h _ _ _ _ _).1 heq
            rw [List.nil_append] at hdest
            subst hdest
            exact ⟨size, not_lt.1 hlimit, hl, by
              rw [(hread q size q').1 hsize, hparcel, List.singleton_append]⟩
      · obtain ⟨hdest, hrest⟩ := Prod.mk.inj heq
        exact ⟨(Prod.mk.inj hdest).2.symm, hrest.symm⟩
  · rintro ⟨tag, q, rfl, hrest⟩
    rw [Parcel.exec_readInt32]
    dsimp only
    split_ifs at hrest ⊢ with hobject
    · obtain ⟨size, hlimit, hlength, rfl⟩ := hrest
      rw [Parcel.exec_readInt32]
      dsimp only
      rw [if_neg (not_lt.2 hlimit)]
      exact (readRules_true_iff h _ _ _ _ _).2 ⟨dest, hlength, rfl, rfl⟩
    · rw [hrest.1, hrest.2]

/-- The tag is that of the destination's kind : behind the tag of an object there are rules, and
behind the tag of an empty vector nothing is left in the destination. -/
def WellTagged (rules : List T) (parcel : Parcel) : Prop :=
  (∃ size q, parcel = .int32 (BitVec.ofInt 32 valueObject) :: .int32 size :: q ∧
    0 < size.toInt) ∨
  (∃ q, parcel = .int32 (BitVec.ofInt 32 valueNull) :: q) ∧ rules = []

/-- A vector is read back, if it is not read as empty into a destination that is not. -/
theorem readVectorFromParcel_vectorFields (h : Canonical fields) {v : List T}
    (hv : (v.length : ℤ) ≤ ruleCountLimit) (prior : List T) (trailing : Parcel) :
    readVectorFromParcel (vectorFields fields v ++ trailing) prior = ((true, v), trailing) ↔
      (v = [] → prior = []) := by
  rw [readVectorFromParcel_true_iff h, vectorFields]
  split
  case isTrue hnil =>
    rw [List.length_eq_zero_iff] at hnil
    subst hnil
    constructor
    · rintro ⟨tag, q, hparcel, hrest⟩ -
      obtain ⟨htag, -⟩ := List.cons.inj hparcel
      obtain rfl := Field.int32.inj htag
      rw [if_neg (by decide)] at hrest
      exact hrest.1.symm
    · intro hprior
      exact ⟨_, trailing, rfl, by rw [if_neg (by decide)]; exact ⟨(hprior rfl).symm, rfl⟩⟩
  case isFalse hne =>
    have hlimit : ruleCountLimit = 524288 := rfl
    have hint : (BitVec.ofNat 32 v.length).toInt = v.length := by
      have hlt : (BitVec.ofNat 32 v.length).toNat = v.length := by
        rw [BitVec.toNat_ofNat, Nat.mod_eq_of_lt (by omega)]
      rw [BitVec.toInt_eq_toNat_of_lt (by omega), hlt]
    refine iff_of_true ⟨_, _, rfl, ?_⟩ fun hnil => absurd (List.length_eq_zero_iff.2 hnil) hne
    rw [if_pos (by decide)]
    exact ⟨BitVec.ofNat 32 v.length, by rw [hint]; exact hv, by rw [hint]; rfl, rfl⟩

/-- Behind the tag of an object. -/
theorem vectorFields_object_iff {prior dest : List T} {size : BitVec 32} {rest : Parcel}
    (hlength : dest.length = size.toInt.toNat) :
    .int32 (BitVec.ofInt 32 valueObject) :: .int32 size ::
        ((dest.flatMap fun rule => .object :: fields rule) ++ rest) =
        vectorFields fields dest ++ rest ↔
      WellTagged prior (.int32 (BitVec.ofInt 32 valueObject) :: .int32 size ::
        ((dest.flatMap fun rule => .object :: fields rule) ++ rest)) := by
  by_cases hpos : 0 < size.toInt
  · have hsize : BitVec.ofNat 32 dest.length = size := by
      refine BitVec.eq_of_toNat_eq ?_
      have hnat := BitVec.toInt_eq_toNat_cond size
      have hlt := size.isLt
      rw [BitVec.toNat_ofNat, hlength, Nat.mod_eq_of_lt (by omega)]
      split_ifs at hnat
      · omega
      · omega
    refine iff_of_true ?_ (Or.inl ⟨size, _, rfl, hpos⟩)
    rw [vectorFields, if_neg (by omega), hsize]
    rfl
  · refine iff_of_false ?_ ?_
    · rw [vectorFields, if_pos (by omega)]
      intro heq
      exact absurd (Field.int32.inj (List.cons.inj heq).1) (by decide)
    · rintro (⟨size', q, heq, hpos'⟩ | ⟨⟨q, heq⟩, -⟩)
      · obtain rfl := Field.int32.inj (List.cons.inj (List.cons.inj heq).2).1
        exact hpos hpos'
      · exact absurd (Field.int32.inj (List.cons.inj heq).1) (by decide)

/-- Behind any other tag, which leaves the destination as it is. -/
theorem vectorFields_other_iff {prior : List T} {tag : BitVec 32} {rest : Parcel}
    (hobject : tag ≠ BitVec.ofInt 32 valueObject) :
    .int32 tag :: rest = vectorFields fields prior ++ rest ↔
      WellTagged prior (.int32 tag :: rest) := by
  constructor
  · intro heq
    rw [vectorFields] at heq
    split_ifs at heq with hnil
    · exact Or.inr ⟨⟨rest, heq⟩, List.length_eq_zero_iff.1 hnil⟩
    · exact absurd (Field.int32.inj (List.cons.inj heq).1) hobject
  · rintro (⟨size, q, heq, -⟩ | ⟨⟨q, heq⟩, rfl⟩)
    · exact absurd (Field.int32.inj (List.cons.inj heq).1) hobject
    · rw [Field.int32.inj (List.cons.inj heq).1]
      rfl

/-- What is accepted is what the writer writes for the result, if and only if it is well tagged. -/
theorem readVectorFromParcel_canonical_iff (h : Canonical fields) {parcel rest : Parcel}
    {prior dest : List T} (hread : readVectorFromParcel parcel prior = ((true, dest), rest)) :
    parcel = vectorFields fields dest ++ rest ↔ WellTagged prior parcel := by
  obtain ⟨tag, q, rfl, hq⟩ := (readVectorFromParcel_true_iff h).1 hread
  split_ifs at hq with hobject
  · obtain ⟨size, -, hlength, rfl⟩ := hq
    rw [BitVec.eq_of_toInt_eq (y := BitVec.ofInt 32 valueObject) hobject]
    exact vectorFields_object_iff hlength
  · obtain ⟨rfl, rfl⟩ := hq
    exact vectorFields_other_iff fun htag => hobject (by rw [htag]; decide)

/-- For a class of rules : what is written is read back if it is not read as empty into a
destination that is not, and what is accepted is what is written for the result if it is well
tagged. -/
structure VectorRw (T : Type) [Parcelable T] : Prop where
  roundTrip : ∀ v : List T, (v.length : ℤ) ≤ ruleCountLimit → ∃ written,
    (∀ parcel, exec (writeVectorToParcel v) parcel = (some (), parcel ++ written)) ∧
    ∀ (prior : List T) (trailing : Parcel),
      readVectorFromParcel (written ++ trailing) prior = ((true, v), trailing) ↔
        (v = [] → prior = [])
  canonical : ∀ (parcel rest : Parcel) (prior dest : List T),
    readVectorFromParcel parcel prior = ((true, dest), rest) →
      ((∃ written, parcel = written ++ rest ∧
        ∀ p, exec (writeVectorToParcel dest) p = (some (), p ++ written)) ↔
          WellTagged prior parcel)

theorem Parcelable.Canonical.vectorRw (h : Canonical fields) : VectorRw T where
  roundTrip v hv := ⟨vectorFields fields v, writes_writeVectorToParcel h v, fun prior trailing =>
    readVectorFromParcel_vectorFields h hv prior trailing⟩
  canonical parcel rest prior dest hread := by
    rw [← readVectorFromParcel_canonical_iff h hread]
    constructor
    · rintro ⟨written, hparcel, hwrites⟩
      have heq := (hwrites []).symm.trans (writes_writeVectorToParcel h dest [])
      rw [hparcel]
      exact congrArg (· ++ rest) (Prod.mk.inj heq).2
    · exact fun hparcel => ⟨_, hparcel, writes_writeVectorToParcel h dest⟩

/-- The classes that are sent in vectors. -/
inductive RuleClass
  | sysEventRule
  | sysEventQueryRule

namespace RuleClass

/-- The rules of the class. -/
def Rule : RuleClass → Type
  | sysEventRule => SysEventRule
  | sysEventQueryRule => SysEventQueryRule

instance : ∀ ruleClass : RuleClass, Parcelable ruleClass.Rule
  | sysEventRule => inferInstanceAs (Parcelable SysEventRule)
  | sysEventQueryRule => inferInstanceAs (Parcelable SysEventQueryRule)

end RuleClass

/-- A vector of rules is read back, unless it is empty and the destination is not, and what is
accepted is what the writer writes for the result if and only if it is well tagged. -/
theorem sysEventRules_parcel : ∀ ruleClass : RuleClass, VectorRw ruleClass.Rule
  | .sysEventRule => SysEventRule.canonical.vectorRw
  | .sysEventQueryRule => SysEventQueryRule.canonical.vectorRw

/-- An empty vector leaves a rule in the destination, and an unknown tag is read as an empty
vector. -/
theorem not_sysEventRules_parcel :
    let rule : SysEventRule := ⟨[68], [69], [], 1, 0⟩
    (exec (writeVectorToParcel ([] : List SysEventRule)) []).2 = [.int32 (-1)] ∧
    readVectorFromParcel [.int32 (-1)] [rule] = ((true, [rule]), []) ∧
    readVectorFromParcel [.int32 7] ([] : List SysEventRule) = ((true, []), []) ∧
    readVectorFromParcel [.int32 1, .int32 (-5)] [rule] = ((true, []), []) ∧
    ¬∀ v prior : List SysEventRule, (v.length : ℤ) ≤ ruleCountLimit → ∀ trailing,
      readVectorFromParcel ((exec (writeVectorToParcel v) []).2 ++ trailing) prior =
        ((true, v), trailing) := by
  refine ⟨rfl, rfl, rfl, rfl, fun h => ?_⟩
  have hread := h [] [⟨[68], [69], [], 1, 0⟩] (by decide) []
  have hkept : readVectorFromParcel ((exec (writeVectorToParcel ([] : List SysEventRule)) []).2 ++
      []) [(⟨[68], [69], [], 1, 0⟩ : SysEventRule)] =
        ((true, [⟨[68], [69], [], 1, 0⟩]), []) := rfl
  rw [hkept] at hread
  simp at hread

end HiSysEvent
