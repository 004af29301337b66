import HiSysEvent.AttrValidity
import HiSysEvent.ScriptInfo

/-!
# A record for a script

A watcher of a script gets each event as an object, which `CreateHiSysEventInfoJsObject` makes of
the text of the record. The domain, the name and the type become attributes of it and all other
members become properties of its parameters : a number that has 32 bits as a number, a longer
integer as a big integer, and a value of another type is left out.

The object has a property exactly for each member that has a type or is an array, with the value
of the member (`createHiSysEventInfoJsObject_views`).
-/

namespace HiSysEvent

/-- The calls for a script, with the value of a double. -/
structure JsonCppScript extends JsonCppInt where
  asBool : Value → Option Bool
  ofDouble : Double → ℚ

namespace JsonCppScript

/-- What is documented of the types. -/
structure Typed (json : JsonCppScript) (number : json.Value → Option ℚ) : Prop where
  represents : json.Represents number
  asBool : ∀ v, json.isBool v = true → (json.asBool v).isSome
  asInt64 : ∀ v (n : ℤ), json.isInt64 v = true → number v = some (n : ℚ) →
    ∃ i, json.asInt64 v = some i ∧ i.toInt = n
  asUInt64 : ∀ v (n : ℤ), json.isUInt64 v = true → number v = some (n : ℚ) →
    ∃ i, json.asUInt64 v = some i ∧ (i.toNat : ℤ) = n
  asDouble : ∀ v q, json.type v = .realValue → number v = some q →
    ∃ d, json.asDouble v = some d ∧ json.ofDouble d = q
  intValue : ∀ v, json.type v = .intValue → json.isInt64 v = true
  uintValue : ∀ v, json.type v = .uintValue → json.isUInt64 v = true
  isDouble : ∀ v, json.isDouble v = true →
    json.type v = .intValue ∨ json.type v = .uintValue ∨ json.type v = .realValue

end JsonCppScript

namespace ScriptRecord

/-! ## Creating the object -/

abbrev domainKey : Bytes := ascii "domain_"
abbrev nameKey : Bytes := ascii "name_"
abbrev typeKey : Bytes := ascii "type_"

/-- The object with its attributes, and the properties of its parameters. -/
structure SysEventInfo where
  attrs : List (Bytes × ScriptValue)
  params : List (Bytes × ScriptValue)

/-- `SetNamedProperty`. -/
def setNamedProperty (object : List (Bytes × ScriptValue)) (propertyName : Bytes)
    (propertyValue : ScriptValue) : List (Bytes × ScriptValue) :=
  object.filter (fun property => property.1 ≠ cString propertyName) ++
    [(cString propertyName, propertyValue)]

/-- `IsBaseInfoKey`. -/
def isBaseInfoKey (propertyName : Bytes) : Bool :=
  propertyName = domainKey || propertyName = nameKey || propertyName = typeKey

/-- `TranslateKeyToAttrName`. -/
def translateKeyToAttrName (key : Bytes) : Bytes :=
  if key = domainKey then ascii "domain"
  else if key = nameKey then ascii "name"
  else if key = typeKey then ascii "eventType"
  else []

/-- `CreateStringValue`, from a C string. -/
def createStringValue (value : Bytes) : ScriptValue :=
  .string (cString value)

variable (json : JsonCppScript)

/-- `none` if a conversion throws. -/
def appendBaseInfo (attrs : List (Bytes × ScriptValue)) (key : Bytes) (value : json.Value) :
    Option (List (Bytes × ScriptValue)) :=
  if (key = domainKey ∨ key = nameKey) ∧ json.isString value then
    (json.asString value).map fun s =>
      setNamedProperty attrs (translateKeyToAttrName key) (createStringValue s)
  else if key = typeKey ∧ json.isInt value then
    (json.asInt value).map fun i =>
      setNamedProperty attrs (translateKeyToAttrName key) (.number i.toInt)
  else some attrs

/-- The value of a type that is known. -/
def createParamItemTypeValue (jsonValue : json.Value) : Option (Option ScriptValue) :=
  if json.isBool jsonValue then (json.asBool jsonValue).map fun b => some (.boolean b)
  else if json.isInt jsonValue then (json.asInt jsonValue).map fun i => some (.number i.toInt)
  else if json.isUInt jsonValue then (json.asUInt jsonValue).map fun i => some (.number i.toNat)
  else if json.isInt64 jsonValue ∧ json.type jsonValue ≠ .uintValue then
    (json.asInt64 jsonValue).map fun i => some (.bigint i.toInt)
  else if json.isUInt64 jsonValue ∧ json.type jsonValue ≠ .intValue then
    (json.asUInt64 jsonValue).map fun i => some (.bigint i.toNat)
  else if json.isDouble jsonValue then
    (json.asDouble jsonValue).map fun d => some (.number (json.ofDouble d))
  else if json.isString jsonValue then
    (json.asString jsonValue).map fun s => some (createStringValue s)
  else some none

/-- An element, which is not set if it has no type. The position is cast to an `int`. -/
def arrayItem (value : json.Value) (i : ℕ) : Option ScriptValue :=
  if i < 2 ^ 31 then
    (createParamItemTypeValue json (json.index value i)).map fun item => item.getD .undefined
  else none

/-- `AppendArrayParams`: every element in turn. -/
def appendArrayParams (params : List (Bytes × ScriptValue)) (key : Bytes) (value : json.Value) :
    Option (List (Bytes × ScriptValue)) :=
  ((List.range (json.size value).toNat).mapM (arrayItem json value)).map fun items =>
    setNamedProperty params key (.array items)

/-- `AppendParamsInfo`: one member of the record, an array or not. -/
def appendParamsInfo (params : List (Bytes × ScriptValue)) (key : Bytes) (jsonValue : json.Value) :
    Option (List (Bytes × ScriptValue)) :=
  if json.isArray jsonValue then appendArrayParams json params key jsonValue
  else (createParamItemTypeValue json jsonValue).map fun property =>
    property.elim params (setNamedProperty params key)

/-- A round of the loop over the members. -/
def memberStep (eventJson : json.Value) (info : SysEventInfo) (propertyName : Bytes) :
    Option SysEventInfo :=
  if isBaseInfoKey propertyName then
    (appendBaseInfo json info.attrs propertyName (json.get eventJson propertyName)).map
      fun attrs => { info with attrs := attrs }
  else (appendParamsInfo json info.params propertyName (json.get eventJson propertyName)).map
    fun params => { info with params := params }

/-- No object is made of a text that is refused, or is not that of an object. -/
def createHiSysEventInfoJsObject (jsonStr : Bytes) : Option (Option SysEventInfo) :=
  match json.parse jsonStr with
  | .throws => none
  | .refused => some none
  | .accepted eventJson =>
    if !json.isObject eventJson then some none
    else ((json.getMemberNames eventJson).foldlM (memberStep json eventJson) ⟨[], []⟩).map some

/-! ## What the object shows -/

variable {json} (number : json.Value → Option ℚ)

/-- A value that is created for a script. -/
def hasType (v : json.Value) : Bool :=
  json.isBool v || json.isDouble v || json.isString v

/-- The script sees the value. -/
inductive Views (number : json.Value → Option ℚ) : json.Value → ScriptValue → Prop
  | boolean {v : json.Value} {b : Bool} (hbool : json.isBool v = true)
    (hb : json.asBool v = some b) : Views number v (.boolean b)
  | number {v : json.Value} {val : ScriptValue} {q : ℚ} (hv : number v = some q)
    (hval : val.value? = some q) : Views number v val
  | string {v : json.Value} {s : Bytes} (hstring : json.isString v = true)
    (hs : json.asString v = some s) : Views number v (.string s)

/-- The script sees the elements of an array, and `undefined` for those without a type. -/
def ViewsElement (v : json.Value) (val : ScriptValue) : Prop :=
  (hasType v = true ∧ Views number v val) ∨ (hasType v = false ∧ val = .undefined)

/-- The script sees a member as a property. -/
def ViewsMember (v : json.Value) (val : ScriptValue) : Prop :=
  if json.isArray v then
    ∃ items, val = .array items ∧ List.Forall₂ (ViewsElement number) (json.elements v) items
  else Views number v val

/-- No string has a NUL. -/
def NulFree (v : json.Value) : Prop :=
  json.isString v = true → ∀ s, json.asString v = some s → 0 ∉ s

/-! ## A value -/

section

variable {number} (h : json.Typed number)

include h

/-- A longer integer that is not taken as a signed one is taken as an unsigned one. -/
theorem isReal_of_isDouble {v : json.Value} (hdouble : json.isDouble v = true)
    (hint : ¬(json.isInt64 v = true ∧ json.type v ≠ .uintValue))
    (huint : ¬(json.isUInt64 v = true ∧ json.type v ≠ .intValue)) : json.type v = .realValue := by
  rcases h.isDouble v hdouble with htype | htype | htype
  · exact absurd ⟨h.intValue v htype, by rw [htype]; decide⟩ hint
  · exact absurd ⟨h.uintValue v htype, by rw [htype]; decide⟩ huint
  · exact htype

/-- A value with a type is created, and shows the value. -/
theorem createParamItemTypeValue_spec {v : json.Value} (h0 : NulFree v) :
    ∃ item, createParamItemTypeValue json v = some item ∧
      ((item = none ∧ hasType v = false) ∨
        ∃ val, item = some val ∧ hasType v = true ∧ Views number v val) := by
  have hr := h.represents
  have hnumber : ∀ n : ℤ, number v = some (n : ℚ) → hasType v = true := fun n hn => by
    rw [hasType, (hr.isDouble_iff v).2 ⟨n, hn⟩, Bool.or_true, Bool.true_or]
  rw [createParamItemTypeValue]
  split_ifs with hbool hint huint hint64 huint64 hdouble hstring
  · obtain ⟨b, hb⟩ := Option.isSome_iff_exists.1 (h.asBool v hbool)
    have htype : hasType v = true := by rw [hasType, hbool, Bool.true_or, Bool.true_or]
    exact ⟨_, by rw [hb, Option.map_some], Or.inr ⟨_, rfl, htype, .boolean hbool hb⟩⟩
  · obtain ⟨n, hn, -⟩ := (hr.isInt_iff v).1 hint
    obtain ⟨i, hi, hval⟩ := hr.asInt v n hint hn
    refine ⟨_, by rw [hi, Option.map_some], Or.inr ⟨_, rfl, hnumber n hn, ?_⟩⟩
    exact .number hn (by rw [ScriptValue.value?, hval])
  · obtain ⟨n, hn, -⟩ := (hr.isUInt_iff v).1 huint
    obtain ⟨i, hi, hval⟩ := hr.asUInt v n huint hn
    refine ⟨_, by rw [hi, Option.map_some], Or.inr ⟨_, rfl, hnumber n hn, ?_⟩⟩
    exact .number hn (by rw [ScriptValue.value?, ← hval, Int.cast_natCast])
  · obtain ⟨n, hn, -⟩ := (hr.isInt64_iff v).1 hint64.1
    obtain ⟨i, hi, hval⟩ := h.asInt64 v n hint64.1 hn
    refine ⟨_, by rw [hi, Option.map_some], Or.inr ⟨_, rfl, hnumber n hn, ?_⟩⟩
    exact .number hn (by rw [ScriptValue.value?, hval])
  · obtain ⟨n, hn, -⟩ := (hr.isUInt64_iff v).1 huint64.1
    obtain ⟨i, hi, hval⟩ := h.asUInt64 v n huint64.1 hn
    refine ⟨_, by rw [hi, Option.map_some], Or.inr ⟨_, rfl, hnumber n hn, ?_⟩⟩
    exact .number hn (by rw [ScriptValue.value?, hval])
  · obtain ⟨q, hq⟩ := (hr.isDouble_iff v).1 hdouble
    obtain ⟨d, hd, hval⟩ := h.asDouble v q (isReal_of_isDouble h hdouble hint64 huint64) hq
    have htype : hasType v = true := by rw [hasType, hdouble, Bool.or_true, Bool.true_or]
    refine ⟨_, by rw [hd, Option.map_some], Or.inr ⟨_, rfl, htype, ?_⟩⟩
    exact .number hq (by rw [ScriptValue.value?, hval])
  · obtain ⟨s, hs⟩ := Option.isSome_iff_exists.1 (hr.asString v hstring)
    have htype : hasType v = true := by rw [hasType, hstring, Bool.or_true]
    refine ⟨_, by rw [hs, Option.map_some], Or.inr ⟨_, rfl, htype, ?_⟩⟩
    rw [createStringValue, cString_eq_self (h0 hstring s hs)]
    exact .string hstring hs
  · have htype : hasType v = false := by simp [hasType, hbool, hdouble, hstring]
    exact ⟨none, rfl, Or.inl ⟨rfl, htype⟩⟩

omit h in
theorem mapM_forall₂ {α β : Type} {f : α → Option β} {R : α → β → Prop} : ∀ {l : List α},
    (∀ a ∈ l, ∃ b, f a = some b ∧ R a b) → ∃ bs, l.mapM f = some bs ∧ List.Forall₂ R l bs
  | [], _ => ⟨[], rfl, .nil⟩
  | a :: l, hl => by
    obtain ⟨b, hb, hab⟩ := hl a List.mem_cons_self
    obtain ⟨bs, hbs, hall⟩ := mapM_forall₂ fun x hx => hl x (List.mem_cons_of_mem a hx)
    exact ⟨b :: bs, by rw [List.mapM_cons, hb, hbs]; rfl, .cons hab hall⟩

omit h in
theorem forall₂_mem_right {α β : Type} {R : α → β → Prop} : ∀ {l : List α} {l' : List β},
    List.Forall₂ R l l' → ∀ {b : β}, b ∈ l' → ∃ a ∈ l, R a b
  | _, _, .cons hab hall, b, hb => by
    rcases List.mem_cons.1 hb with rfl | hb
    · exact ⟨_, List.mem_cons_self, hab⟩
    · obtain ⟨a, ha, hR⟩ := forall₂_mem_right hall hb
      exact ⟨a, List.mem_cons_of_mem _ ha, hR⟩

/-- Each element is created, or left `undefined`. -/
theorem mapM_arrayItem {v : json.Value} (h0 : ∀ e ∈ json.elements v, NulFree e)
    (hsize : (json.size v).toNat ≤ 2 ^ 31) :
    ∃ items, (List.range (json.size v).toNat).mapM (arrayItem json v) = some items ∧
      List.Forall₂ (ViewsElement number) (json.elements v) items := by
  have hitem : ∀ i ∈ List.range (json.size v).toNat, ∃ item, arrayItem json v i = some item ∧
      ViewsElement number (json.index v i) item := fun i hi => by
    have hlt := List.mem_range.1 hi
    obtain ⟨item, hcreate, hcases⟩ :=
      createParamItemTypeValue_spec h (h0 (json.index v i) (List.mem_map_of_mem hi))
    refine ⟨item.getD .undefined, ?_, ?_⟩
    · rw [arrayItem, if_pos (hlt.trans_le hsize), hcreate, Option.map_some]
    · rcases hcases with ⟨rfl, htype⟩ | ⟨val, rfl, htype, hviews⟩
      · exact Or.inr ⟨htype, rfl⟩
      · exact Or.inl ⟨htype, hviews⟩
  obtain ⟨items, hitems, hall⟩ := mapM_forall₂ hitem
  exact ⟨items, hitems, List.forall₂_map_left_iff.2 hall⟩

/-! ## A record -/

/-- A member that becomes an attribute. -/
def isAttr (json : JsonCppScript) (eventJson : json.Value) (key : Bytes) : Bool :=
  ((key = domainKey || key = nameKey) && json.isString (json.get eventJson key)) ||
    (key = typeKey && json.isInt (json.get eventJson key))

/-- A member that becomes a property of the parameters. -/
def isParam (json : JsonCppScript) (eventJson : json.Value) (key : Bytes) : Bool :=
  !isBaseInfoKey key &&
    (json.isArray (json.get eventJson key) || hasType (json.get eventJson key))

/-- A value without a NUL in its strings, and with positions that are of type `int`. -/
structure Creatable (v : json.Value) : Prop where
  nulFree : NulFree v
  elements : ∀ e ∈ json.elements v, NulFree e
  size : (json.size v).toNat ≤ 2 ^ 31

/-- The attribute of a member. -/
def AttrOf (number : json.Value → Option ℚ) (eventJson : json.Value) (key : Bytes)
    (attr : Bytes × ScriptValue) : Prop :=
  attr.1 = translateKeyToAttrName key ∧ Views number (json.get eventJson key) attr.2

/-- The property of a member. -/
def ParamOf (number : json.Value → Option ℚ) (eventJson : json.Value) (key : Bytes)
    (param : Bytes × ScriptValue) : Prop :=
  param.1 = key ∧ ViewsMember number (json.get eventJson key) param.2

omit h in
theorem setNamedProperty_eq {object : List (Bytes × ScriptValue)} {key : Bytes} (h0 : 0 ∉ key)
    (hfresh : ∀ property ∈ object, property.1 ≠ key) (val : ScriptValue) :
    setNamedProperty object key val = object ++ [(key, val)] := by
  have hfilter : object.filter (fun property => property.1 ≠ key) = object :=
    List.filter_eq_self.2 fun property hmem => decide_eq_true (hfresh property hmem)
  rw [setNamedProperty, cString_eq_self h0, hfilter]

omit h in
theorem not_mem_zero_translate (key : Bytes) : 0 ∉ translateKeyToAttrName key := by
  rw [translateKeyToAttrName]
  split_ifs <;> decide

theorem appendBaseInfo_spec {eventJson : json.Value} {attrs : List (Bytes × ScriptValue)}
    {key : Bytes} (hv : Creatable (json.get eventJson key))
    (hfresh : ∀ attr ∈ attrs, attr.1 ≠ translateKeyToAttrName key) :
    ∃ new, appendBaseInfo json attrs key (json.get eventJson key) = some (attrs ++ new) ∧
      List.Forall₂ (AttrOf number eventJson) ([key].filter (isAttr json eventJson)) new := by
  have hr := h.represents
  have hset := setNamedProperty_eq (not_mem_zero_translate key) hfresh
  rw [appendBaseInfo]
  split_ifs with hname htype
  · obtain ⟨s, hs⟩ := Option.isSome_iff_exists.1 (hr.asString _ hname.2)
    have hattr : isAttr json eventJson key = true := by simp [isAttr, hname]
    refine ⟨[(translateKeyToAttrName key, .string s)], ?_, ?_⟩
    · rw [hs, Option.map_some, createStringValue, cString_eq_self (hv.nulFree hname.2 s hs), hset]
    · rw [List.filter_cons_of_pos hattr]
      exact .cons ⟨rfl, .string hname.2 hs⟩ .nil
  · obtain ⟨n, hn, -⟩ := (hr.isInt_iff _).1 htype.2
    obtain ⟨i, hi, hval⟩ := hr.asInt _ n htype.2 hn
    have hattr : isAttr json eventJson key = true := by
      rw [isAttr, htype.2, decide_eq_true htype.1, Bool.and_self, Bool.or_true]
    refine ⟨[(translateKeyToAttrName key, .number i.toInt)], ?_, ?_⟩
    · rw [hi, Option.map_some, hset]
    · rw [List.filter_cons_of_pos hattr]
      exact .cons ⟨rfl, .number hn (by rw [ScriptValue.value?, hval])⟩ .nil
  · have hattr : ¬isAttr json eventJson key = true := by
      simp only [isAttr, Bool.or_eq_true, Bool.and_eq_true, decide_eq_true_eq, not_or]
      exact ⟨hname, htype⟩
    refine ⟨[], by rw [List.append_nil], ?_⟩
    rw [List.filter_cons_of_neg hattr]
    exact .nil

theorem appendParamsInfo_spec {eventJson : json.Value} {params : List (Bytes × ScriptValue)}
    {key : Bytes} (h0 : 0 ∉ key) (hbase : isBaseInfoKey key = false)
    (hv : Creatable (json.get eventJson key)) (hfresh : ∀ param ∈ params, param.1 ≠ key) :
    ∃ new, appendParamsInfo json params key (json.get eventJson key) = some (params ++ new) ∧
      List.Forall₂ (ParamOf number eventJson) ([key].filter (isParam json eventJson)) new := by
  have hset := setNamedProperty_eq h0 hfresh
  rw [appendParamsInfo]
  split_ifs with harray
  · obtain ⟨items, hitems, hall⟩ := mapM_arrayItem h hv.elements hv.size
    have hparam : isParam json eventJson key = true := by
      rw [isParam, hbase, harray, Bool.true_or]
      rfl
    refine ⟨[(key, .array items)], ?_, ?_⟩
    · rw [appendArrayParams, hitems, Option.map_some, hset]
    · rw [List.filter_cons_of_pos hparam]
      exact .cons ⟨rfl, by rw [ViewsMember, if_pos harray]; exact ⟨items, rfl, hall⟩⟩ .nil
  · obtain ⟨item, hcreate, hcases⟩ := createParamItemTypeValue_spec h hv.nulFree
    rw [Bool.not_eq_true] at harray
    rcases hcases with ⟨rfl, htype⟩ | ⟨val, rfl, htype, hviews⟩
    · have hparam : ¬isParam json eventJson key = true := by
        rw [isParam, harray, htype, Bool.or_false, Bool.and_false]
        exact Bool.false_ne_true
      refine ⟨[], by rw [hcreate, Option.map_some, Option.elim_none, List.append_nil], ?_⟩
      rw [List.filter_cons_of_neg hparam]
      exact .nil
    · have hparam : isParam json eventJson key = true := by
        rw [isParam, hbase, htype, Bool.or_true]
        rfl
      refine ⟨[(key, val)], by rw [hcreate, Option.map_some, Option.elim_some, hset], ?_⟩
      rw [List.filter_cons_of_pos hparam]
      refine .cons ⟨rfl, ?_⟩ .nil
      rw [ViewsMember, harray, if_neg Bool.false_ne_true]
      exact hviews

omit h in
theorem isBaseInfoKey_iff {key : Bytes} :
    isBaseInfoKey key = true ↔ key = domainKey ∨ key = nameKey ∨ key = typeKey := by
  rw [isBaseInfoKey, Bool.or_eq_true, Bool.or_eq_true, decide_eq_true_iff, decide_eq_true_iff,
    decide_eq_true_iff, or_assoc]

omit h in
theorem translateKeyToAttrName_injective {key key' : Bytes} (hkey : isBaseInfoKey key = true)
    (hkey' : isBaseInfoKey key' = true)
    (heq : translateKeyToAttrName key = translateKeyToAttrName key') : key = key' := by
  rcases isBaseInfoKey_iff.1 hkey with rfl | rfl | rfl
  all_goals
    rcases isBaseInfoKey_iff.1 hkey' with rfl | rfl | rfl
    all_goals first | rfl | exact absurd heq (by decide)

/-- The object between two rounds, before the members of `rest`. -/
structure Fresh (rest : List Bytes) (info : SysEventInfo) : Prop where
  attrs : ∀ attr ∈ info.attrs, ∀ key ∈ rest, isBaseInfoKey key = true →
    attr.1 ≠ translateKeyToAttrName key
  params : ∀ param ∈ info.params, param.1 ∉ rest

/-- A member adds its attribute or its property, if it has one. -/
theorem memberStep_spec {eventJson : json.Value} {key : Bytes} {rest : List Bytes}
    {info : SysEventInfo} (h0 : 0 ∉ key) (hv : Creatable (json.get eventJson key))
    (hfresh : Fresh (key :: rest) info) (hnodup : key ∉ rest) :
    ∃ attrs params, memberStep json eventJson info key =
        some ⟨info.attrs ++ attrs, info.params ++ params⟩ ∧
      Fresh rest ⟨info.attrs ++ attrs, info.params ++ params⟩ ∧
      List.Forall₂ (AttrOf number eventJson) ([key].filter (isAttr json eventJson)) attrs ∧
      List.Forall₂ (ParamOf number eventJson) ([key].filter (isParam json eventJson)) params := by
  have hattrs : ∀ attr ∈ info.attrs, ∀ key' ∈ rest, isBaseInfoKey key' = true →
      attr.1 ≠ translateKeyToAttrName key' := fun attr hattr key' hkey' =>
    hfresh.attrs attr hattr key' (List.mem_cons_of_mem key hkey')
  have hparams : ∀ param ∈ info.params, param.1 ∉ rest := fun param hparam hmem =>
    hfresh.params param hparam (List.mem_cons_of_mem key hmem)
  rw [memberStep]
  split_ifs with hbase
  · have hnotParam : ¬isParam json eventJson key = true := by simp [isParam, hbase]
    obtain ⟨new, hnew, hall⟩ := appendBaseInfo_spec h hv fun attr hattr =>
      hfresh.attrs attr hattr key List.mem_cons_self hbase
    refine ⟨new, [], by rw [hnew, Option.map_some, List.append_nil], ⟨?_, ?_⟩, hall, ?_⟩
    · intro attr hattr key' hkey' hbase' heq
      rcases List.mem_append.1 hattr with hold | hadded
      · exact hattrs attr hold key' hkey' hbase' heq
      · obtain ⟨key'', hkey'', hname, -⟩ := forall₂_mem_right hall hadded
        rw [List.mem_singleton.1 (List.mem_of_mem_filter hkey'')] at hname
        have hsame := translateKeyToAttrName_injective hbase hbase' (hname.symm.trans heq)
        exact hnodup (hsame ▸ hkey')
    · rw [List.append_nil]
      exact hparams
    · rw [List.filter_cons_of_neg hnotParam]
      exact .nil
  · rw [Bool.not_eq_true] at hbase
    have hnotAttr : ¬isAttr json eventJson key = true := fun hattr => by
      have hkey : isBaseInfoKey key = true := isBaseInfoKey_iff.2 (by
        simp only [isAttr, Bool.or_eq_true, Bool.and_eq_true, decide_eq_true_eq] at hattr
        tauto)
      exact Bool.false_ne_true (hbase.symm.trans hkey)
    obtain ⟨new, hnew, hall⟩ := appendParamsInfo_spec h h0 hbase hv fun param hparam heq =>
      hfresh.params param hparam (heq ▸ List.mem_cons_self)
    refine ⟨[], new, by rw [hnew, Option.map_some, List.append_nil], ⟨?_, ?_⟩, ?_, hall⟩
    · rw [List.append_nil]
      exact hattrs
    · intro param hparam hmem
      rcases List.mem_append.1 hparam with hold | hadded
      · exact hparams param hold hmem
      · obtain ⟨key', hkey', hname, -⟩ := forall₂_mem_right hall hadded
        rw [List.mem_singleton.1 (List.mem_of_mem_filter hkey')] at hname
        exact hnodup (hname ▸ hmem)
    · rw [List.filter_cons_of_neg hnotAttr]
      exact .nil

/-- The members add their attributes and properties in order. -/
theorem foldlM_memberStep {eventJson : json.Value} : ∀ {keys : List Bytes} {info : SysEventInfo},
    keys.Nodup → (∀ key ∈ keys, 0 ∉ key ∧ Creatable (json.get eventJson key)) →
    Fresh keys info →
    ∃ attrs params, keys.foldlM (memberStep json eventJson) info =
        some ⟨info.attrs ++ attrs, info.params ++ params⟩ ∧
      List.Forall₂ (AttrOf number eventJson) (keys.filter (isAttr json eventJson)) attrs ∧
      List.Forall₂ (ParamOf number eventJson) (keys.filter (isParam json eventJson)) params
  | [], info, _, _, _ => ⟨[], [], by simp, .nil, .nil⟩
  | key :: keys, info, hnodup, hkeys, hfresh => by
    obtain ⟨hnot, hrest⟩ := List.nodup_cons.1 hnodup
    obtain ⟨h0, hv⟩ := hkeys key List.mem_cons_self
    obtain ⟨attrs, params, hstep, hfresh', hattrs, hparams⟩ :=
      memberStep_spec h h0 hv hfresh hnot
    obtain ⟨attrs', params', hfold, hattrs', hparams'⟩ := foldlM_memberStep hrest
      (fun x hx => hkeys x (List.mem_cons_of_mem key hx)) hfresh'
    refine ⟨attrs ++ attrs', params ++ params', ?_, ?_, ?_⟩
    · rw [List.foldlM_cons, hstep, ← List.append_assoc, ← List.append_assoc]
      exact hfold
    · rw [← List.singleton_append, List.filter_append]
      exact List.rel_append hattrs hattrs'
    · rw [← List.singleton_append, List.filter_append]
      exact List.rel_append hparams hparams'

/-- Of a record without NULs, the domain, the name and the type become attributes if they have the
type of the attribute, and every other member that has a type or is an array becomes a property of
the parameters, in the order of the members. The script sees the values of the members. -/
theorem createHiSysEventInfoJsObject_views {jsonStr : Bytes} {eventJson : json.Value}
    (hparse : json.parse jsonStr = .accepted eventJson) (hobject : json.isObject eventJson = true)
    (hnodup : (json.getMemberNames eventJson).Nodup)
    (hmembers : ∀ key ∈ json.getMemberNames eventJson,
      0 ∉ key ∧ Creatable (json.get eventJson key)) :
    ∃ info, createHiSysEventInfoJsObject json jsonStr = some (some info) ∧
      List.Forall₂ (AttrOf number eventJson)
        ((json.getMemberNames eventJson).filter (isAttr json eventJson)) info.attrs ∧
      List.Forall₂ (ParamOf number eventJson)
        ((json.getMemberNames eventJson).filter (isParam json eventJson)) info.params := by
  have hfresh : Fresh (json.getMemberNames eventJson) ⟨[], []⟩ :=
    ⟨fun attr hattr => absurd hattr List.not_mem_nil,
      fun param hparam => absurd hparam List.not_mem_nil⟩
  obtain ⟨attrs, params, hfold, hattrs, hparams⟩ := foldlM_memberStep h hnodup hmembers hfresh
  refine ⟨⟨attrs, params⟩, ?_, hattrs, hparams⟩
  rw [createHiSysEventInfoJsObject, hparse]
  dsimp only
  rw [hobject, if_neg (by decide), hfold]
  rfl

end

/-! ## A record of a reference -/

open JsonCpp
open AttrValidity (referenceInt referenceNumber referenceNumber_iff represents_referenceInt)

/-- The text of a record with an array of mixed elements. -/
def recordText : Bytes :=
  [123] ++ ascii "\"domain_\":\"D\",\"type_\":1,\"A\":[5,null]" ++ [125]

/-- What jsoncpp makes of it. -/
def recordJson : Reference :=
  .object [(domainKey, .string [68]), (typeKey, .int 1), ([65], .array [.int 5, .null])]

/-- The reference, which reads this text. -/
def scriptReference : JsonCppScript :=
  { referenceInt with
    parse := fun text => if text = recordText then .accepted recordJson else .refused
    asBool := fun
      | .boolean b => some b
      | _ => none
    ofDouble := fun n : ℤ => n }

theorem typed_scriptReference : scriptReference.Typed referenceNumber where
  represents :=
    { isInt_iff := represents_referenceInt.isInt_iff
      isUInt_iff := represents_referenceInt.isUInt_iff
      isInt64_iff := represents_referenceInt.isInt64_iff
      isUInt64_iff := represents_referenceInt.isUInt64_iff
      isDouble_iff := represents_referenceInt.isDouble_iff
      asInt := represents_referenceInt.asInt
      asUInt := represents_referenceInt.asUInt
      asString := represents_referenceInt.asString
      null := represents_referenceInt.null
      index := represents_referenceInt.index }
  asBool v hv := by
    have htype : Reference.type v = .booleanValue := of_decide_eq_true hv
    cases v <;> cases htype
    rfl
  asInt64 v n hv hn := by
    obtain ⟨m, rfl, rfl⟩ := referenceNumber_iff.1 hn
    exact ⟨m, rfl, rfl⟩
  asUInt64 v n hv hn := by
    obtain ⟨m, rfl, rfl⟩ := referenceNumber_iff.1 hn
    have hnonneg : 0 ≤ m := of_decide_eq_true hv
    refine ⟨m.toUInt64, if_pos hnonneg, ?_⟩
    have hcond := BitVec.toInt_eq_toNat_cond m.toBitVec
    have hlt := m.toBitVec.isLt
    have hint : 0 ≤ m.toBitVec.toInt := Int64.le_iff_toInt_le.1 hnonneg
    change ((m.toBitVec.toNat : ℕ) : ℤ) = m.toBitVec.toInt
    omega
  asDouble v q hv hq := by
    cases v <;> cases hv
  intValue v hv := decide_eq_true hv
  uintValue v hv := by
    cases v <;> cases hv
  isDouble v hv := Or.inl (of_decide_eq_true hv)

theorem createHiSysEventInfoJsObject_views_record :
    ∃ info, createHiSysEventInfoJsObject scriptReference recordText = some (some info) ∧
      List.Forall₂ (@AttrOf scriptReference referenceNumber recordJson)
        ((scriptReference.getMemberNames recordJson).filter (isAttr scriptReference recordJson))
        info.attrs ∧
      List.Forall₂ (@ParamOf scriptReference referenceNumber recordJson)
        ((scriptReference.getMemberNames recordJson).filter (isParam scriptReference recordJson))
        info.params := by
  have hparse : scriptReference.parse recordText = .accepted recordJson := by
    have hif : (if recordText = recordText then Parsed.accepted recordJson else .refused) =
      .accepted recordJson := if_pos rfl
    exact hif
  refine createHiSysEventInfoJsObject_views typed_scriptReference hparse rfl (by decide) ?_
  intro key hkey
  have hkey : key = domainKey ∨ key = typeKey ∨ key = [65] := by
    simpa [scriptReference, recordJson, referenceInt, reference, Reference.members] using hkey
  have hother : ∀ v : Reference, Reference.type v ≠ .stringValue → @NulFree scriptReference v :=
    fun v hv hstring => absurd (of_decide_eq_true hstring) hv
  rcases hkey with rfl | rfl | rfl
  · refine ⟨by decide, ?_, fun e he => absurd he List.not_mem_nil, by decide⟩
    rintro - s hs
    cases hs
    decide
  · exact ⟨by decide, hother (.int 1) (by decide), fun e he => absurd he List.not_mem_nil, by decide⟩
  · refine ⟨by decide, hother (.array [.int 5, .null]) (by decide), fun e he => ?_, by decide⟩
    have he : e ∈ [Reference.int 5, Reference.null] := he
    rcases List.mem_cons.1 he with rfl | he
    · exact hother (.int 5) (by decide)
    · exact List.mem_singleton.1 he ▸ hother .null (by decide)

end ScriptRecord

end HiSysEvent
