import HiSysEvent.FlatObject

/-!
# Highlighting the members of an event

`HiSysEventJsonDecorator` prints the JSON text of an event with its invalid names and values
in colour. It scans the text with `JsonFlattenParser` and prints every pair anew, without
the white space.

The colours are two escape sequences. Without them (`strip`) the output for any marks is
the object of the input, member for member, if and only if all values of the object are
flat (`scannedRight_iff`).
-/

namespace HiSysEvent

open Wire JsonText While

/-- The verdict on a member. -/
inductive Validity
  | keyInvalid
  | valueInvalid
  | kvBothValid
  deriving DecidableEq

namespace HiSysEventJsonDecorator

open JsonFlattenParser

/-- `\033[31m`. -/
def decoratePrefix : Bytes :=
  [27, 91, 51, 49, 109]

/-- `\033[0m`. -/
def decorateSuffix : Bytes :=
  [27, 91, 48, 109]

/-- The marks of names. -/
abbrev DecorateMarks := List (Bytes × Validity)

/-- `Decorate`, which puts the key or the value between the colour and its end. -/
def decorate (validity : Validity) (key value : Bytes) : Bytes :=
  match validity with
  | .keyInvalid => [34] ++ decoratePrefix ++ key ++ decorateSuffix ++ [34, 58] ++ value
  | .valueInvalid => [34] ++ key ++ [34, 58] ++ decoratePrefix ++ value ++ decorateSuffix
  | .kvBothValid => [34] ++ key ++ [34, 58] ++ value

/-- What `DecorateJsonStr` prints a pair with. -/
def handler (marks : DecorateMarks) (kv : KV) : Bytes × KV :=
  (decorate ((marks.lookup kv.1).getD .kvBothValid) kv.1 kv.2, kv)

/-- `DecorateJsonStr`, `none` if the scan does not end in `fuel` rounds of each loop. -/
def decorateJsonStr (fuel : ℕ) (origin : Bytes) (marks : DecorateMarks) : Option Bytes :=
  if marks.isEmpty then some origin
  else ((parse fuel origin).run {}).map fun r => (r.2.print (handler marks)).1

/-! ## Without the colours -/

/-- Remove the two colour sequences. -/
def strip : Bytes → Bytes
  | 27 :: 91 :: 51 :: 49 :: 109 :: rest => strip rest
  | 27 :: 91 :: 48 :: 109 :: rest => strip rest
  | c :: rest => c :: strip rest
  | [] => []

theorem strip_prefix (rest : Bytes) : strip (decoratePrefix ++ rest) = strip rest := by
  simp only [decoratePrefix, List.cons_append, List.nil_append, strip]

theorem strip_suffix (rest : Bytes) : strip (decorateSuffix ++ rest) = strip rest := by
  simp only [decorateSuffix, List.cons_append, List.nil_append, strip]

theorem strip_cons {c : UInt8} (hc : c ≠ 27) (rest : Bytes) : strip (c :: rest) = c :: strip rest := by
  rw [strip]
  · rintro _ rfl
    exact absurd rfl hc
  · rintro _ rfl
    exact absurd rfl hc

theorem strip_append : ∀ {bs : Bytes}, 27 ∉ bs → ∀ rest, strip (bs ++ rest) = bs ++ strip rest
  | [], _, rest => rfl
  | c :: bs, h, rest => by
    rw [List.mem_cons, not_or] at h
    rw [List.cons_append, strip_cons (Ne.symm h.1), strip_append h.2, List.cons_append]

theorem strip_eq {bs : Bytes} (h : 27 ∉ bs) : strip bs = bs := by
  have := strip_append h []
  rwa [List.append_nil, strip, List.append_nil] at this

/-- A pair without marks. -/
def printed (kv : KV) : Bytes :=
  decorate .kvBothValid kv.1 kv.2

/-- The colours are all that the marks add. -/
theorem strip_decorate {key value : Bytes} (hkey : 27 ∉ key) (hvalue : 27 ∉ value)
    (validity : Validity) (rest : Bytes) :
    strip (decorate validity key value ++ rest) = printed (key, value) ++ strip rest := by
  have h1 : (27 : UInt8) ∉ ([34] : Bytes) := by decide
  have h2 : (27 : UInt8) ∉ ([34, 58] : Bytes) := by decide
  cases validity with
  | keyInvalid =>
    simp only [decorate, printed, List.append_assoc, strip_append h1, strip_prefix, strip_append hkey,
      strip_suffix, strip_append h2, strip_append hvalue]
  | valueInvalid =>
    simp only [decorate, printed, List.append_assoc, strip_append h1, strip_prefix, strip_append hkey,
      strip_suffix, strip_append h2, strip_append hvalue]
  | kvBothValid =>
    simp only [decorate, printed, List.append_assoc, strip_append h1, strip_append hkey,
      strip_append h2, strip_append hvalue]

/-- The printed pairs without the colours. -/
theorem strip_printKvs (marks : DecorateMarks) : ∀ {kvs : List KV},
    (∀ kv ∈ kvs, 27 ∉ kv.1 ∧ 27 ∉ kv.2) → ∀ rest,
    strip (printKvs (handler marks) kvs ++ rest) =
      joined (kvs.map printed) ++ strip rest
  | [], _, rest => rfl
  | [kv], h, rest => by
    have hkv := h kv List.mem_cons_self
    rw [printKvs, handler, strip_decorate hkv.1 hkv.2]
    rfl
  | kv :: kv' :: kvs, h, rest => by
    have hkv := h kv List.mem_cons_self
    have ih := strip_printKvs marks (fun x hx => h x (List.mem_cons_of_mem kv hx)) rest
    have hjoin : joined ((kv :: kv' :: kvs).map printed) =
        printed kv ++ 44 :: joined ((kv' :: kvs).map printed) := rfl
    rw [printKvs, handler, List.append_assoc, List.append_assoc, strip_decorate hkv.1 hkv.2,
      strip_append (by decide), ih, hjoin, List.append_assoc]
    · rfl
    · exact List.cons_ne_nil _ _

/-! ## The same object -/

/-- A member without white space. -/
def compactMember (m : Member Value) : Member Value :=
  ⟨.empty, m.name, .empty, .empty, m.value, .empty⟩

/-- An object without white space. -/
def compact (o : Obj) : Obj :=
  ⟨.empty, .empty, o.members.map compactMember, .empty⟩

theorem memberText_compact (m : Member Value) :
    memberText (compactMember m) = printed (m.name.content, m.value.text) := by
  simp [compactMember, memberText, Member.head, Str.text, Ws.empty, printed, decorate]

theorem memberTexts_compact : ∀ ms : List (Member Value),
    memberTexts (ms.map compactMember) =
      (ms.map fun m => (m.name.content, m.value.text)).map printed
  | [] => rfl
  | m :: ms => by
    rw [List.map_cons, memberTexts, memberText_compact, memberTexts_compact ms]
    rfl

theorem text_compact (o : Obj) : (compact o).text = [123] ++ joined (o.pairs.map printed) ++ [125] := by
  simp [Obj.text, compact, Value.text, Ws.empty, memberTexts_compact, Obj.pairs]

theorem pairs_compact (o : Obj) : (compact o).pairs = o.pairs := by
  simp [compact, Obj.pairs, compactMember, Function.comp_def]

/-- No JSON text holds an escape byte. -/
theorem escape_not_mem_text (v : Value) : 27 ∉ v.text := by
  intro h
  rcases v.mem_text h with hws | hle
  · exact absurd hws (by decide)
  · exact absurd hle (by decide)

theorem escape_not_mem_ws (ws : Ws) : 27 ∉ ws.1 := by
  intro h
  exact absurd (ws.2 27 h) (by decide)

theorem escape_not_mem_obj (o : Obj) : 27 ∉ o.text := by
  simp only [Obj.text, List.mem_append, not_or]
  exact ⟨⟨escape_not_mem_ws o.before, escape_not_mem_text _⟩, escape_not_mem_ws o.after⟩

theorem escape_not_mem_pairs (o : Obj) : ∀ kv ∈ o.pairs, 27 ∉ kv.1 ∧ 27 ∉ kv.2 := by
  intro kv hkv
  obtain ⟨m, -, rfl⟩ := List.mem_map.1 hkv
  refine ⟨fun h => ?_, escape_not_mem_text m.value⟩
  exact absurd (Str.mem_content h) (by decide)

/-- With the members scanned right, the output without the colours is the same object. -/
theorem shows_decorateJsonStr {o : Obj} {fuel : ℕ} (hfuel : o.text.length < fuel)
    (hscan : scan o.text = o.pairs) (marks : DecorateMarks) :
    ∃ out, decorateJsonStr fuel o.text marks = some out ∧ Shows (strip out) o.pairs := by
  unfold decorateJsonStr
  by_cases hm : marks.isEmpty
  · exact ⟨o.text, if_pos hm, o, (strip_eq (escape_not_mem_obj o)).symm, rfl⟩
  · obtain ⟨⟨⟩, p', hrun, hkv, -⟩ := ends_parse o.text {} hfuel
    refine ⟨(p'.print (handler marks)).1, by rw [if_neg hm, hrun]; rfl, compact o, ?_,
      pairs_compact o⟩
    have hprint := strip_printKvs marks (escape_not_mem_pairs o) [125]
    have h123 : (27 : UInt8) ∉ ([123] : Bytes) := by decide
    have h125 : (27 : UInt8) ∉ ([125] : Bytes) := by decide
    rw [text_compact, print, hkv, hscan]
    simp only [List.append_assoc]
    rw [strip_append h123, hprint, strip_eq h125]

/-- What `parse` and `decorateJsonStr` are for : the pairs are the members, and the output without
the colours is the same object. -/
def ScannedRight (o : Obj) : Prop :=
  ∀ fuel, o.text.length < fuel →
    (∀ p, ∃ p', (parse fuel o.text).run p = some ((), p') ∧ p'.kvList = o.pairs) ∧
    ∀ marks, ∃ out, decorateJsonStr fuel o.text marks = some out ∧ Shows (strip out) o.pairs

/-- The members of an object are found, and printed again under any marks, if and only if all
values are flat. -/
theorem scannedRight_iff {o : Obj}
    (hname : ∀ m ∈ o.members, 34 ∉ m.name.content ∧ 92 ∉ m.name.content) :
    ScannedRight o ↔ ∀ m ∈ o.members, Flat m.value := by
  rw [← scan_eq_pairs_iff fun m hm => (hname m hm).1]
  constructor
  · intro h
    obtain ⟨p', hrun, hkv⟩ := (h (o.text.length + 1) (Nat.lt_succ_self _)).1 {}
    obtain ⟨⟨⟩, p'', hrun', hkv', -⟩ := ends_parse o.text {} (Nat.lt_succ_self _)
    rw [hrun] at hrun'
    cases hrun'
    rw [← hkv', hkv]
  · intro hscan fuel hfuel
    refine ⟨fun p => ?_, shows_decorateJsonStr hfuel hscan⟩
    obtain ⟨⟨⟩, p', hrun, hkv, -⟩ := ends_parse o.text p hfuel
    exact ⟨p', hrun, hkv.trans hscan⟩

/-- `"a"` and `"b"`. -/
def nameA : Str :=
  [.plain ⟨97, by decide⟩]

/-- The name `b`. -/
def nameB : Str :=
  [.plain ⟨98, by decide⟩]

/-- `1`. -/
def one : Number :=
  ⟨false, ⟨[49], by decide +kernel⟩, none, none, by decide⟩

/-- A member without blanks. -/
def memberOf (name : Str) (value : Value) : Member Value :=
  ⟨.empty, name, .empty, .empty, value, .empty⟩

/-- `{"a":true,"b":1}`. -/
def trueThenOne : Obj :=
  ⟨.empty, .empty, [memberOf nameA (.literal .true), memberOf nameB (.number one)], .empty⟩

/-- `{"a":1,"b":"\""}`. The string ends in an escaped quotation, and is flat. -/
def oneThenQuotation : Obj :=
  ⟨.empty, .empty, [memberOf nameA (.number one), memberOf nameB
    (.string [.escape ⟨34, by decide⟩])], .empty⟩

theorem scannedRight_oneThenQuotation : ScannedRight oneThenQuotation := by
  refine (scannedRight_iff (by decide)).2 ?_
  intro m hm
  rcases List.mem_cons.1 hm with rfl | hm
  · rfl
  · rw [List.mem_singleton.1 hm]
    exact show ([92, 34] : Bytes).getLast? ≠ some 92 by decide

/-- The member `"b"` is lost, its name becomes the value of `"a"`. -/
theorem not_scannedRight_trueThenOne :
    (∀ m ∈ trueThenOne.members, 34 ∉ m.name.content ∧ 92 ∉ m.name.content) ∧
      trueThenOne.pairs = [([97], [116, 114, 117, 101]), ([98], [49])] ∧
      ((parse 17 trueThenOne.text).run {}).map (fun r => r.2.kvList) = some [([97], [34, 98, 34])] ∧
      ¬ScannedRight trueThenOne := by
  have hparse : ((parse 17 trueThenOne.text).run {}).map (fun r => r.2.kvList) =
      some [([97], [34, 98, 34])] := by
    decide +kernel
  refine ⟨by decide, by decide, hparse, fun h => ?_⟩
  obtain ⟨p', hrun, hkv⟩ := (h 17 (by decide)).1 {}
  rw [hrun, Option.map_some, hkv] at hparse
  exact absurd hparse (by decide)

end HiSysEventJsonDecorator

end HiSysEvent
