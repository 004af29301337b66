import HiSysEvent.JsonFlattenParser
import HiSysEvent.JsonText

/-!
# Flat scans of JSON objects

What `JsonFlattenParser` makes of the text of a JSON object whose member names hold no
quotation and no backslash. A value is scanned to its end if it is `Flat` : a number
without an exponent, a string that does not end in a backslash, an array or object whose
own brackets, those in its strings included, close at its last byte for the first time.
No other value is scanned right, a literal never is.

The pairs of the scan are the members of the object if and only if all values are flat
(`scan_eq_pairs_iff`). An array or object without brackets in its strings is flat
(`flat_array`, `flat_object`).
-/

namespace HiSysEvent

open Wire JsonText While

namespace JsonFlattenParser

/-! ## Spans -/

section
variable {σ : Type} {δ : σ → UInt8 → Option σ}

/-- The state behind bytes that are all taken. -/
def run (δ : σ → UInt8 → Option σ) : σ → Bytes → Option σ
  | s, [] => some s
  | s, c :: cs => (δ s c).bind fun s' => run δ s' cs

theorem span_append : ∀ {a : Bytes} {s s' : σ}, run δ s a = some s' → ∀ b,
    span δ s (a ++ b) = a ++ span δ s' b
  | [], s, s', h, b => by
    cases h
    rfl
  | c :: a, s, s', h, b => by
    obtain ⟨s₁, hδ, hrun⟩ := Option.bind_eq_some_iff.1 h
    simp only [List.cons_append, span, hδ, span_append hrun b]

theorem run_of_span : ∀ {a : Bytes} {s : σ} {c : UInt8} {b : Bytes},
    span δ s (a ++ c :: b) = a → ∃ s', run δ s a = some s' ∧ δ s' c = none
  | [], s, c, b, h => by
    refine ⟨s, rfl, ?_⟩
    rw [List.nil_append, span] at h
    cases hδ : δ s c with
    | none => rfl
    | some s' => simp [hδ] at h
  | c' :: a, s, c, b, h => by
    rw [List.cons_append, span] at h
    cases hδ : δ s c' with
    | none => simp [hδ] at h
    | some s' =>
      rw [hδ] at h
      obtain ⟨s'', hrun, hstop⟩ := run_of_span (List.cons.inj h).2
      exact ⟨s'', by rw [run, hδ]; exact hrun, hstop⟩

/-- A span ends between two given texts if and only if the second one stops it. -/
theorem span_eq_iff {a : Bytes} {s : σ} {c : UInt8} {b : Bytes} :
    span δ s (a ++ c :: b) = a ↔ ∃ s', run δ s a = some s' ∧ δ s' c = none := by
  refine ⟨run_of_span, ?_⟩
  rintro ⟨s', hrun, hstop⟩
  rw [span_append hrun, span, hstop]
  exact List.append_nil a

theorem closed_eq_iff {a : Bytes} {s : σ} {c : UInt8} {b : Bytes} :
    closed (span δ s (a ++ c :: b)) (a ++ c :: b) = a ++ [c] ↔
      ∃ s', run δ s a = some s' ∧ δ s' c = none := by
  rw [← span_eq_iff]
  constructor
  · intro h
    exact (List.append_inj' h rfl).1
  · intro h
    rw [h, closed, List.drop_left' rfl]
    rfl

theorem run_forall {P : UInt8 → Prop} {δ : Unit → UInt8 → Option Unit}
    (h : ∀ c, δ () c = some () ↔ P c) : ∀ {a : Bytes}, run δ () a = some () ↔ ∀ c ∈ a, P c
  | [] => by simp [run]
  | c :: a => by
    rw [List.forall_mem_cons, ← h c, ← run_forall h, run, Option.bind_eq_some_iff]
    exact ⟨fun ⟨⟨⟩, hc, ha⟩ => ⟨hc, ha⟩, fun ⟨hc, ha⟩ => ⟨(), hc, ha⟩⟩

end

/-! ## Flat values -/

/-- The brackets open at the end of a text. -/
def depth (l : UInt8) (bs : Bytes) : ℤ :=
  bs.count l - bs.count (l + 2)

/-- The brackets of a kind close at the end of the text, and not before. -/
def Balanced (l : UInt8) (bs : Bytes) : Prop :=
  depth l bs = 0 ∧ ∀ pre, pre <+: bs → pre ≠ [] → pre ≠ bs → 0 < depth l pre

/-- The values that are scanned to their end. -/
def Flat : Value → Prop
  | .literal _ => False
  | .number n => n.exp.isNone
  | .string s => s.content.getLast? ≠ some 92
  | .array ws elems => Balanced 91 (Value.array ws elems).text
  | .object ws members => Balanced 123 (Value.object ws members).text

/-! ### Brackets -/

theorem depth_append (l : UInt8) (x y : Bytes) : depth l (x ++ y) = depth l x + depth l y := by
  simp only [depth, List.count_append, Nat.cast_add]
  omega

theorem depth_cons (l c : UInt8) (bs : Bytes) : depth l (c :: bs) = depth l [c] + depth l bs :=
  depth_append l [c] bs

theorem add_two_ne (l : UInt8) : l + 2 ≠ l := by
  intro h
  simp at h

theorem depth_left (l : UInt8) : depth l [l] = 1 := by
  simp [depth, (add_two_ne l).symm]

theorem depth_right (l : UInt8) : depth l [l + 2] = -1 := by
  simp [depth, add_two_ne l]

theorem depth_other {l c : UInt8} (h : c ≠ l) (h' : c ≠ l + 2) : depth l [c] = 0 := by
  simp [depth, h, h']

/-- One byte stops the scan of the brackets if it closes the last one. -/
theorem bracketStep_eq (l c : UInt8) {n : ℤ} (hn : 0 < n) :
    bracketStep l n c = if 0 < n + depth l [c] then some (n + depth l [c]) else none := by
  unfold bracketStep
  by_cases h : c = l
  · subst h
    rw [if_pos rfl, depth_left, if_pos (by omega)]
  by_cases h' : c = l + 2
  · subst h'
    rw [if_neg h, if_pos rfl, depth_right]
    by_cases h1 : n = 1
    · rw [if_pos (by omega), if_neg (by omega)]
    · rw [if_neg (by omega), if_pos (by omega)]
      rfl
  · rw [if_neg h, if_neg h', depth_other h h', if_pos (by omega), Int.add_zero]

theorem forall_prefix_cons {P : Bytes → Prop} {c : UInt8} {a : Bytes} :
    (∀ pre, pre <+: c :: a → P pre) ↔ P [] ∧ ∀ pre, pre <+: a → P (c :: pre) := by
  constructor
  · intro h
    exact ⟨h [] (List.nil_prefix), fun pre hpre => h _ ((List.prefix_cons_inj c).2 hpre)⟩
  · rintro ⟨h0, h⟩ pre hpre
    rcases List.prefix_cons_iff.1 hpre with rfl | ⟨pre', rfl, hpre'⟩
    · exact h0
    · exact h pre' hpre'

theorem run_bracketStep (l : UInt8) : ∀ {a : Bytes} {n m : ℤ}, 0 < n →
    (run (bracketStep l) n a = some m ↔
      m = n + depth l a ∧ ∀ pre, pre <+: a → 0 < n + depth l pre)
  | [], n, m, hn => by
    have h0 : depth l [] = 0 := rfl
    rw [run, Option.some_inj, h0, Int.add_zero]
    refine ⟨fun h => ⟨h.symm, fun pre hpre => ?_⟩, fun h => h.1.symm⟩
    rw [List.prefix_nil.1 hpre, h0]
    omega
  | c :: a, n, m, hn => by
    have h0 : depth l [] = 0 := rfl
    obtain ⟨d, hd⟩ : ∃ d, d = depth l [c] := ⟨_, rfl⟩
    have hc : ∀ bs, n + depth l (c :: bs) = n + d + depth l bs := fun bs => by
      rw [depth_cons, hd, Int.add_assoc]
    rw [run, bracketStep_eq l c hn, forall_prefix_cons, ← hd, h0, Int.add_zero]
    simp only [hc]
    by_cases h : 0 < n + d
    · rw [if_pos h, Option.bind_some, run_bracketStep l h]
      simp only [hn, true_and]
    · rw [if_neg h, Option.bind_none]
      refine iff_of_false (by simp) ?_
      rintro ⟨-, -, hpre⟩
      have := hpre [] List.nil_prefix
      rw [h0] at this
      omega

/-- Brackets are scanned to their end if and only if they are balanced. -/
theorem scanBrackets_eq_iff {l : UInt8} {inner : Bytes} (post : Bytes) :
    scanBrackets l (inner ++ (l + 2) :: post) = l :: (inner ++ [l + 2]) ↔
      Balanced l (l :: (inner ++ [l + 2])) := by
  have hdepth : ∀ bs, depth l (l :: bs) = 1 + depth l bs := fun bs => by
    rw [depth_cons, depth_left]
  have hstop : ∀ n : ℤ, bracketStep l n (l + 2) = none ↔ n = 1 := fun n => by
    simp only [bracketStep, if_neg (add_two_ne l), if_true]
    split_ifs with h
    · exact iff_of_true rfl (by omega)
    · exact iff_of_false (by simp) (by omega)
  rw [scanBrackets, List.cons_inj_right, closed_eq_iff, Balanced, hdepth, depth_append, depth_right]
  constructor
  · rintro ⟨m, hrun, hm⟩
    rw [hstop] at hm
    obtain ⟨hm', hpre⟩ := (run_bracketStep l (by omega)).1 hrun
    refine ⟨by omega, ?_⟩
    intro pre hpre' hne hne'
    rcases List.prefix_cons_iff.1 hpre' with rfl | ⟨pre', rfl, hp⟩
    · exact absurd rfl hne
    · rcases List.prefix_concat_iff.1 hp with rfl | hp
      · exact absurd rfl hne'
      · rw [hdepth]
        exact hpre pre' hp
  · rintro ⟨h0, hpre⟩
    refine ⟨1, (run_bracketStep l (by omega)).2 ⟨by omega, ?_⟩, (hstop 1).2 rfl⟩
    intro pre hp
    rw [← hdepth]
    refine hpre _ ((List.prefix_cons_inj l).2 (hp.trans (List.prefix_append _ _))) (by simp) ?_
    intro heq
    have hlen := congrArg List.length heq
    have hle := hp.length_le
    simp only [List.length_cons, List.length_append, List.length_nil] at hlen
    omega

/-! ### Strings -/

theorem run_append {σ : Type} {δ : σ → UInt8 → Option σ} : ∀ (a b : Bytes) (s : σ),
    run δ s (a ++ b) = (run δ s a).bind fun s' => run δ s' b
  | [], b, s => rfl
  | c :: a, b, s => by
    rw [List.cons_append, run, run]
    cases δ s c with
    | none => rfl
    | some s' => exact run_append a b s'

/-- The last byte of a text behind `prev`. -/
def lastOr (prev : UInt8) (bs : Bytes) : UInt8 :=
  bs.getLast?.getD prev

theorem lastOr_append (prev : UInt8) (x y : Bytes) :
    lastOr prev (x ++ y) = lastOr (lastOr prev x) y := by
  unfold lastOr
  rw [List.getLast?_append]
  cases y.getLast? <;> rfl

theorem run_stringStep_of_ne : ∀ {bs : Bytes} {prev : UInt8}, (∀ c ∈ bs, c ≠ 34) →
    run stringStep prev bs = some (lastOr prev bs)
  | [], prev, _ => rfl
  | c :: bs, prev, h => by
    have hc : stringStep prev c = some c :=
      if_neg fun hand => h c List.mem_cons_self (charFilter_eq_stringFlag.1 hand.1)
    rw [run, hc, Option.bind_some,
      run_stringStep_of_ne fun x hx => h x (List.mem_cons_of_mem c hx)]
    exact congrArg some (lastOr_append prev [c] bs).symm

/-- Every quotation inside a string follows a backslash. -/
theorem run_stringStep_chr (prev : UInt8) (c : Chr) :
    run stringStep prev c.text = some (lastOr prev c.text) := by
  cases c with
  | plain c =>
    refine run_stringStep_of_ne fun x hx => ?_
    rw [List.mem_singleton.1 hx]
    exact c.2.2.1
  | escape c =>
    have h1 : stringStep prev 92 = some 92 := if_neg fun hand => absurd hand.1 (by decide)
    have h2 : stringStep 92 c.1 = some c.1 := if_neg fun hand => hand.2 rfl
    simp only [Chr.text, run, h1, h2, Option.bind_some]
    rfl
  | unicode h =>
    refine run_stringStep_of_ne fun x hx => ?_
    rcases List.mem_cons.1 hx with rfl | hx
    · decide
    rcases List.mem_cons.1 hx with rfl | hx
    · decide
    · rintro rfl
      exact absurd (h.2.2 34 hx) (by decide)

theorem run_stringStep_content : ∀ (s : Str) (prev : UInt8),
    run stringStep prev s.content = some (lastOr prev s.content)
  | [], prev => rfl
  | c :: s, prev => by
    have hcontent : Str.content (c :: s) = c.text ++ Str.content s := List.flatMap_cons
    rw [hcontent, run_append, run_stringStep_chr, Option.bind_some, run_stringStep_content s,
      lastOr_append]

/-- A string is scanned to its end if and only if no backslash is in front of it. -/
theorem scanString_eq_iff {s : Str} (post : Bytes) :
    scanString 34 (s.content ++ 34 :: post) = s.text ↔ s.content.getLast? ≠ some 92 := by
  rw [scanString, Str.text, List.cons_inj_right, closed_eq_iff]
  have hstop : stringStep (lastOr 34 s.content) 34 = none ↔ lastOr 34 s.content ≠ 92 := by
    unfold stringStep
    split_ifs with h
    · exact iff_of_true rfl h.2
    · exact iff_of_false (by simp) fun hne => h ⟨rfl, hne⟩
  have hlast : lastOr 34 s.content = 92 ↔ s.content.getLast? = some 92 := by
    unfold lastOr
    cases s.content.getLast? with
    | none => exact iff_of_false (by decide) (by simp)
    | some c => simp
  rw [run_stringStep_content]
  simp only [Option.some_inj, exists_eq_left', hstop, ne_eq, hlast]

/-! ### Numbers -/

theorem charFilter_digit {c : UInt8} (h : isDigit c = true) : charFilter c = numberFlag := by
  refine if_pos ?_
  simpa [isDigit] using h

theorem numerStep_eq (c : UInt8) : numerStep () c = some () ↔ charFilter c = numberFlag := by
  unfold numerStep
  split_ifs with h
  · exact iff_of_false (by simp) h
  · exact iff_of_true rfl (not_not.1 h)

theorem charFilter_mantissa {n : Number} {c : UInt8} (h : c ∈ n.mantissa) :
    charFilter c = numberFlag := by
  rcases List.mem_append.1 h with h | h
  · rcases List.mem_append.1 h with h | h
    · cases hm : n.minus with
      | false => simp [hm] at h
      | true =>
        obtain rfl : c = 45 := by simpa [hm] using h
        rfl
    · exact charFilter_digit (n.int.2.2 c h)
  · cases hf : n.frac with
    | none => simp [hf] at h
    | some d =>
      rw [hf] at h
      rcases List.mem_cons.1 h with rfl | h
      · rfl
      · exact charFilter_digit (d.2.2 c h)

/-- A number is scanned to its end if and only if it has no exponent. -/
theorem scanNumer_eq_iff {n : Number} {c : UInt8} (hc : charFilter c ≠ numberFlag) (post : Bytes) :
    scanNumer (n.text ++ c :: post) = n.text ↔ n.exp.isNone := by
  rw [scanNumer, span_eq_iff]
  have hstop : numerStep () c = none := if_pos hc
  constructor
  · rintro ⟨⟨⟩, hrun, -⟩
    have hall := (run_forall numerStep_eq).1 hrun
    cases he : n.exp with
    | none => rfl
    | some e =>
      have hmem : (if e.upper then 69 else 101 : UInt8) ∈ n.text := by
        rw [Number.text, he]
        exact List.mem_append_right _ List.mem_cons_self
      have hflag := hall _ hmem
      cases hu : e.upper with
      | false => exact absurd (hu ▸ hflag) (by decide)
      | true => exact absurd (hu ▸ hflag) (by decide)
  · intro he
    refine ⟨(), (run_forall numerStep_eq).2 fun x hx => ?_, hstop⟩
    rw [Number.text, Option.isNone_iff_eq_none.1 he] at hx
    exact charFilter_mantissa (by simpa using hx)

theorem exists_head_number (n : Number) :
    ∃ c cs, n.text = c :: cs ∧ charFilter c = numberFlag := by
  obtain ⟨c, cs, hm⟩ : ∃ c cs, n.mantissa = c :: cs := by
    cases hm : n.mantissa with
    | nil =>
      have hint := (List.append_eq_nil_iff.1 (List.append_eq_nil_iff.1 hm).1).2
      exact absurd hint n.int.2.1
    | cons c cs => exact ⟨c, cs, rfl⟩
  refine ⟨c, cs ++ n.exp.elim [] Exponent.text, ?_, ?_⟩
  · rw [Number.text, hm]
    rfl
  · exact charFilter_mantissa (hm ▸ List.mem_cons_self)

/-! ### Values -/

/-- A value that is no literal is scanned from its first byte on. -/
theorem scanValue_token {v : Value} (hv : ∀ l, v ≠ .literal l) {c : UInt8} {post : Bytes}
    (hc : charFilter c ≠ numberFlag) :
    ∃ t, scanValue (v.text ++ c :: post) = (t, t.length) ∧ (t = v.text ↔ Flat v) := by
  cases v with
  | literal l => exact absurd rfl (hv l)
  | number n =>
    obtain ⟨d, ds, hd, hflag⟩ := exists_head_number n
    refine ⟨_, ?_, scanNumer_eq_iff hc post⟩
    rw [Value.text, hd, List.cons_append, scanValue, hflag, if_neg (by decide), if_pos rfl]
  | string s =>
    have htext : (Value.string s).text ++ c :: post = 34 :: (s.content ++ 34 :: c :: post) := by
      simp [Value.text, Str.text]
    refine ⟨_, ?_, scanString_eq_iff (c :: post)⟩
    rw [htext, scanValue, if_neg (by decide), if_neg (by decide), if_pos (by decide)]
  | array ws elems =>
    have htext : (Value.array ws elems).text ++ c :: post =
        91 :: (ws.1 ++ joined (elemTexts elems) ++ (91 + 2) :: c :: post) := by
      simp [Value.text]
    refine ⟨_, ?_, scanBrackets_eq_iff (c :: post)⟩
    rw [htext, scanValue, if_pos (by decide)]
  | object ws members =>
    have htext : (Value.object ws members).text ++ c :: post =
        123 :: (ws.1 ++ joined (memberTexts members) ++ (123 + 2) :: c :: post) := by
      simp [Value.text]
    refine ⟨_, ?_, scanBrackets_eq_iff (c :: post)⟩
    rw [htext, scanValue, if_pos (by decide)]

/-- A scanned value is empty or starts where a number, a string or a bracket does. -/
theorem scanValue_head : ∀ bs : Bytes,
    (scanValue bs).1 = [] ∨ ∃ c cs, (scanValue bs).1 = c :: cs ∧ charFilter c ≠ 0
  | [] => Or.inl rfl
  | c :: cs => by
    rw [scanValue]
    split_ifs with h1 h2 h3
    · exact Or.inr ⟨c, _, rfl, by rw [h1]; decide⟩
    · refine Or.inr ⟨c, scanNumer cs, ?_, by rw [h2]; decide⟩
      simp [scanNumer, span, numerStep, h2]
    · exact Or.inr ⟨c, _, rfl, by rw [h3]; decide⟩
    · exact scanValue_head cs

theorem scanValue_literal_ne (l : Literal) (rest : Bytes) : (scanValue rest).1 ≠ l.text := by
  intro h
  rcases scanValue_head rest with h0 | ⟨c, cs, hcs, hc⟩
  · rw [h0] at h
    cases l <;> cases h
  · rw [hcs] at h
    cases l <;> (cases h; exact hc rfl)

/-- A value that is flat is scanned to its end. -/
theorem scanValue_of_flat {v : Value} (hv : Flat v) {c : UInt8} {post : Bytes}
    (hc : charFilter c ≠ numberFlag) : scanValue (v.text ++ c :: post) = (v.text, v.text.length) := by
  have hl : ∀ l, v ≠ .literal l := by
    rintro l rfl
    exact hv
  obtain ⟨t, heq, ht⟩ := scanValue_token hl hc
  rw [heq, ht.2 hv]

/-- Any other value is scanned wrong. -/
theorem scanValue_of_not_flat {v : Value} (hv : ¬Flat v) {c : UInt8} {post : Bytes}
    (hc : charFilter c ≠ numberFlag) : (scanValue (v.text ++ c :: post)).1 ≠ v.text := by
  by_cases hl : ∃ l, v = .literal l
  · obtain ⟨l, rfl⟩ := hl
    exact scanValue_literal_ne l _
  · obtain ⟨t, heq, ht⟩ := scanValue_token (fun l h => hl ⟨l, h⟩) hc
    rw [heq]
    exact fun h => hv (ht.1 h)

/-! ## Members -/

theorem charFilter_ws {c : UInt8} (h : isWs c = true) : charFilter c = 0 := by
  have hc : c = 32 ∨ c = 9 ∨ c = 10 ∨ c = 13 := by simpa [isWs, or_assoc] using h
  rcases hc with rfl | rfl | rfl | rfl <;> rfl

theorem scan_skip {rest : Bytes} : ∀ {pre : Bytes}, (∀ c ∈ pre, charFilter c ≠ stringFlag) →
    scan (pre ++ rest) = scan rest
  | [], _ => rfl
  | c :: pre, h => by
    rw [List.cons_append, scan, if_pos (h c List.mem_cons_self)]
    exact scan_skip fun x hx => h x (List.mem_cons_of_mem c hx)

theorem scanValue_skip {rest : Bytes} : ∀ {pre : Bytes}, (∀ c ∈ pre, charFilter c = 0) →
    scanValue (pre ++ rest) = ((scanValue rest).1, (scanValue rest).2 + pre.length)
  | [], _ => rfl
  | c :: pre, h => by
    have hc := h c List.mem_cons_self
    rw [List.cons_append, scanValue, hc, if_neg (by decide), if_neg (by decide),
      if_neg (by decide), scanValue_skip fun x hx => h x (List.mem_cons_of_mem c hx)]
    rfl

theorem scanKey_eq {name rest : Bytes} (h : 34 ∉ name) : scanKey (name ++ 34 :: rest) = name := by
  have hstep : ∀ c, keyStep () c = some () ↔ c ≠ 34 := fun c => by
    unfold keyStep
    split_ifs with hc
    · exact iff_of_false (by simp) (not_not.2 (charFilter_eq_stringFlag.1 hc))
    · exact iff_of_true rfl fun h34 => hc (charFilter_eq_stringFlag.2 h34)
  refine span_eq_iff.2 ⟨(), (run_forall hstep).2 fun c hc => ?_, rfl⟩
  rintro rfl
  exact h hc

/-- The white space behind a value and what follows it. -/
theorem exists_head_after (after : Ws) {c : UInt8} (hc : charFilter c = 0) (post : Bytes) :
    ∃ c' post', after.1 ++ c :: post = c' :: post' ∧ charFilter c' ≠ numberFlag := by
  obtain ⟨ws, hws⟩ := after
  cases ws with
  | nil => exact ⟨c, post, rfl, by rw [hc]; decide⟩
  | cons w ws =>
    refine ⟨w, ws ++ c :: post, rfl, ?_⟩
    rw [charFilter_ws (hws w List.mem_cons_self)]
    decide

/-- A member gives its name with the value scanned behind it. -/
theorem scan_member {m : Member Value} (hname : 34 ∉ m.name.content) {c : UInt8}
    {post : Bytes} :
    scan (memberText m ++ c :: post) =
      (m.name.content, (scanValue (m.value.text ++ (m.after.1 ++ c :: post))).1) ::
        scan ((m.value.text ++ (m.after.1 ++ c :: post)).drop
          (scanValue (m.value.text ++ (m.after.1 ++ c :: post))).2) := by
  obtain ⟨before, name, beforeColon, afterColon, value, after⟩ := m
  let filler := beforeColon.1 ++ 58 :: afterColon.1
  let tail := value.text ++ (after.1 ++ c :: post)
  have htext : memberText ⟨before, name, beforeColon, afterColon, value, after⟩ ++ c :: post =
      before.1 ++ 34 :: (name.content ++ 34 :: (filler ++ tail)) := by
    simp [memberText, Member.head, Str.text, filler, tail]
  have hbefore : ∀ x ∈ before.1, charFilter x ≠ stringFlag := fun x hx => by
    rw [charFilter_ws (before.2 x hx)]
    decide
  have hfiller : ∀ x ∈ filler, charFilter x = 0 := fun x hx => by
    rcases List.mem_append.1 hx with hx | hx
    · exact charFilter_ws (beforeColon.2 x hx)
    rcases List.mem_cons.1 hx with rfl | hx
    · rfl
    · exact charFilter_ws (afterColon.2 x hx)
  have hkey : scanKey (name.content ++ 34 :: (filler ++ tail)) = name.content := scanKey_eq hname
  have hafter : afterKey (name.content ++ 34 :: (filler ++ tail)) = filler ++ tail := by
    rw [afterKey, hkey, ← List.drop_drop, List.drop_left' rfl, List.drop_one, List.tail_cons]
  have hdrop : (filler ++ tail).drop ((scanValue tail).2 + filler.length) =
      tail.drop (scanValue tail).2 := by
    rw [Nat.add_comm, ← List.drop_drop, List.drop_left' rfl]
  rw [htext, scan_skip hbefore, scan, if_neg (by decide), hkey, hafter, scanValue_skip hfiller]
  simp only [hdrop]
  rfl

theorem scan_member_flat {m : Member Value} (hname : 34 ∉ m.name.content) (hv : Flat m.value)
    {c : UInt8} (hc : charFilter c = 0) (post : Bytes) :
    scan (memberText m ++ c :: post) = (m.name.content, m.value.text) :: scan (c :: post) := by
  obtain ⟨c', post', htail, hc'⟩ := exists_head_after m.after hc post
  rw [scan_member hname, htail, scanValue_of_flat hv hc', List.drop_left' rfl, ← htail,
    scan_skip fun x hx => ?_]
  rw [charFilter_ws (m.after.2 x hx)]
  decide

/-- The members of an object are scanned right if and only if all their values are flat. -/
theorem scan_members {tl : Bytes} (htl : scan (125 :: tl) = []) : ∀ {ms : List (Member Value)},
    (∀ m ∈ ms, 34 ∉ m.name.content) →
    (scan (joined (memberTexts ms) ++ 125 :: tl) =
        ms.map (fun m => (m.name.content, m.value.text)) ↔ ∀ m ∈ ms, Flat m.value)
  | [], _ => iff_of_true htl fun m hm => absurd hm List.not_mem_nil
  | m :: ms, hname => by
    -- a comma or the closing bracket follows the member
    obtain ⟨c, post, hc, htext, hrest⟩ : ∃ c post, charFilter c = 0 ∧
        joined (memberTexts (m :: ms)) ++ 125 :: tl = memberText m ++ c :: post ∧
        scan (c :: post) = scan (joined (memberTexts ms) ++ 125 :: tl) := by
      cases ms with
      | nil => exact ⟨125, tl, rfl, rfl, rfl⟩
      | cons m' ms =>
        refine ⟨44, joined (memberTexts (m' :: ms)) ++ 125 :: tl, rfl, ?_, ?_⟩
        · simp [memberTexts, joined]
        · rw [scan, if_pos (by decide)]
    have hm := hname m List.mem_cons_self
    have ih := scan_members htl fun x hx => hname x (List.mem_cons_of_mem m hx)
    rw [htext, List.forall_mem_cons, List.map_cons]
    by_cases hv : Flat m.value
    · rw [scan_member_flat hm hv hc, hrest, List.cons_inj_right, ih]
      exact (and_iff_right hv).symm
    · refine iff_of_false (fun h => ?_) fun h => hv h.1
      obtain ⟨c', post', htail, hc'⟩ := exists_head_after m.after hc post
      rw [scan_member hm, htail] at h
      exact scanValue_of_not_flat hv hc' (Prod.mk.inj (List.cons.inj h).1).2

theorem scan_eq_pairs_iff {o : Obj} (hname : ∀ m ∈ o.members, 34 ∉ m.name.content) :
    scan o.text = o.pairs ↔ ∀ m ∈ o.members, Flat m.value := by
  have htext : o.text = (o.before.1 ++ 123 :: o.ws.1) ++
      (joined (memberTexts o.members) ++ 125 :: o.after.1) := by
    simp [Obj.text, Value.text]
  have hws : ∀ ws : Ws, ∀ x ∈ ws.1, charFilter x ≠ stringFlag := fun ws x hx => by
    rw [charFilter_ws (ws.2 x hx)]
    decide
  have hpre : ∀ x ∈ o.before.1 ++ 123 :: o.ws.1, charFilter x ≠ stringFlag := fun x hx => by
    rcases List.mem_append.1 hx with hx | hx
    · exact hws o.before x hx
    rcases List.mem_cons.1 hx with rfl | hx
    · decide
    · exact hws o.ws x hx
  have htl : scan (125 :: o.after.1) = [] := by
    have hskip : scan (o.after.1 ++ []) = scan [] := scan_skip (hws o.after)
    rw [List.append_nil] at hskip
    rw [scan, if_pos (by decide), hskip, scan]
  rw [htext, scan_skip hpre]
  exact scan_members htl hname

/-! ## Brackets outside the strings -/

/-- The brackets of a kind close, and none closes before it opens. -/
def Nested (l : UInt8) (bs : Bytes) : Prop :=
  depth l bs = 0 ∧ ∀ pre, pre <+: bs → 0 ≤ depth l pre

theorem Nested.append {l : UInt8} {x y : Bytes} (hx : Nested l x) (hy : Nested l y) :
    Nested l (x ++ y) := by
  refine ⟨by rw [depth_append, hx.1, hy.1]; rfl, ?_⟩
  intro pre hpre
  rcases List.prefix_or_prefix_of_prefix hpre (List.prefix_append x y) with h | ⟨z, rfl⟩
  · exact hx.2 pre h
  · rw [depth_append, hx.1, Int.zero_add]
    exact hy.2 z ((List.prefix_append_right_inj x).1 hpre)

theorem nested_of_not_mem {l : UInt8} {bs : Bytes} (h : ∀ c ∈ bs, c ≠ l ∧ c ≠ l + 2) :
    Nested l bs := by
  have hdepth : ∀ pre, pre <+: bs → depth l pre = 0 := fun pre hpre => by
    rw [depth, List.count_eq_zero_of_not_mem fun hm => (h l (hpre.subset hm)).1 rfl,
      List.count_eq_zero_of_not_mem fun hm => (h (l + 2) (hpre.subset hm)).2 rfl]
    rfl
  exact ⟨hdepth bs List.prefix_rfl, fun pre hpre => by rw [hdepth pre hpre]⟩

/-- A pair of brackets around a nested text is balanced. -/
theorem Nested.balanced {l : UInt8} {x : Bytes} (h : Nested l x) :
    Balanced l (l :: (x ++ [l + 2])) := by
  refine ⟨by rw [depth_cons, depth_append, depth_left, depth_right, h.1]; rfl, ?_⟩
  intro pre hpre hne hne'
  rcases List.prefix_cons_iff.1 hpre with rfl | ⟨pre', rfl, hp⟩
  · exact absurd rfl hne
  · rcases List.prefix_concat_iff.1 hp with rfl | hp
    · exact absurd rfl hne'
    · have := h.2 pre' hp
      rw [depth_cons, depth_left]
      omega

theorem Balanced.nested {l : UInt8} {bs : Bytes} (h : Balanced l bs) : Nested l bs := by
  refine ⟨h.1, ?_⟩
  intro pre hpre
  by_cases h0 : pre = []
  · rw [h0]
    exact Int.le_refl 0
  by_cases h1 : pre = bs
  · rw [h1, h.1]
  · exact Int.le_of_lt (h.2 pre hpre h0 h1)

/-- The brackets of a text outside its strings are nested. -/
theorem closed_nested {l : UInt8} (hl : l = 91 ∨ l = 123) : Closed (Nested l) := by
  have houter : ∀ {bs : Bytes}, (∀ c ∈ bs, c ≠ l ∧ c ≠ l + 2) → Nested l bs :=
    fun h => nested_of_not_mem h
  have hother : ∀ {b c : UInt8} {x : Bytes}, b ≠ l ∧ b ≠ l + 2 → c ≠ l ∧ c ≠ l + 2 →
      Nested l x → Nested l (b :: (x ++ [c])) := fun hb hc hx =>
    (houter (List.forall_mem_singleton.2 hb)).append
      (hx.append (houter (List.forall_mem_singleton.2 hc)))
  have hbyte : ∀ c, isWs c = true ∨ isNumberByte c = true → c ≠ l ∧ c ≠ l + 2 := by
    intro c hc
    rcases hl with rfl | rfl <;> constructor <;> (rintro rfl; exact absurd hc (by decide))
  refine
    { nil := houter fun c hc => absurd hc List.not_mem_nil
      append := Nested.append
      comma := houter (List.forall_mem_singleton.2 ?_)
      colon := houter (List.forall_mem_singleton.2 ?_)
      ws := fun ws => houter fun c hc => hbyte c (Or.inl (ws.2 c hc))
      literal := fun t => houter ?_
      number := fun n => houter fun c hc => hbyte c (Or.inr (isNumberByte_of_mem hc))
      array := fun hx => ?_
      object := fun hx => ?_ }
  · rcases hl with rfl | rfl <;> decide
  · rcases hl with rfl | rfl <;> decide
  · rcases hl with rfl | rfl <;> cases t <;> decide +kernel
  · rcases hl with rfl | rfl
    · exact hx.balanced.nested
    · exact hother (by decide) (by decide) hx
  · rcases hl with rfl | rfl
    · exact hother (by decide) (by decide) hx
    · exact hx.balanced.nested

/-- The inside of an array or object without brackets in its strings. -/
theorem nested_text {l : UInt8} (hl : l = 91 ∨ l = 123) {s : Str}
    (hs : ∀ c ∈ s.content, c ≠ l ∧ c ≠ l + 2) : Nested l s.text := by
  refine nested_of_not_mem fun c hc => ?_
  have hquote : (34 : UInt8) ≠ l ∧ 34 ≠ l + 2 := by
    rcases hl with rfl | rfl <;> decide
  rcases List.mem_cons.1 hc with rfl | hc
  · exact hquote
  rcases List.mem_append.1 hc with hc | hc
  · exact hs c hc
  · rw [List.mem_singleton.1 hc]
    exact hquote

/-- An array whose strings hold no square brackets is flat. -/
theorem flat_array {ws : Ws} {elems : List (Elem Value)}
    (h : ∀ s ∈ elemsStrings elems, ∀ c ∈ s.content, c ≠ 91 ∧ c ≠ 93) :
    Flat (.array ws elems) := by
  have hl : (91 : UInt8) = 91 ∨ (91 : UInt8) = 123 := Or.inl rfl
  have hclosed := closed_nested hl
  have hin := hclosed.append (hclosed.ws ws) (hclosed.joined
    (elemTexts_induction hclosed elems fun s hs => nested_text hl (h s hs)))
  rw [Flat, Value.text]
  exact hin.balanced

/-- An object whose strings and names hold no braces is flat. -/
theorem flat_object {ws : Ws} {members : List (Member Value)}
    (h : ∀ s ∈ membersStrings members, ∀ c ∈ s.content, c ≠ 123 ∧ c ≠ 125) :
    Flat (.object ws members) := by
  have hl : (123 : UInt8) = 91 ∨ (123 : UInt8) = 123 := Or.inr rfl
  have hclosed := closed_nested hl
  have hin := hclosed.append (hclosed.ws ws) (hclosed.joined
    (memberTexts_induction hclosed members fun s hs => nested_text hl (h s hs)))
  rw [Flat, Value.text]
  exact hin.balanced

end JsonFlattenParser

end HiSysEvent
