import Mathlib.Data.List.Infix
import HiSysEvent.Def

/-!
# Domain masks

`IsMaskedImpl` is meant to look a domain up among the tokens of the mask string. It is a
recursion over positions that goes on by one position instead of one token, and that
compares the last token over a length reckoned from its position. So it finds a domain
that ends a token before the last one, one that starts a single token, and a last token
only behind a position greater than its length (`isMaskedImpl_iff`).

It agrees with membership unless the mask string is `Misread` (`isMasked_iff_mem`).
-/

namespace HiSysEvent

/-- `std::string::npos`. -/
abbrev npos : ℕ := 2 ^ 64 - 1

/-- The separator `'|'`. -/
abbrev bar : UInt8 := 124

/-- Every index of a view is a position. -/
structure StringView where
  data : Bytes
  size_lt : data.length < npos

namespace StringView

/-- `size()`. -/
def size (v : StringView) : ℕ :=
  v.data.length

/-- `find` of a character from a position on. -/
def find (v : StringView) (c : UInt8) (pos : ℕ) : ℕ :=
  match (v.data.drop pos).findIdx? (· == c) with
  | none => npos
  | some i => pos + i

/-- `substr`. -/
def substr (v : StringView) (pos n : ℕ) : Bytes :=
  (v.data.drop pos).take n

theorem lt_of_find_ne {v : StringView} {c : UInt8} {pos : ℕ} (h : v.find c pos ≠ npos) :
    pos < v.size := by
  by_contra hle
  rw [size, not_lt] at hle
  exact h (by simp [find, List.drop_of_length_le hle])

variable {v : StringView} {c : UInt8} {pre t r : Bytes}

theorem find_append (h : v.data = pre ++ (t ++ c :: r)) (hc : c ∉ t) :
    v.find c pre.length = pre.length + t.length := by
  have hfind : (t ++ c :: r).findIdx? (· == c) = some t.length := by
    rw [List.findIdx?_append, List.findIdx?_eq_none_iff.2 fun x hx => by
      simpa using fun hxc : x = c => hc (hxc ▸ hx), List.findIdx?_cons]
    simp
  rw [find, h, List.drop_left, hfind]

theorem find_not_mem (h : v.data = pre ++ t) (hc : c ∉ t) : v.find c pre.length = npos := by
  rw [find, h, List.drop_left, List.findIdx?_eq_none_iff.2 fun x hx => by
    simpa using fun hxc : x = c => hc (hxc ▸ hx)]

end StringView

/-- The recursion of the template over `pos`. Subtractions of sizes wrap around. -/
def isMaskedImpl (str masks : StringView) (pos : ℕ) : Bool :=
  if pos = npos then false
  else
    let newpos := masks.find bar pos
    isMaskedImpl str masks (if newpos ≠ npos then pos + 1 else newpos) ||
      (pos ≠ newpos && pos ≠ masks.size &&
        masks.substr pos (if newpos ≠ npos then newpos - pos
          else (str.size + 2 ^ 64 - pos) % 2 ^ 64) = str.data)
termination_by if pos = npos then 0 else npos - pos + 1
decreasing_by
  have hlt := masks.size_lt
  have hfind := @StringView.lt_of_find_ne masks bar pos
  unfold StringView.size at hfind
  rw [if_neg ‹¬pos = npos›]
  by_cases hn : masks.find bar pos ≠ npos
  · have := hfind hn
    rw [dif_pos hn]
    split <;> omega
  · rw [not_ne_iff] at hn
    simp [hn]

/-! ## What the recursion finds -/

/-- The comparison of the last token, which starts at a position. -/
def MatchesLast (d : Bytes) (start : ℕ) (t : Bytes) : Prop :=
  if start = 0 then d <+: t else d.length < start ∧ t = d

variable {str masks : StringView} {pre l t r : Bytes}

theorem isMaskedImpl_last (hd : str.data ≠ []) (h : masks.data = pre ++ l) (hl : bar ∉ l) :
    isMaskedImpl str masks pre.length = true ↔ MatchesLast str.data pre.length l := by
  have hnpos : npos = 2 ^ 64 - 1 := rfl
  have hlt := masks.size_lt
  have hstr := str.size_lt
  have hsize : masks.data.length = pre.length + l.length := by rw [h, List.length_append]
  have hpos : 0 < str.data.length := List.length_pos_iff.2 hd
  have hrec : isMaskedImpl str masks npos = false := by rw [isMaskedImpl, if_pos rfl]
  rw [isMaskedImpl, if_neg (by omega)]
  simp only [StringView.find_not_mem h hl, ne_eq, not_true_eq_false, if_false, hrec,
    Bool.false_or, StringView.substr, StringView.size, h, List.length_append, List.drop_left,
    Bool.and_eq_true, decide_eq_true_eq, MatchesLast]
  split
  case isTrue h0 =>
    rw [h0, Nat.sub_zero, Nat.add_mod_right, Nat.mod_eq_of_lt (by omega),
      List.prefix_iff_eq_take]
    constructor
    · exact fun hm => hm.2.symm
    · refine fun hm => ⟨⟨by omega, fun hlen => ?_⟩, hm.symm⟩
      have := congrArg List.length hm
      rw [List.length_take] at this
      omega
  case isFalse h0 =>
    by_cases hle : pre.length ≤ str.data.length
    · have hcount : (str.data.length + 2 ^ 64 - pre.length) % 2 ^ 64 =
          str.data.length - pre.length := by omega
      rw [hcount]
      constructor
      · intro hm
        have := congrArg List.length hm.2
        rw [List.length_take] at this
        omega
      · omega
    · have hcount : (str.data.length + 2 ^ 64 - pre.length) % 2 ^ 64 =
          str.data.length + 2 ^ 64 - pre.length := by omega
      rw [hcount, List.take_of_length_le (by omega)]
      constructor
      · exact fun hm => ⟨by omega, hm.2⟩
      · refine fun hm => ⟨⟨by omega, fun hlen => ?_⟩, hm.2⟩
        have := congrArg List.length hm.2
        omega

/-- Before a separator the rest of the token is compared. -/
theorem isMaskedImpl_before (hd : str.data ≠ []) (h : masks.data = pre ++ (t ++ bar :: r))
    (ht : bar ∉ t) : isMaskedImpl str masks pre.length = true ↔
      isMaskedImpl str masks (pre.length + 1) = true ∨ t = str.data := by
  have hlt := masks.size_lt
  have hsize : masks.data.length = pre.length + (t.length + (r.length + 1)) := by
    rw [h, List.length_append, List.length_append, List.length_cons]
  have hne : pre.length + t.length ≠ npos := by omega
  rw [isMaskedImpl, if_neg (by omega)]
  simp only [StringView.find_append h ht, hne, ne_eq, not_false_eq_true, if_true,
    StringView.substr, StringView.size, h, List.length_append, List.length_cons, List.drop_left,
    Nat.add_sub_cancel_left, List.take_left, Bool.or_eq_true, Bool.and_eq_true, decide_eq_true_eq]
  refine or_congr_right ⟨fun hm => hm.2, fun hm => ⟨⟨fun hlen => ?_, by omega⟩, hm⟩⟩
  have h0 : t = [] := List.length_eq_zero_iff.1 (by omega)
  exact hd (hm ▸ h0)

theorem singleton_eq_concat {a b : Bytes} {init : List Bytes} (h : [a] = init ++ [b]) :
    init = [] ∧ b = a := by
  rcases init with _ | ⟨x, init⟩
  · exact ⟨rfl, (List.singleton_inj.1 h).symm⟩
  · simp at h

/-- A domain is found at the end of a token before the last, or as the last token. -/
theorem isMaskedImpl_iff (hd : str.data ≠ []) : ∀ (l pre : Bytes) {init : List Bytes}
    {last : Bytes}, masks.data = pre ++ l → l.splitOn bar = init ++ [last] →
      (isMaskedImpl str masks pre.length = true ↔
        (∃ t ∈ init, str.data <:+ t) ∨ MatchesLast str.data (masks.size - last.length) last)
  | [], pre, init, last, h, htokens => by
    obtain ⟨rfl, rfl⟩ := singleton_eq_concat htokens
    rw [isMaskedImpl_last hd h (by simp)]
    simp [h, StringView.size]
  | c :: l, pre, init, last, h, htokens => by
    by_cases hbar : bar ∈ c :: l
    · obtain ⟨t, r, hsplit, ht⟩ := List.eq_append_cons_of_mem hbar
      rw [hsplit, List.splitOn_append_cons_self_of_not_mem ht] at htokens
      rcases init with _ | ⟨t', init⟩
      · simp at htokens
      · obtain ⟨rfl, hrest⟩ : t = t' ∧ r.splitOn bar = init ++ [last] := by
          simpa using htokens
        rw [isMaskedImpl_before hd (by rw [h, hsplit]) ht]
        have hnext : masks.data = (pre ++ [c]) ++ l := by simpa using h
        rcases t with _ | ⟨c', t⟩
        · obtain ⟨rfl, rfl⟩ : c = bar ∧ l = r := by simpa using hsplit
          have ih := isMaskedImpl_iff hd _ _ hnext hrest
          rw [List.length_append, List.length_singleton] at ih
          simp [ih, hd, Ne.symm hd]
        · obtain ⟨rfl, rfl⟩ : c = c' ∧ l = t ++ bar :: r := by simpa using hsplit
          have htail : (t ++ bar :: r).splitOn bar = (t :: init) ++ [last] := by
            rw [List.splitOn_append_cons_self_of_not_mem fun hm => ht (by simp [hm]), hrest]
            rfl
          have ih := isMaskedImpl_iff hd _ _ hnext htail
          rw [List.length_append, List.length_singleton] at ih
          rw [ih, List.exists_mem_cons_iff, List.exists_mem_cons_iff, List.suffix_cons_iff,
            eq_comm (a := c :: t), or_comm, ← or_assoc, ← or_assoc]
    · rw [List.splitOn_eq_singleton hbar] at htokens
      obtain ⟨rfl, rfl⟩ := singleton_eq_concat htokens
      rw [isMaskedImpl_last hd h hbar]
      simp [h, StringView.size]

/-! ## Membership -/

/-- The mask strings the recursion misreads : a domain that only ends tokens, one that only
starts the single token, and one that is only the last token and longer than what is
before it. -/
def Misread (d m : Bytes) : Prop :=
  (d ∉ m.splitOn bar ∧ ∃ t ∈ (m.splitOn bar).dropLast, d <:+ t) ∨
  (bar ∉ m ∧ d <+: m ∧ d ≠ m) ∨
  (bar ∈ m ∧ (m.splitOn bar).getLast? = some d ∧ m.length ≤ 2 * d.length ∧
    ∀ t ∈ (m.splitOn bar).dropLast, ¬d <:+ t)

/-- The last token is shorter than a mask string with a separator. -/
theorem length_last (m : Bytes) {init : List Bytes} {last : Bytes}
    (h : m.splitOn bar = init ++ [last]) :
    last.length ≤ m.length ∧ (bar ∈ m → last.length < m.length) := by
  by_cases hbar : bar ∈ m
  · obtain ⟨t, r, rfl, ht⟩ := List.eq_append_cons_of_mem hbar
    rw [List.splitOn_append_cons_self_of_not_mem ht] at h
    rcases init with _ | ⟨t', init⟩
    · simp at h
    · obtain ⟨-, hrest⟩ : t = t' ∧ r.splitOn bar = init ++ [last] := by simpa using h
      have := (length_last r hrest).1
      rw [List.length_append, List.length_cons]
      omega
  · rw [List.splitOn_eq_singleton hbar] at h
    obtain ⟨rfl, rfl⟩ := singleton_eq_concat h
    exact ⟨le_rfl, fun hmem => absurd hmem hbar⟩
termination_by m.length

theorem exists_splitOn_eq (m : Bytes) : ∃ init last, m.splitOn bar = init ++ [last] :=
  ⟨_, _, (List.dropLast_append_getLast (List.splitOn_ne_nil bar m)).symm⟩

/-- What is found is a token, and every token is found, unless the mask string is misread. -/
theorem found_iff_mem_iff (d m : Bytes) {init : List Bytes} {last : Bytes}
    (htokens : m.splitOn bar = init ++ [last]) :
    ((∃ t ∈ init, d <:+ t) ∨ MatchesLast d (m.length - last.length) last ↔
      d ∈ m.splitOn bar) ↔ ¬Misread d m := by
  have hlast := length_last m htokens
  rw [Misread, htokens]
  simp only [List.mem_append, List.mem_singleton, List.dropLast_concat, List.getLast?_concat,
    Option.some.injEq, MatchesLast]
  by_cases hbar : bar ∈ m
  · have hstart : m.length - last.length ≠ 0 := by have := hlast.2 hbar; omega
    have hmem : d ∈ init → ∃ t ∈ init, d <:+ t := fun h => ⟨_, h, List.suffix_rfl⟩
    simp only [hbar, hstart, if_false, not_true_eq_false, false_and, true_and, false_or]
    by_cases hends : ∃ t ∈ init, d <:+ t
    · have hnot : ¬∀ t ∈ init, ¬d <:+ t := by simpa using hends
      simp [hends, hnot, or_iff_not_imp_left]
    · have hall : ∀ t ∈ init, ¬d <:+ t := by simpa using hends
      have hinit : d ∉ init := fun h => hends (hmem h)
      simp only [hends, hinit, and_false, false_or]
      by_cases hl : last = d
      · have hle : d.length < m.length - d.length ↔ ¬m.length ≤ 2 * d.length := by omega
        simp only [hl, hle, eq_true hall, and_true, true_and, iff_true]
      · simp [hl, Ne.symm hl]
  · rw [List.splitOn_eq_singleton hbar] at htokens
    obtain ⟨rfl, rfl⟩ := singleton_eq_concat htokens
    have hprefix : d = last → d <+: last := fun h => h ▸ List.prefix_rfl
    simp only [hbar, List.not_mem_nil, false_and, exists_false, and_false, Nat.sub_self,
      if_true, not_false_eq_true, true_and, false_or, or_false]
    tauto

/-- The search from the start of the mask string. -/
theorem isMaskedImpl_zero_iff (hd : str.data ≠ []) {init : List Bytes} {last : Bytes}
    (htokens : masks.data.splitOn bar = init ++ [last]) : isMaskedImpl str masks 0 = true ↔
      (∃ t ∈ init, str.data <:+ t) ∨ MatchesLast str.data (masks.size - last.length) last := by
  have hmasked := isMaskedImpl_iff hd masks.data [] rfl htokens
  rwa [List.length_nil] at hmasked

/-- A mask string that is not misread masks its tokens. -/
theorem isMaskedImpl_iff_mem (hd : str.data ≠ []) (hread : ¬Misread str.data masks.data) :
    isMaskedImpl str masks 0 = true ↔ str.data ∈ masks.data.splitOn bar := by
  obtain ⟨init, last, htokens⟩ := exists_splitOn_eq masks.data
  rw [isMaskedImpl_zero_iff hd htokens]
  exact (found_iff_mem_iff str.data masks.data htokens).2 hread

/-- The recursion finds the tokens, and only them, unless it misreads the mask string. -/
theorem isMasked_iff_mem (str masks : StringView) (hd : str.data ≠ []) :
    (isMaskedImpl str masks 0 = true ↔ str.data ∈ masks.data.splitOn bar) ↔
      ¬Misread str.data masks.data := by
  obtain ⟨init, last, htokens⟩ := exists_splitOn_eq masks.data
  rw [isMaskedImpl_zero_iff hd htokens]
  exact found_iff_mem_iff str.data masks.data htokens

/-- `"B|AB"` with the domain `"AB"` is read as having no token `"AB"`, which it has. -/
theorem not_isMasked_iff_mem :
    (⟨[65, 66], by decide⟩ : StringView).data ≠ [] ∧
    bar ∉ (⟨[65, 66], by decide⟩ : StringView).data ∧
    isMaskedImpl ⟨[65, 66], by decide⟩ ⟨[66, 124, 65, 66], by decide⟩ 0 = false ∧
    [65, 66] ∈ ([66, 124, 65, 66] : Bytes).splitOn bar := by
  refine ⟨by decide, by decide, ?_, by decide⟩
  rw [← Bool.not_eq_true]
  intro h
  have htokens : ([66, 124, 65, 66] : Bytes).splitOn bar = [[66]] ++ [[65, 66]] := by decide
  rcases (isMaskedImpl_iff (by decide) [66, 124, 65, 66] [] rfl htokens).1 h with
    ⟨t, ht, hsuffix⟩ | hlast
  · rw [List.mem_singleton.1 ht] at hsuffix
    exact absurd hsuffix (by decide)
  · rw [MatchesLast, if_neg (by decide)] at hlast
    exact absurd hlast.1 (by decide)

/-- The mask string of the documentation and one of its domains. -/
theorem isMasked_iff_mem_documented :
    (isMaskedImpl ⟨[65, 65, 70, 87, 75], by decide⟩
      ⟨[65, 65, 70, 87, 75, 124, 65, 67, 67, 79, 85, 78, 84], by decide⟩ 0 = true ↔
        [65, 65, 70, 87, 75] ∈
          ([65, 65, 70, 87, 75, 124, 65, 67, 67, 79, 85, 78, 84] : Bytes).splitOn bar) ↔
      ¬Misread [65, 65, 70, 87, 75] [65, 65, 70, 87, 75, 124, 65, 67, 67, 79, 85, 78, 84] :=
  isMasked_iff_mem ⟨[65, 65, 70, 87, 75], by decide⟩
    ⟨[65, 65, 70, 87, 75, 124, 65, 67, 67, 79, 85, 78, 84], by decide⟩ (by decide)

end HiSysEvent
