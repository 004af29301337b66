import HiSysEvent.JsonText
import HiSysEvent.StringFilter

/-!
# Escaped strings are JSON strings

Between two quotations the output of `escapeToRaw` is the content of one JSON string, and
undoing its escapes gives the input without the control characters that have no escape of
their own (`escapeToRaw_spec`). The rows of the table decide what a character becomes
(`escapeChar_cases`).
-/

namespace HiSysEvent

namespace StringFilter

open JsonText

/-- The control characters without an escape of their own. -/
def isDropped (c : UInt8) : Bool :=
  (c < 32 && !([8, 12, 10, 13, 9].contains c)) || c == 127

/-- The escape of a character. -/
def escapeOf (c : UInt8) : Option UInt8 :=
  [(92, 92), (34, 34), (8, 98), (12, 102), (10, 110), (13, 114), (9, 116)].lookup c

/-- What the tables say about a character. -/
def rowSpec (c : UInt8) : Bytes :=
  match escapeOf c with
  | some e => [92, e]
  | none => if isDropped c then [] else [c]

theorem escapeChar_eq_rowSpec (k : CharKind) (c : UInt8) : escapeChar k c = rowSpec c := by
  have hrows : ∀ n < 128, escapeChar .unsigned (UInt8.ofNat n) = rowSpec (UInt8.ofNat n) := by
    decide +kernel
  have hrest : ∀ n < 256, 128 ≤ n → rowSpec (UInt8.ofNat n) = [UInt8.ofNat n] := by
    decide +kernel
  rcases Nat.lt_or_ge c.toNat 128 with h | h
  · have := hrows c.toNat h
    rw [UInt8.ofNat_toNat] at this
    rw [escapeChar_charKind k .unsigned, this]
  · have := hrest c.toNat c.toNat_lt h
    rw [UInt8.ofNat_toNat] at this
    rw [escapeChar_of_ge k h, this]

/-- A character is escaped, dropped, or stands for itself. -/
theorem escapeChar_cases (k : CharKind) (c : UInt8) :
    (∃ e ∈ escapes, 32 ≤ e ∧ e ≠ 127 ∧ unescapeByte e = some c ∧ isDropped c = false ∧
      escapeChar k c = [92, e]) ∨
    (isDropped c = true ∧ escapeChar k c = []) ∨
    (32 ≤ c ∧ c ≠ 34 ∧ c ≠ 92 ∧ c ≠ 127 ∧ isDropped c = false ∧ escapeChar k c = [c]) := by
  have hsome : ∀ n < 256, ∀ e ∈ (escapeOf (UInt8.ofNat n)).toList,
      e ∈ escapes ∧ 32 ≤ e ∧ e ≠ 127 ∧ unescapeByte e = some (UInt8.ofNat n) ∧
        isDropped (UInt8.ofNat n) = false := by
    decide +kernel
  have hnone : ∀ n < 256, escapeOf (UInt8.ofNat n) = none → isDropped (UInt8.ofNat n) = false →
      32 ≤ UInt8.ofNat n ∧ UInt8.ofNat n ≠ 34 ∧ UInt8.ofNat n ≠ 92 ∧ UInt8.ofNat n ≠ 127 := by
    decide +kernel
  have hs := hsome c.toNat c.toNat_lt
  have hn := hnone c.toNat c.toNat_lt
  rw [UInt8.ofNat_toNat] at hs hn
  rw [escapeChar_eq_rowSpec, rowSpec]
  cases he : escapeOf c with
  | some e =>
    obtain ⟨h1, h2, h3, h4, h5⟩ := hs e (by rw [he]; exact List.mem_singleton_self e)
    exact Or.inl ⟨e, h1, h2, h3, h4, h5, rfl⟩
  | none =>
    cases hd : isDropped c with
    | true => exact Or.inr (Or.inl ⟨rfl, rfl⟩)
    | false =>
      obtain ⟨h1, h2, h3, h4⟩ := hn he hd
      exact Or.inr (Or.inr ⟨h1, h2, h3, h4, rfl, rfl⟩)

theorem escapeToRaw_append (k : CharKind) (s t : Bytes) :
    escapeToRaw k (s ++ t) = escapeToRaw k s ++ escapeToRaw k t :=
  List.flatMap_append

theorem escapeToRaw_cons (k : CharKind) (c : UInt8) (s : Bytes) :
    escapeToRaw k (c :: s) = escapeChar k c ++ escapeToRaw k s :=
  List.flatMap_cons

theorem mem_escapeToRaw {k : CharKind} {s : Bytes} {x : UInt8} (h : x ∈ escapeToRaw k s) :
    32 ≤ x ∧ x ≠ 127 := by
  obtain ⟨c, -, hx⟩ := List.mem_flatMap.1 h
  rcases escapeChar_cases k c with ⟨e, -, he, he', -, -, heq⟩ | ⟨-, heq⟩ | ⟨hc, -, -, hc', -, heq⟩
  · rw [heq] at hx
    rcases List.mem_cons.1 hx with rfl | hx
    · decide
    · rw [List.mem_singleton.1 hx]
      exact ⟨he, he'⟩
  · rw [heq] at hx
    exact absurd hx List.not_mem_nil
  · rw [heq] at hx
    rw [List.mem_singleton.1 hx]
    exact ⟨hc, hc'⟩

/-- The output is the content of a JSON string. -/
theorem exists_str_escapeToRaw (k : CharKind) : ∀ s : Bytes, ∃ str : Str,
    str.content = escapeToRaw k s
  | [] => ⟨[], rfl⟩
  | c :: s => by
    obtain ⟨str, hstr⟩ := exists_str_escapeToRaw k s
    rw [escapeToRaw_cons, ← hstr]
    rcases escapeChar_cases k c with ⟨e, he, -, -, -, -, heq⟩ | ⟨-, heq⟩ | ⟨h1, h2, h3, -, -, heq⟩
    · exact ⟨.escape ⟨e, he⟩ :: str, by rw [heq]; rfl⟩
    · exact ⟨str, by rw [heq]; rfl⟩
    · exact ⟨.plain ⟨c, h1, h2, h3⟩ :: str, by rw [heq]; rfl⟩

/-- Undoing the escapes gives the input without the dropped characters. -/
theorem undoEscapes_escapeToRaw (k : CharKind) : ∀ s : Bytes,
    undoEscapes (escapeToRaw k s) = s.filter fun c => !isDropped c
  | [] => rfl
  | c :: s => by
    have ih := undoEscapes_escapeToRaw k s
    rw [escapeToRaw_cons]
    rcases escapeChar_cases k c with ⟨e, -, -, -, he, hd, heq⟩ | ⟨hd, heq⟩ | ⟨-, -, h92, -, hd, heq⟩
    · rw [heq, List.cons_append, List.singleton_append, undoEscapes_escape he, ih,
        List.filter_cons_of_pos (by simp [hd])]
    · rw [heq, List.nil_append, ih, List.filter_cons_of_neg (by simp [hd])]
    · rw [heq, List.singleton_append, undoEscapes_cons h92, ih,
        List.filter_cons_of_pos (by simp [hd])]

/-- The output holds no control character. Between quotations it is one JSON string, whatever
follows, and undoing its escapes gives the input without the dropped characters. -/
theorem escapeToRaw_spec (k : CharKind) (s : Bytes) :
    (∀ c ∈ escapeToRaw k s, 32 ≤ c ∧ c ≠ 127) ∧
      (∃ str : Str, str.text = 34 :: (escapeToRaw k s ++ [34])) ∧
      (∀ rest, contentLength false (escapeToRaw k s ++ 34 :: rest) =
        some (escapeToRaw k s).length) ∧
      undoEscapes (escapeToRaw k s) = s.filter (fun c => !isDropped c) ∧
      ∀ t, escapeToRaw k (s ++ t) = escapeToRaw k s ++ escapeToRaw k t := by
  obtain ⟨str, hstr⟩ := exists_str_escapeToRaw k s
  refine ⟨fun c hc => mem_escapeToRaw hc, ⟨str, by rw [Str.text, hstr]⟩, fun rest => ?_,
    undoEscapes_escapeToRaw k s, escapeToRaw_append k s⟩
  rw [← hstr]
  exact contentLength_content str rest

end StringFilter

end HiSysEvent
