import HiSysEvent.Def

/-!
# Names and escaped strings

`StringFilter` checks the names of domains, events and parameters with a state machine
over a table (`isValidName`) and escapes string values through a table of replacements
(`escapeToRaw`). Both index their tables with a `char`, whose signedness is the
target's : a byte from 128 on is negative on one target and past the table's end on the
other, and both functions treat the two alike (`escapeToRaw_charKind`,
`isValidName_charKind`).
-/

namespace HiSysEvent

/-- The signedness of the target's `char`. -/
inductive CharKind
  | signed
  | unsigned
  deriving DecidableEq

/-- `static_cast<int>(c)`. -/
def CharKind.toInt : CharKind → UInt8 → ℤ
  | .signed, c => if c.toNat < 128 then c.toNat else c.toNat - 256
  | .unsigned, c => c.toNat

/-- `static_cast<unsigned int>(c)`. -/
def CharKind.toUnsigned (k : CharKind) (c : UInt8) : ℕ :=
  (k.toInt c % 2 ^ 32).toNat

theorem CharKind.toInt_of_lt (k : CharKind) {c : UInt8} (h : c.toNat < 128) :
    k.toInt c = c.toNat := by
  cases k <;> simp [CharKind.toInt, h]

theorem CharKind.toUnsigned_of_lt (k : CharKind) {c : UInt8} (h : c.toNat < 128) :
    k.toUnsigned c = c.toNat := by
  rw [CharKind.toUnsigned, k.toInt_of_lt h]
  omega

theorem CharKind.toInt_of_ge (k : CharKind) {c : UInt8} (h : 128 ≤ c.toNat) :
    k.toInt c < 0 ∨ 128 ≤ k.toInt c := by
  have := c.toNat_lt
  cases k
  · exact Or.inl (by rw [CharKind.toInt, if_neg (by omega)]; omega)
  · exact Or.inr (by rw [CharKind.toInt]; omega)

theorem CharKind.toUnsigned_of_ge (k : CharKind) {c : UInt8} (h : 128 ≤ c.toNat) :
    128 ≤ k.toUnsigned c := by
  have := c.toNat_lt
  unfold CharKind.toUnsigned
  cases k
  · rw [CharKind.toInt, if_neg (by omega)]
    omega
  · rw [CharKind.toInt]
    omega

namespace StringFilter

abbrev charRange : ℕ := 128
abbrev stateNum : ℤ := 2
abbrev stateBegin : ℤ := 0
abbrev stateRun : ℤ := 1
abbrev stateStop : ℤ := -1

/-- The characters with a replacement of their own. -/
def mapping : List (ℕ × Bytes) :=
  [(92, [92, 92]), (34, [92, 34]), (8, [92, 98]), (12, [92, 102]), (10, [92, 110]),
    (13, [92, 114]), (9, [92, 116])]

/-- The characters a stream extraction skips. -/
def isSpace (i : ℕ) : Bool :=
  i == 32 || (9 ≤ i && i ≤ 13)

/-- A row of `charTab_` up to its terminator. Each row is extracted from a stream, so the
row of a space character without a replacement stays empty. -/
def charTab (i : ℕ) : Bytes :=
  match mapping.lookup i with
  | some e => e
  | none => if isSpace i then [] else [UInt8.ofNat i]

/-- What `escapeToRaw` appends for one character. -/
def escapeChar (k : CharKind) (c : UInt8) : Bytes :=
  let ic := k.toInt c
  if 0 ≤ ic ∧ ic < charRange ∧ (charTab ic.toNat).getD 1 0 ≠ 0 then charTab ic.toNat
  else if ic = 0x7F ∨ (0 ≤ ic ∧ ic ≤ 0x1F) then []
  else [c]

/-- Escape the characters of `mapping`, drop the other control characters. -/
def escapeToRaw (k : CharKind) (text : Bytes) : Bytes :=
  text.flatMap (escapeChar k)

/-- `a` to `z` and `A` to `Z`. -/
def isLetter (i : ℕ) : Bool :=
  (97 ≤ i && i ≤ 122) || (65 ≤ i && i ≤ 90)

/-- `0` to `9`. -/
def isDigit (i : ℕ) : Bool :=
  48 ≤ i && i ≤ 57

/-- The state table. -/
def statTab (state : ℤ) (i : ℕ) : ℤ :=
  if state = stateBegin then if isLetter i then stateRun else stateStop
  else if isDigit i || isLetter i || i == 95 then stateRun else stateStop

/-- The state machine of `isValidName` from a state on. -/
def scanName (k : CharKind) : ℤ → Bytes → Bool
  | _, [] => true
  | state, c :: text =>
    let ic := k.toUnsigned c
    if ic ≥ charRange ∨ state < 0 ∨ state ≥ stateNum then false
    else
      let state' := statTab state ic
      if state' = stateStop then false else scanName k state' text

/-- `IsValidName`. -/
def isValidName (k : CharKind) (text : Bytes) (maxSize : ℕ) : Bool :=
  if text.isEmpty then false
  else if text.length > maxSize then false
  else scanName k stateBegin text

/-! ## The signedness of `char` does not matter -/

theorem escapeChar_of_ge (k : CharKind) {c : UInt8} (h : 128 ≤ c.toNat) :
    escapeChar k c = [c] := by
  have := k.toInt_of_ge h
  simp only [escapeChar, charRange]
  rw [if_neg (by omega), if_neg (by omega)]

theorem escapeChar_charKind (k k' : CharKind) (c : UInt8) : escapeChar k c = escapeChar k' c := by
  rcases Nat.lt_or_ge c.toNat 128 with h | h
  · simp only [escapeChar, k.toInt_of_lt h, k'.toInt_of_lt h]
  · rw [escapeChar_of_ge k h, escapeChar_of_ge k' h]

theorem escapeToRaw_charKind (k k' : CharKind) (text : Bytes) :
    escapeToRaw k text = escapeToRaw k' text := by
  unfold escapeToRaw
  rw [funext (escapeChar_charKind k k')]

theorem scanName_charKind (k k' : CharKind) :
    ∀ (state : ℤ) (text : Bytes), scanName k state text = scanName k' state text
  | _, [] => rfl
  | state, c :: text => by
    rcases Nat.lt_or_ge c.toNat 128 with h | h
    · simp only [scanName, k.toUnsigned_of_lt h, k'.toUnsigned_of_lt h,
        scanName_charKind k k' _ text]
    · rw [scanName, scanName, if_pos (Or.inl (k.toUnsigned_of_ge h)),
        if_pos (Or.inl (k'.toUnsigned_of_ge h))]

theorem isValidName_charKind (k k' : CharKind) (text : Bytes) (maxSize : ℕ) :
    isValidName k text maxSize = isValidName k' text maxSize := by
  unfold isValidName
  rw [scanName_charKind k k']

/-! ## Valid names fit a NUL-terminated array -/

theorem statTab_zero (state : ℤ) : statTab state 0 = stateStop := by
  unfold statTab
  split_ifs <;> first | rfl | simp_all [isLetter, isDigit]

theorem not_mem_zero_of_scanName (k : CharKind) :
    ∀ (state : ℤ) (text : Bytes), scanName k state text = true → 0 ∉ text
  | _, [], _ => by simp
  | state, c :: text, h => by
    simp only [scanName] at h
    split_ifs at h with h1 h2
    have hc : c ≠ 0 := by
      rintro rfl
      exact h2 (by simpa [k.toUnsigned_of_lt] using statTab_zero state)
    have htext := not_mem_zero_of_scanName k _ text h
    simpa [hc.symm] using htext

theorem length_of_isValidName {k : CharKind} {text : Bytes} {maxSize : ℕ}
    (h : isValidName k text maxSize = true) : 0 < text.length ∧ text.length ≤ maxSize := by
  unfold isValidName at h
  split_ifs at h with h1 h2
  exact ⟨List.length_pos_iff.2 (by simpa using h1), by omega⟩

theorem not_mem_zero_of_isValidName {k : CharKind} {text : Bytes} {maxSize : ℕ}
    (h : isValidName k text maxSize = true) : 0 ∉ text := by
  unfold isValidName at h
  split_ifs at h
  exact not_mem_zero_of_scanName k _ text h

end StringFilter

end HiSysEvent
