import HiSysEvent.HiSysEventParam

/-!
# The grammar of names

`isValidName` accepts a letter followed by letters, digits and underscores, up to the
given length (`isValidName_spec`). The state machine reads its table inside its bounds
only, and a name it accepts fits the array it is copied into, with a terminator.
-/

namespace HiSysEvent

namespace StringFilter

/-- An ASCII letter. -/
def IsLetter (c : UInt8) : Prop :=
  (65 ≤ c ∧ c ≤ 90) ∨ (97 ≤ c ∧ c ≤ 122)

/-- An ASCII letter, an ASCII digit or an underscore. -/
def IsNameByte (c : UInt8) : Prop :=
  IsLetter c ∨ (48 ≤ c ∧ c ≤ 57) ∨ c = 95

/-- A letter, then letters, digits and underscores. -/
def IsName (s : Bytes) : Prop :=
  ∃ c rest, s = c :: rest ∧ IsLetter c ∧ ∀ x ∈ rest, IsNameByte x

/-! ## The state machine -/

/-- `scanName` with the places of the table it reads. -/
def scanNameReads (k : CharKind) : ℤ → Bytes → Bool × List (ℤ × ℕ)
  | _, [] => (true, [])
  | state, c :: text =>
    let ic := k.toUnsigned c
    if ic ≥ charRange ∨ state < 0 ∨ state ≥ stateNum then (false, [])
    else
      let state' := statTab state ic
      if state' = stateStop then (false, [(state, ic)])
      else ((scanNameReads k state' text).1, (state, ic) :: (scanNameReads k state' text).2)

theorem scanNameReads_fst (k : CharKind) : ∀ (state : ℤ) (text : Bytes),
    (scanNameReads k state text).1 = scanName k state text
  | _, [] => rfl
  | state, c :: text => by
    simp only [scanNameReads, scanName]
    split_ifs
    · rfl
    · rfl
    · exact scanNameReads_fst k _ text

/-- Every read is one of the 2 × 128 entries. -/
theorem mem_scanNameReads (k : CharKind) : ∀ {state : ℤ} {text : Bytes} {r : ℤ × ℕ},
    r ∈ (scanNameReads k state text).2 → 0 ≤ r.1 ∧ r.1 < stateNum ∧ r.2 < charRange
  | _, [], _, h => absurd h List.not_mem_nil
  | state, c :: text, r, h => by
    simp only [scanNameReads] at h
    split_ifs at h with h1 h2
    · exact absurd h List.not_mem_nil
    · rw [List.mem_singleton.1 h]
      omega
    · rcases List.mem_cons.1 h with rfl | h
      · omega
      · exact mem_scanNameReads k h

theorem isLetter_iff {c : UInt8} : isLetter c.toNat = true ↔ IsLetter c := by
  simp only [isLetter, IsLetter, Bool.or_eq_true, Bool.and_eq_true, decide_eq_true_eq,
    UInt8.le_iff_toNat_le, UInt8.reduceToNat]
  exact or_comm

theorem statTab_begin (c : UInt8) :
    (IsLetter c → statTab stateBegin c.toNat = stateRun) ∧
      (¬IsLetter c → statTab stateBegin c.toNat = stateStop) := by
  rw [← isLetter_iff]
  exact ⟨fun h => by simp [statTab, h], fun h => by simp [statTab, h]⟩

theorem statTab_run (c : UInt8) :
    (IsNameByte c → statTab stateRun c.toNat = stateRun) ∧
      (¬IsNameByte c → statTab stateRun c.toNat = stateStop) := by
  have hbyte : (isDigit c.toNat || isLetter c.toNat || c.toNat == 95) = true ↔ IsNameByte c := by
    have h95 : c.toNat = 95 ↔ c = 95 := ⟨fun h => UInt8.toNat_inj.1 h, fun h => by rw [h]; rfl⟩
    simp only [isDigit, IsNameByte, ← isLetter_iff, Bool.or_eq_true, Bool.and_eq_true,
      decide_eq_true_eq, beq_iff_eq, UInt8.le_iff_toNat_le, UInt8.reduceToNat, h95]
    rw [or_assoc, or_left_comm]
  have hstate : ¬stateRun = stateBegin := by decide
  rw [← hbyte]
  exact ⟨fun h => by rw [statTab, if_neg hstate, if_pos h],
    fun h => by rw [statTab, if_neg hstate, if_neg h]⟩

theorem isNameByte_lt {c : UInt8} (h : IsNameByte c) : c.toNat < 128 := by
  simp only [IsNameByte, IsLetter, UInt8.le_iff_toNat_le, UInt8.reduceToNat] at h
  rcases h with (h | h) | h | rfl
  · omega
  · omega
  · omega
  · decide

theorem scanName_cons_of_ge (k : CharKind) (state : ℤ) {c : UInt8} (h : 128 ≤ c.toNat)
    (text : Bytes) : scanName k state (c :: text) = false := by
  rw [scanName]
  exact if_pos (Or.inl (k.toUnsigned_of_ge h))

/-- After the first character. -/
theorem scanName_run (k : CharKind) : ∀ text : Bytes,
    scanName k stateRun text = true ↔ ∀ c ∈ text, IsNameByte c
  | [] => iff_of_true rfl fun c hc => absurd hc List.not_mem_nil
  | c :: text => by
    rw [List.forall_mem_cons, ← scanName_run k text]
    rcases Nat.lt_or_ge c.toNat 128 with h | h
    · have hguard : ¬(c.toNat ≥ charRange ∨ stateRun < 0 ∨ stateRun ≥ stateNum) := by
        simp only [charRange, stateRun, stateNum]
        omega
      simp only [scanName, k.toUnsigned_of_lt h, if_neg hguard]
      by_cases hc : IsNameByte c
      · rw [(statTab_run c).1 hc, if_neg (by decide), and_iff_right hc]
      · rw [(statTab_run c).2 hc, if_pos rfl]
        exact iff_of_false (by simp) fun hand => hc hand.1
    · rw [scanName_cons_of_ge k stateRun h]
      exact iff_of_false (by simp) fun hand => absurd (isNameByte_lt hand.1) (by omega)

theorem scanName_begin (k : CharKind) (c : UInt8) (text : Bytes) :
    scanName k stateBegin (c :: text) = true ↔ IsLetter c ∧ ∀ x ∈ text, IsNameByte x := by
  rw [← scanName_run k text]
  rcases Nat.lt_or_ge c.toNat 128 with h | h
  · have hguard : ¬(c.toNat ≥ charRange ∨ stateBegin < 0 ∨ stateBegin ≥ stateNum) := by
      simp only [charRange, stateBegin, stateNum]
      omega
    simp only [scanName, k.toUnsigned_of_lt h, if_neg hguard]
    by_cases hc : IsLetter c
    · rw [(statTab_begin c).1 hc, if_neg (by decide), and_iff_right hc]
    · rw [(statTab_begin c).2 hc, if_pos rfl]
      exact iff_of_false (by simp) fun hand => hc hand.1
  · rw [scanName_cons_of_ge k stateBegin h]
    exact iff_of_false (by simp) fun hand => absurd (isNameByte_lt (Or.inl hand.1)) (by omega)

theorem isValidName_iff (k : CharKind) (s : Bytes) (maxSize : ℕ) :
    isValidName k s maxSize = true ↔ 1 ≤ s.length ∧ s.length ≤ maxSize ∧ IsName s := by
  cases s with
  | nil => exact iff_of_false (by simp [isValidName]) fun h => absurd h.1 (by decide)
  | cons c text =>
    have hname : IsName (c :: text) ↔ IsLetter c ∧ ∀ x ∈ text, IsNameByte x := by
      constructor
      · rintro ⟨c', text', h, hand⟩
        cases h
        exact hand
      · exact fun hand => ⟨c, text, rfl, hand⟩
    rw [hname, ← scanName_begin k, isValidName, if_neg (by simp)]
    split_ifs with hlen
    · exact iff_of_false (by simp) fun h => absurd h.2.1 (by omega)
    · exact ⟨fun h => ⟨by simp, by omega, h⟩, fun h => h.2.2⟩

/-! ## The arrays of the names -/

/-- The bytes of a name in a character array of `n`, with a terminator. -/
def FitsArray (n : ℕ) (s : Bytes) : Prop :=
  0 ∉ s ∧ s.length < n

theorem fitsArray_of_isValidName {k : CharKind} {s : Bytes} {maxSize : ℕ}
    (h : isValidName k s maxSize = true) : FitsArray (maxSize + 1) s :=
  ⟨not_mem_zero_of_isValidName h, Nat.lt_succ_of_le (length_of_isValidName h).2⟩

/-- The names of an event without an error are valid. -/
theorem isValidName_of_new {k : CharKind} {domain eventName : Bytes} {type : ℤ}
    {timeStamp : UInt64} (h : (EventBase.new k domain eventName type timeStamp).retCode = success) :
    isValidName k domain maxDomainLength = true ∧
      isValidName k eventName maxEventNameLength = true := by
  by_cases hd : isValidName k domain maxDomainLength = true
  · refine ⟨hd, ?_⟩
    by_contra hn
    rw [EventBase.retCode_new_eventName hd (Bool.eq_false_iff.2 hn)] at h
    exact absurd h (by decide)
  · rw [EventBase.retCode_new_domain (Bool.eq_false_iff.2 hd)] at h
    exact absurd h (by decide)

/-- `IsValidName` accepts its grammar, reads its table inside its bounds, and the names and keys
accepted fit their arrays with a terminator, where they are read back. -/
theorem isValidName_spec (k : CharKind) (s : Bytes) (maxSize : ℕ) :
    (isValidName k s maxSize = true ↔ 1 ≤ s.length ∧ s.length ≤ maxSize ∧ IsName s) ∧
      ((scanNameReads k stateBegin s).1 = scanName k stateBegin s ∧
        ∀ r ∈ (scanNameReads k stateBegin s).2, 0 ≤ r.1 ∧ r.1 < stateNum ∧ r.2 < charRange) ∧
      (∀ domain eventName type timeStamp,
        (EventBase.new k domain eventName type timeStamp).retCode = success →
          FitsArray (maxDomainLength + 1) domain ∧ FitsArray (maxEventNameLength + 1) eventName ∧
          cString (EventBase.new k domain eventName type timeStamp).header.domain.1 = domain ∧
          cString (EventBase.new k domain eventName type timeStamp).header.name.1 = eventName) ∧
      (checkKey k s = success → FitsArray maxLengthOfParamName s) := by
  refine ⟨isValidName_iff k s maxSize, ⟨scanNameReads_fst k _ s, fun r hr =>
    mem_scanNameReads k hr⟩, ?_, ?_⟩
  · intro domain eventName type timeStamp h
    obtain ⟨hd, hn⟩ := isValidName_of_new h
    have hs := EventBase.new_started hd hn type timeStamp
    refine ⟨fitsArray_of_isValidName hd, fitsArray_of_isValidName hn, ?_, ?_⟩
    · rw [hs.domain, cString_pad (not_mem_zero_of_isValidName hd)]
    · rw [hs.name, cString_pad (not_mem_zero_of_isValidName hn)]
  · intro h
    cases hv : isValidName k s maxParamNameLength with
    | true => exact fitsArray_of_isValidName hv
    | false => simp [checkKey, hv] at h

/-- A domain, a name and a key. -/
theorem isValidName_spec_key :
    FitsArray (maxDomainLength + 1) [65] ∧ FitsArray maxLengthOfParamName [65] :=
  ⟨((isValidName_spec .signed [65] 16).2.2.1 [65] [66] 1 0 (by decide)).1,
    (isValidName_spec .signed [65] 16).2.2.2 (by decide)⟩

end StringFilter

end HiSysEvent
