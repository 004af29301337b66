import HiSysEvent.NameGrammar
import HiSysEvent.WriteController

/-!
# The keys of call sites

The limiter tells call sites apart by a hash of the event name, the function and the line, joined
with underscores. The hash reads the first 256 bytes. Names and functions may hold underscores
themselves, and only the line does not.

So a site has bytes of its own exactly if its string is shorter than 256 bytes, its name has no
underscore, and no part of its function in front of one goes on a valid name
(`callSite_ownBytes_iff`).
-/

namespace HiSysEvent

open StringFilter

/-- The separator `'_'`. -/
abbrev underscore : UInt8 := 95

/-- A call site with a valid event name. -/
structure CallSite (k : CharKind) where
  eventName : Bytes
  func : Bytes
  line : ℤ
  valid : isValidName k eventName maxEventNameLength = true
  nul : 0 ∉ func
  range : -2 ^ 63 ≤ line ∧ line < 2 ^ 63

/-! ## Decimal numbers -/

/-- The bytes of the digits. -/
def digits (n : ℕ) : Bytes :=
  (Nat.toDigits 10 n).map fun c => UInt8.ofNat c.toNat

theorem toNat_digit {n : ℕ} {d : Char} (h : d ∈ Nat.toDigits 10 n) :
    (UInt8.ofNat d.toNat).toNat = d.toNat ∧ 48 ≤ d.toNat ∧ d.toNat ≤ 57 := by
  have hdigit := Char.isDigit_iff_toNat.1
    (Nat.isDigit_of_mem_toDigits (by decide) (by decide) h)
  exact ⟨UInt8.toNat_ofNat_of_lt' (lt_of_le_of_lt hdigit.2 (by decide)), hdigit⟩

theorem mem_digits {n : ℕ} {c : UInt8} (h : c ∈ digits n) : 48 ≤ c.toNat ∧ c.toNat ≤ 57 := by
  obtain ⟨d, hd, rfl⟩ := List.mem_map.1 h
  rw [(toNat_digit hd).1]
  exact (toNat_digit hd).2

theorem decimal_eq (n : ℤ) : decimal n = (if n < 0 then [45] else []) ++ digits n.natAbs :=
  rfl

theorem not_mem_decimal {n : ℤ} {c : UInt8} (hsign : c ≠ 45)
    (hdigit : ¬(48 ≤ c.toNat ∧ c.toNat ≤ 57)) : c ∉ decimal n := by
  intro h
  rcases List.mem_append.1 (decimal_eq n ▸ h) with h | h
  · split at h
    case isTrue => exact hsign (List.mem_singleton.1 h)
    case isFalse => exact List.not_mem_nil h
  · exact hdigit (mem_digits h)

/-- The digits are read back. -/
theorem digits_injective {m n : ℕ} (h : digits m = digits n) : m = n := by
  have hback : ∀ l : ℕ, (digits l).map (fun b => Char.ofNat b.toNat) = Nat.toDigits 10 l := by
    intro l
    rw [digits, List.map_map]
    refine (List.map_congr_left fun d hd => ?_).trans (List.map_id _)
    dsimp only [Function.comp]
    rw [(toNat_digit hd).1, Char.ofNat_toNat, id]
  have hdigits := congrArg (List.map fun b => Char.ofNat b.toNat) h
  rw [hback, hback] at hdigits
  rw [← @Nat.ofDigitChars_ten_toDigits m, hdigits, Nat.ofDigitChars_ten_toDigits]

theorem decimal_injective {m n : ℤ} (h : decimal m = decimal n) : m = n := by
  have hsign : ∀ l : ℕ, (45 : UInt8) ∉ digits l := fun l hmem =>
    absurd (mem_digits hmem).1 (by decide)
  rw [decimal_eq, decimal_eq] at h
  split_ifs at h with hm hn hn
  · have habs := digits_injective (List.append_cancel_left h)
    omega
  · have hmem : (45 : UInt8) ∈ [45] ++ digits m.natAbs := List.mem_cons_self
    rw [h, List.nil_append] at hmem
    exact absurd hmem (hsign n.natAbs)
  · have hmem : (45 : UInt8) ∈ [45] ++ digits n.natAbs := List.mem_cons_self
    rw [← h, List.nil_append] at hmem
    exact absurd hmem (hsign m.natAbs)
  · have habs := digits_injective h
    omega

/-! ## The bytes that are hashed -/

namespace CallSite

variable {k : CharKind}

/-- The string of a site. -/
def joined (s : CallSite k) : Bytes :=
  cString s.eventName ++ [underscore] ++ cString s.func ++ [underscore] ++ decimal s.line

/-- What `GenerateHash` reads of it. -/
def consumed (s : CallSite k) : Bytes :=
  s.joined.take 256

theorem key_eq (s : CallSite k) :
    concatenateInfoAsKey k s.eventName s.func s.line = generateHash k s.consumed := by
  rw [concatenateInfoAsKey, generateHash, generateHash, consumed, List.take_take, Nat.min_self]
  rfl

theorem joined_eq (s : CallSite k) : s.joined =
    s.eventName ++ underscore :: (s.func ++ underscore :: decimal s.line) := by
  rw [joined, cString_eq_self (not_mem_zero_of_isValidName s.valid), cString_eq_self s.nul]
  simp only [List.append_assoc, List.cons_append, List.nil_append]

theorem ext_of_parts {s t : CallSite k} (hname : s.eventName = t.eventName)
    (hfunc : s.func = t.func) (hline : s.line = t.line) : s = t := by
  rcases s with ⟨name, func, line, hv, hn, hr⟩
  rcases t with ⟨name', func', line', hv', hn', hr'⟩
  dsimp only at hname hfunc hline
  subst hname hfunc hline
  rfl

/-- A site with other parts of the same string. -/
theorem consumed_eq_of_joined {s t : CallSite k} (h : s.joined = t.joined) :
    s.consumed = t.consumed := by
  rw [consumed, consumed, h]

end CallSite

/-! ## Where a string splits -/

/-- Two splits of a string at a separator are the same, or the one behind has it in front. -/
theorem append_cons_cases {α : Type} {d : α} {p q a b : List α} (h : p ++ d :: a = q ++ d :: b) :
    (p = q ∧ a = b) ∨ (∃ x, q = p ++ d :: x ∧ a = x ++ d :: b) ∨
      ∃ x, p = q ++ d :: x ∧ b = x ++ d :: a := by
  rcases List.append_eq_append_iff.1 h with ⟨_ | ⟨e, x⟩, hq, hx⟩ | ⟨_ | ⟨e, x⟩, hp, hx⟩
  · exact Or.inl ⟨by rw [hq, List.append_nil], List.tail_eq_of_cons_eq hx⟩
  · obtain ⟨rfl, htail⟩ := List.cons.inj hx
    exact Or.inr (Or.inl ⟨x, hq, htail⟩)
  · exact Or.inl ⟨by rw [hp, List.append_nil], (List.tail_eq_of_cons_eq hx).symm⟩
  · obtain ⟨rfl, htail⟩ := List.cons.inj hx
    exact Or.inr (Or.inr ⟨x, hp, htail⟩)

/-- The line is behind the last separator. -/
theorem CallSite.joined_inj {k : CharKind} {s t : CallSite k} (h : s.joined = t.joined) :
    s.line = t.line ∧
      s.eventName ++ underscore :: s.func = t.eventName ++ underscore :: t.func := by
  have hsep : ∀ l : ℤ, underscore ∉ decimal l := fun l => not_mem_decimal (by decide) (by decide)
  have hlast : ∀ u : CallSite k, u.joined =
      (u.eventName ++ underscore :: u.func) ++ underscore :: decimal u.line := fun u => by
    rw [u.joined_eq, List.append_assoc, List.cons_append]
  rw [hlast, hlast] at h
  rcases append_cons_cases h with ⟨hparts, hline⟩ | ⟨x, -, hline⟩ | ⟨x, -, hline⟩
  · exact ⟨decimal_injective hline, hparts⟩
  · exact absurd (hline ▸ List.mem_append_right x List.mem_cons_self) (hsep s.line)
  · exact absurd (hline ▸ List.mem_append_right x List.mem_cons_self) (hsep t.line)

/-- The part of a valid name in front of an underscore is a valid name. -/
theorem isValidName_before {k : CharKind} {a b : Bytes} {n : ℕ}
    (h : isValidName k (a ++ underscore :: b) n = true) : isValidName k a n = true := by
  obtain ⟨-, hlength, c, rest, hname, hletter, hrest⟩ := (isValidName_iff k _ n).1 h
  rcases a with _ | ⟨e, a⟩
  · obtain ⟨rfl, -⟩ := List.cons.inj hname
    exact absurd (isLetter_iff.2 hletter) (by decide)
  · obtain ⟨rfl, rfl⟩ := List.cons.inj hname
    rw [List.cons_append, List.length_cons, List.length_append] at hlength
    refine (isValidName_iff k _ n).2 ⟨by simp, by rw [List.length_cons]; omega, e, a, rfl, hletter,
      fun x hx => hrest x (List.mem_append_left _ hx)⟩

/-! ## Sites with bytes of their own -/

variable {k : CharKind}

/-- The string is read to its end, and does not split in another place. -/
structure CallSite.OwnBytes (s : CallSite k) : Prop where
  length : s.joined.length < 256
  name : underscore ∉ s.eventName
  func : ∀ x y, s.func = x ++ underscore :: y →
    isValidName k (s.eventName ++ underscore :: x) maxEventNameLength = false

theorem CallSite.OwnBytes.unique {s t : CallSite k} (h : s.OwnBytes)
    (hbytes : t.consumed = s.consumed) : t = s := by
  have hread : s.consumed = s.joined := List.take_of_length_le h.length.le
  have hlt : t.joined.length < 256 := by
    have hlength := congrArg List.length hbytes
    have hs := h.length
    rw [hread, CallSite.consumed, List.length_take] at hlength
    omega
  have hjoined : t.joined = s.joined := by
    rw [← hread, ← hbytes, CallSite.consumed, List.take_of_length_le hlt.le]
  obtain ⟨hline, hparts⟩ := CallSite.joined_inj hjoined
  rcases append_cons_cases hparts with ⟨hname, hfunc⟩ | ⟨x, hname, -⟩ | ⟨x, hname, hfunc⟩
  · exact CallSite.ext_of_parts hname hfunc hline
  · exact absurd (hname ▸ List.mem_append_right _ List.mem_cons_self) h.name
  · have hvalid := t.valid
    rw [hname, h.func x t.func hfunc] at hvalid
    exact absurd hvalid Bool.false_ne_true

/-- A string of at least 256 bytes is read alike if it goes on. -/
theorem CallSite.exists_longer (s : CallSite k) (h : 256 ≤ s.joined.length) :
    ∃ t : CallSite k, t ≠ s ∧ t.consumed = s.consumed := by
  have hnul : 0 ∉ s.func ++ underscore :: decimal s.line := by
    intro hmem
    rcases List.mem_append.1 hmem with hmem | hmem
    · exact s.nul hmem
    · rcases List.mem_cons.1 hmem with h0 | hmem
      · exact absurd h0 (by decide)
      · exact not_mem_decimal (by decide) (by decide) hmem
  let t : CallSite k := ⟨s.eventName, s.func ++ underscore :: decimal s.line, 0, s.valid, hnul,
    by decide⟩
  have hjoined : t.joined = s.joined ++ underscore :: decimal 0 := by
    rw [t.joined_eq, s.joined_eq]
    simp [t]
  refine ⟨t, fun heq => ?_, ?_⟩
  · have hfunc := congrArg (fun u => u.func.length) heq
    simp [t] at hfunc
  · rw [CallSite.consumed, hjoined, List.take_append_of_le_length h, CallSite.consumed]

/-- A string that splits at an underscore of the name. -/
theorem CallSite.exists_shorter_name (s : CallSite k) (h : underscore ∈ s.eventName) :
    ∃ t : CallSite k, t ≠ s ∧ t.consumed = s.consumed := by
  obtain ⟨a, b, hname⟩ := List.append_of_mem h
  have hvalid := s.valid
  rw [hname] at hvalid
  have hnul : 0 ∉ b ++ underscore :: s.func := by
    intro hmem
    rcases List.mem_append.1 hmem with hmem | hmem
    · refine not_mem_zero_of_isValidName s.valid ?_
      rw [hname]
      exact List.mem_append_right _ (List.mem_cons_of_mem _ hmem)
    · rcases List.mem_cons.1 hmem with h0 | hmem
      · exact absurd h0 (by decide)
      · exact s.nul hmem
  let t : CallSite k := ⟨a, b ++ underscore :: s.func, s.line, isValidName_before hvalid, hnul,
    s.range⟩
  refine ⟨t, fun heq => ?_, consumed_eq_of_joined ?_⟩
  · have hlength := congrArg (fun u => u.eventName.length) heq
    simp [t, hname] at hlength
  · rw [t.joined_eq, s.joined_eq, hname]
    simp [t]

/-- A string that splits at an underscore of the function. -/
theorem CallSite.exists_longer_name (s : CallSite k) {x y : Bytes}
    (hfunc : s.func = x ++ underscore :: y)
    (hvalid : isValidName k (s.eventName ++ underscore :: x) maxEventNameLength = true) :
    ∃ t : CallSite k, t ≠ s ∧ t.consumed = s.consumed := by
  have hnul : 0 ∉ y := fun hmem => s.nul (by
    rw [hfunc]
    exact List.mem_append_right _ (List.mem_cons_of_mem _ hmem))
  let t : CallSite k := ⟨s.eventName ++ underscore :: x, y, s.line, hvalid, hnul, s.range⟩
  refine ⟨t, fun heq => ?_, consumed_eq_of_joined ?_⟩
  · have hlength := congrArg (fun u => u.eventName.length) heq
    simp [t] at hlength
  · rw [t.joined_eq, s.joined_eq, hfunc]
    simp [t]

/-- The key of a site is the hash of what is read of its string, and no other site is read alike if
and only if the site has bytes of its own. -/
theorem callSite_ownBytes_iff (k : CharKind) (s : CallSite k) :
    concatenateInfoAsKey k s.eventName s.func s.line = generateHash k s.consumed ∧
    ((∀ t : CallSite k, t ≠ s → t.consumed ≠ s.consumed) ↔ s.OwnBytes) := by
  refine ⟨s.key_eq, fun h => ?_, fun h t hne hbytes => hne (h.unique hbytes)⟩
  refine ⟨?_, fun hmem => ?_, fun x y hfunc => ?_⟩
  · by_contra hlength
    obtain ⟨t, hne, hbytes⟩ := s.exists_longer (not_lt.1 hlength)
    exact h t hne hbytes
  · obtain ⟨t, hne, hbytes⟩ := s.exists_shorter_name hmem
    exact h t hne hbytes
  · by_contra hvalid
    obtain ⟨t, hne, hbytes⟩ := s.exists_longer_name hfunc (Bool.not_eq_false _ ▸ hvalid)
    exact h t hne hbytes

/-- An underscore that is the name's or the function's, and a line behind 256 bytes. -/
theorem not_callSite_ownBytes :
    concatenateInfoAsKey .signed [65] [66, 95, 67] 7 =
      concatenateInfoAsKey .signed [65, 95, 66] [67] 7 ∧
    concatenateInfoAsKey .signed [65] (List.replicate 300 66) 1 =
      concatenateInfoAsKey .signed [65] (List.replicate 300 66) 2 ∧
    ¬∀ s t : CallSite .signed, s ≠ t → s.consumed ≠ t.consumed := by
  refine ⟨by decide +kernel, by decide +kernel, fun h => ?_⟩
  refine h ⟨[65], [66, 95, 67], 7, by decide, by decide, by decide⟩
    ⟨[65, 95, 66], [67], 7, by decide, by decide, by decide⟩ (fun heq => ?_) (by decide +kernel)
  exact absurd (congrArg CallSite.eventName heq) (by decide)

end HiSysEvent
