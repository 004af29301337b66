import Mathlib.Data.List.Basic
import Mathlib.Data.List.Forall2
import Mathlib.Tactic.Ring
import Mathlib.Tactic.Linarith

/-!
# Byte strings read from the left

A `Reader` takes a value off the front of a byte string, or fails. `Reads r e a` says
that `r` takes exactly the bytes `e` for the value `a`, whatever follows them. Readers
composed in sequence read concatenated encodings (`Reads.bind`), and a counted
repetition reads a list (`Reads.times`), so a format is decoded by composing the facts
of its fields.

The fields are little-endian numbers of fixed width (`le`, `readLE`) and tagged varints
(`tagged`, `readTagged`) : a first byte with two tag bits, a continuation bit and five
payload bits, then seven payload bits a byte under a continuation bit. `zigzag` folds
the integers into the naturals, small absolute values first.
-/

namespace Wire

/-- A string of bytes. -/
abbrev Bytes := List UInt8

/-- Take a value off the front of the input, or fail. -/
abbrev Reader := StateT Bytes Option

/-- `r` takes exactly the bytes `e` for the value `a`, whatever follows. -/
def Reads {α : Type} (r : Reader α) (e : Bytes) (a : α) : Prop :=
  ∀ rest, r.run (e ++ rest) = some (a, rest)

variable {α β γ : Type}

/-! ## Sequencing -/

theorem Reads.pure (a : α) : Reads (Pure.pure a) [] a :=
  fun _ => rfl

theorem Reads.bind {r : Reader α} {f : α → Reader β} {e e' : Bytes} {a : α} {b : β}
    (h : Reads r e a) (h' : Reads (f a) e' b) : Reads (r >>= f) (e ++ e') b := by
  intro rest
  rw [StateT.run_bind, List.append_assoc, h (e' ++ rest)]
  exact h' rest

/-- A step whose value the next one ignores. -/
theorem Reads.seq {r : Reader α} {r' : Reader β} {e e' : Bytes} {a : α} {b : β}
    (h : Reads r e a) (h' : Reads r' e' b) : Reads (r >>= fun _ => r') (e ++ e') b :=
  h.bind (f := fun _ => r') h'

/-- A last step that takes no bytes. -/
theorem Reads.bind_pure {r : Reader α} {f : α → β} {e : Bytes} {a : α} (h : Reads r e a) :
    Reads (r >>= fun x => Pure.pure (f x)) e (f a) := by
  simpa using h.bind (f := fun x => Pure.pure (f x)) (Reads.pure (f a))

theorem Reads.map {r : Reader α} {e : Bytes} {a : α} (g : α → β) (h : Reads r e a) :
    Reads (g <$> r) e (g a) := by
  intro rest
  rw [StateT.run_map, h rest]
  rfl

/-- Fail unless `p` holds of the value read. -/
def check (p : α → Bool) (r : Reader α) : Reader α := do
  let a ← r
  if p a then Pure.pure a else failure

theorem Reads.check {r : Reader α} {e : Bytes} {a : α} {p : α → Bool} (h : Reads r e a)
    (hp : p a = true) : Reads (Wire.check p r) e a := by
  have h' : Reads (if p a = true then Pure.pure a else failure : Reader α) [] a := by
    rw [if_pos hp]
    exact Reads.pure a
  have := h.bind (f := fun x => if p x then Pure.pure x else failure) h'
  rwa [List.append_nil] at this

/-- Read `n` values in sequence. -/
def times (r : Reader α) : ℕ → Reader (List α)
  | 0 => Pure.pure []
  | n + 1 => do
    let a ← r
    let as ← times r n
    Pure.pure (a :: as)

/-- A counted repetition reads a list item by item. -/
theorem Reads.times {r : Reader α} {enc : β → Bytes} {val : β → α} :
    ∀ xs : List β, (∀ x ∈ xs, Reads r (enc x) (val x)) →
      Reads (Wire.times r xs.length) (xs.flatMap enc) (xs.map val)
  | [], _ => Reads.pure []
  | x :: xs, h =>
    (h x (by simp)).bind (Reads.times xs fun y hy => h y (by simp [hy])).bind_pure

/-! ## Raw bytes and numbers of fixed width -/

/-- Take `n` bytes. -/
def take (n : ℕ) : Reader Bytes :=
  fun input => if n ≤ input.length then some (input.take n, input.drop n) else none

theorem reads_take {n : ℕ} {bs : Bytes} (h : bs.length = n) : Reads (take n) bs bs := by
  intro rest
  subst h
  simp [take, StateT.run]

/-- `n` bytes of `v`, least significant first. -/
def le : ℕ → ℕ → Bytes
  | 0, _ => []
  | n + 1, v => UInt8.ofNat v :: le n (v / 256)

@[simp] theorem length_le : ∀ n v : ℕ, (le n v).length = n
  | 0, _ => rfl
  | n + 1, v => by simp [le, length_le n]

theorem le_mod : ∀ n v : ℕ, le n (v % 256 ^ n) = le n v
  | 0, _ => rfl
  | n + 1, v => by
    rw [le, le, pow_succ', Nat.mod_mul_right_div_self, le_mod n]
    congr 1
    rw [← UInt8.toNat_inj, UInt8.toNat_ofNat', UInt8.toNat_ofNat',
      Nat.mod_mod_of_dvd _ (Dvd.intro _ rfl)]

/-- The number whose bytes are `bs`, least significant first. -/
def ofLE : Bytes → ℕ
  | [] => 0
  | b :: bs => b.toNat + 256 * ofLE bs

theorem ofLE_le : ∀ n v : ℕ, v < 256 ^ n → ofLE (le n v) = v
  | 0, v, h => by
    have : v = 0 := by simpa using h
    simp [le, ofLE, this]
  | n + 1, v, h => by
    have hdiv : v / 256 < 256 ^ n := by
      rw [pow_succ] at h
      exact Nat.div_lt_of_lt_mul (by linarith)
    rw [le, ofLE, ofLE_le n _ hdiv, UInt8.toNat_ofNat']
    omega

/-- A little-endian number of `n` bytes. -/
def readLE (n : ℕ) : Reader ℕ :=
  ofLE <$> take n

theorem reads_readLE {n v : ℕ} (h : v < 256 ^ n) : Reads (readLE n) (le n v) v := by
  have := (reads_take (length_le n v)).map ofLE
  rwa [ofLE_le n v h] at this

/-! ## Overwriting -/

/-- `dest` with `src` written over it from `off` on. -/
def overwrite (dest : Bytes) (off : ℕ) (src : Bytes) : Bytes :=
  dest.take off ++ src ++ dest.drop (off + src.length)

theorem length_overwrite {dest src : Bytes} {off : ℕ} (h : off ≤ dest.length) :
    (overwrite dest off src).length = max dest.length (off + src.length) := by
  simp only [overwrite, List.length_append, List.length_take, List.length_drop]
  omega

theorem overwrite_length_left {dest src : Bytes} : overwrite dest dest.length src = dest ++ src := by
  simp [overwrite]

/-- Overwriting the middle field of three. -/
theorem overwrite_append {pre old post src : Bytes} (h : old.length = src.length) :
    overwrite (pre ++ old ++ post) pre.length src = pre ++ src ++ post := by
  simp [overwrite, ← h, ← List.drop_drop]

/-- Two writes one after the other are one write. -/
theorem overwrite_overwrite {dest xs ys : Bytes} {off : ℕ} (h : off ≤ dest.length) :
    overwrite (overwrite dest off xs) (off + xs.length) ys = overwrite dest off (xs ++ ys) := by
  have hlen : (dest.take off ++ xs).length = off + xs.length := by simp [h]
  have htake : (overwrite dest off xs).take (off + xs.length) = dest.take off ++ xs := by
    rw [overwrite, ← hlen, List.take_left']
    rfl
  have hdrop : (overwrite dest off xs).drop (off + xs.length + ys.length) =
      dest.drop (off + (xs ++ ys).length) := by
    rw [overwrite, ← List.drop_drop, ← hlen, List.drop_left' rfl, List.drop_drop, hlen,
      List.length_append, Nat.add_assoc]
  rw [overwrite, htake, hdrop, overwrite]
  simp only [List.append_assoc]

/-- Only the bytes kept matter to a write that ends within them. -/
theorem take_overwrite {dest src : Bytes} {off n : ℕ} (hoff : off ≤ n) (hn : n ≤ dest.length) :
    (overwrite dest off src).take (max n (off + src.length)) =
      overwrite (dest.take n) off src := by
  have hlen : (dest.take off ++ src).length = off + src.length := by simp; omega
  have hsub : max n (off + src.length) - (off + src.length) = n - (off + src.length) := by omega
  rw [overwrite, List.take_append, List.take_of_length_le (by omega), hlen, hsub, overwrite,
    List.take_take, Nat.min_eq_left hoff, List.drop_take]

/-! ## Varints -/

/-- Seven payload bits a byte, least significant first, the high bit set on every byte
but the last. Nothing for `0`. -/
def groups (v : ℕ) : Bytes :=
  if v = 0 then []
  else UInt8.ofNat ((if v < 128 then 0 else 128) + v % 128) :: groups (v / 128)
termination_by v

theorem groups_zero : groups 0 = [] := by
  rw [groups, if_pos rfl]

theorem groups_pos {v : ℕ} (h : 0 < v) :
    groups v = UInt8.ofNat ((if v < 128 then 0 else 128) + v % 128) :: groups (v / 128) := by
  rw [groups, if_neg (by omega)]

theorem length_groups_le : ∀ {n v : ℕ}, v < 128 ^ n → (groups v).length ≤ n
  | 0, v, h => by
    rw [show v = 0 by simpa using h, groups_zero, List.length_nil]
  | n + 1, v, h => by
    rcases Nat.eq_zero_or_pos v with rfl | hpos
    · rw [groups_zero]
      exact Nat.zero_le _
    · have := length_groups_le (n := n) (v := v / 128) (Nat.div_lt_of_lt_mul (by
        rwa [pow_succ'] at h))
      rw [groups_pos hpos, List.length_cons]
      omega

/-- Read groups up to the first byte without the high bit. -/
def readGroups : Bytes → Option (ℕ × Bytes)
  | [] => none
  | b :: rest =>
    if b.toNat < 128 then some (b.toNat, rest)
    else (readGroups rest).map fun p => (b.toNat - 128 + 128 * p.1, p.2)

theorem readGroups_groups (rest : Bytes) {v : ℕ} (hv : 0 < v) :
    readGroups (groups v ++ rest) = some (v, rest) := by
  induction v using Nat.strong_induction_on with
  | _ v ih =>
    rw [groups_pos hv, List.cons_append, readGroups, UInt8.toNat_ofNat']
    by_cases h : v < 128
    · rw [if_pos h, if_pos (by omega), show v / 128 = 0 by omega, groups_zero]
      simp only [List.nil_append, Option.some.injEq, Prod.mk.injEq, and_true]
      omega
    · rw [if_neg h, if_neg (by omega), ih (v / 128) (by omega) (by omega)]
      simp only [Option.map_some, Option.some.injEq, Prod.mk.injEq, and_true]
      omega

/-- A varint under a two-bit tag : five payload bits in the first byte. -/
def tagged (tag v : ℕ) : Bytes :=
  UInt8.ofNat (64 * tag + (if v < 32 then 0 else 32) + v % 32) :: groups (v / 32)

theorem length_tagged_le {n v : ℕ} (tag : ℕ) (h : v < 32 * 128 ^ n) :
    (tagged tag v).length ≤ n + 1 := by
  have := length_groups_le (Nat.div_lt_of_lt_mul h)
  rw [tagged, List.length_cons]
  omega

/-! ### Continuation bits -/

theorem testBit_byte {n k : ℕ} (h : n < 256) :
    (UInt8.ofNat n).toNat.testBit k = decide (n / 2 ^ k % 2 = 1) := by
  rw [UInt8.toNat_ofNat', Nat.mod_eq_of_lt h, Nat.testBit_eq_decide_div_mod_eq]

theorem groups_eq_nil_iff {v : ℕ} : groups v = [] ↔ v = 0 := by
  rcases Nat.eq_zero_or_pos v with rfl | hpos
  · exact iff_of_true groups_zero rfl
  · rw [groups_pos hpos]
    exact iff_of_false (List.cons_ne_nil _ _) (by omega)

/-- The high bit is set on all groups but the last. -/
theorem testBit_groups (v : ℕ) : ∀ {i : ℕ} (h : i < (groups v).length),
    (groups v)[i].toNat.testBit 7 = decide (i + 1 < (groups v).length) := by
  induction v using Nat.strong_induction_on with
  | _ v ih =>
    intro i h
    rcases Nat.eq_zero_or_pos v with rfl | hpos
    · simp [groups_zero] at h
    · simp only [groups_pos hpos, List.length_cons] at h ⊢
      cases i with
      | zero =>
        rw [List.getElem_cons_zero, testBit_byte (by split_ifs <;> omega)]
        have hnil := groups_eq_nil_iff (v := v / 128)
        rw [← List.length_eq_zero_iff] at hnil
        refine decide_eq_decide.2 ?_
        split_ifs <;> omega
      | succ i =>
        rw [List.getElem_cons_succ, ih (v / 128) (by omega) (by omega)]
        exact decide_eq_decide.2 (by omega)

/-- The bit of byte `i` of a tagged varint that says whether another one follows. -/
def continuationBit (i : ℕ) : ℕ :=
  if i = 0 then 5 else 7

theorem testBit_tagged {tag : ℕ} (ht : tag < 4) (v : ℕ) {i : ℕ}
    (h : i < (tagged tag v).length) :
    (tagged tag v)[i].toNat.testBit (continuationBit i) =
      decide (i + 1 < (tagged tag v).length) := by
  simp only [tagged, List.length_cons] at h ⊢
  cases i with
  | zero =>
    rw [List.getElem_cons_zero, continuationBit, if_pos rfl,
      testBit_byte (by split_ifs <;> omega)]
    have hnil := groups_eq_nil_iff (v := v / 32)
    rw [← List.length_eq_zero_iff] at hnil
    refine decide_eq_decide.2 ?_
    split_ifs <;> omega
  | succ i =>
    have hbit : continuationBit (i + 1) = 7 := rfl
    rw [List.getElem_cons_succ, hbit, testBit_groups _ (by omega)]
    exact decide_eq_decide.2 (by omega)

/-! ### Readers -/

/-- The tag and the value of a tagged varint. -/
def readTagged : Reader (ℕ × ℕ) := fun input =>
  match input with
  | [] => none
  | b :: rest =>
    if b.toNat % 64 < 32 then some ((b.toNat / 64, b.toNat % 32), rest)
    else (readGroups rest).map fun p => ((b.toNat / 64, b.toNat % 32 + 32 * p.1), p.2)

theorem reads_readTagged {tag : ℕ} (ht : tag < 4) (v : ℕ) :
    Reads readTagged (tagged tag v) (tag, v) := by
  intro rest
  simp only [StateT.run, readTagged, tagged, List.cons_append, UInt8.toNat_ofNat']
  by_cases h : v < 32
  · rw [if_pos h, if_pos (by omega), show v / 32 = 0 by omega, groups_zero]
    simp only [List.nil_append, Option.some.injEq, Prod.mk.injEq, and_true]
    omega
  · rw [if_neg h, if_neg (by omega), readGroups_groups rest (by omega)]
    simp only [Option.map_some, Option.some.injEq, Prod.mk.injEq, and_true]
    omega

/-- The value of a varint under the tag `tag`. -/
def readUnder (tag : ℕ) : Reader ℕ :=
  Prod.snd <$> check (fun p => p.1 == tag) readTagged

theorem reads_readUnder (tag : ℕ) (ht : tag < 4) (v : ℕ) :
    Reads (readUnder tag) (tagged tag v) v :=
  ((reads_readTagged ht v).check (by simp)).map Prod.snd

/-- `0, -1, 1, -2, …` are `0, 1, 2, 3, …`. -/
def zigzag (n : ℤ) : ℕ :=
  if 0 ≤ n then (2 * n).toNat else (-2 * n - 1).toNat

/-- The integer a zigzag number stands for. -/
def unzigzag (u : ℕ) : ℤ :=
  if u % 2 = 0 then (u / 2 : ℕ) else -(u / 2 : ℕ) - 1

theorem unzigzag_zigzag (n : ℤ) : unzigzag (zigzag n) = n := by
  unfold unzigzag zigzag
  split_ifs <;> omega

end Wire
