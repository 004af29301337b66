import Mathlib.Data.List.Basic
import HiSysEvent.Wire

/-!
# JSON texts

The grammar of JSON as a syntax tree that keeps the source text : every white space, the
spelling of every number, every escape. `Value.text` is the text of a value, `Obj.text` that
of a whole text that is an object. The fields of the tree carry the side conditions, so
each tree is a text of the grammar. A string holds any bytes from 32 on but the
quotation and the backslash, which takes in every UTF-8 text.

A property of texts that the smallest pieces have, and that survives putting texts
together and bracketing them, holds of every value (`Value.text_induction`).
-/

namespace JsonText

open Wire (Bytes)

/-! ## Pieces -/

/-- White space of JSON. -/
def isWs (c : UInt8) : Bool :=
  c == 32 || c == 9 || c == 10 || c == 13

/-- White space. -/
abbrev Ws := {bs : Bytes // ∀ c ∈ bs, isWs c = true}

/-- No white space. -/
def Ws.empty : Ws :=
  ⟨[], fun _ h => absurd h List.not_mem_nil⟩

/-- `0` to `9`. -/
def isDigit (c : UInt8) : Bool :=
  48 ≤ c && c ≤ 57

/-- One digit or more. -/
abbrev Digits := {bs : Bytes // bs ≠ [] ∧ ∀ c ∈ bs, isDigit c = true}

/-- `true`, `false` and `null`. -/
inductive Literal
  | true
  | false
  | null

/-- Its text. -/
def Literal.text : Literal → Bytes
  | .true => [116, 114, 117, 101]
  | .false => [102, 97, 108, 115, 101]
  | .null => [110, 117, 108, 108]

/-! ## Numbers -/

/-- The sign of an exponent. -/
inductive Sign
  | none
  | plus
  | minus

/-- Its text. -/
def Sign.text : Sign → Bytes
  | .none => []
  | .plus => [43]
  | .minus => [45]

/-- `E` or `e`, a sign and digits. -/
structure Exponent where
  upper : Bool
  sign : Sign
  digits : Digits

/-- The exponent as it is written. -/
def Exponent.text (e : Exponent) : Bytes :=
  (if e.upper then 69 else 101) :: (e.sign.text ++ e.digits.1)

/-- A number as it is written. -/
structure Number where
  minus : Bool
  int : Digits
  frac : Option Digits
  exp : Option Exponent
  /-- Only the number zero starts with a zero. -/
  leading : int.1.head? = some 48 → int.1 = [48]

namespace Number

/-- The number up to its exponent. -/
def mantissa (n : Number) : Bytes :=
  (if n.minus then [45] else []) ++ n.int.1 ++ (n.frac.elim [] fun d => 46 :: d.1)

/-- Its text. -/
def text (n : Number) : Bytes :=
  n.mantissa ++ n.exp.elim [] Exponent.text

end Number

/-- The bytes of a number. -/
def isNumberByte (c : UInt8) : Bool :=
  isDigit c || c == 45 || c == 43 || c == 46 || c == 69 || c == 101

theorem isNumberByte_of_digits (d : Digits) {c : UInt8} (h : c ∈ d.1) : isNumberByte c = true := by
  simp [isNumberByte, d.2.2 c h]

theorem isNumberByte_of_mem {n : Number} {c : UInt8} (h : c ∈ n.text) : isNumberByte c = true := by
  rcases List.mem_append.1 h with h | h
  · rcases List.mem_append.1 h with h | h
    · rcases List.mem_append.1 h with h | h
      · cases hm : n.minus with
        | false => simp [hm] at h
        | true =>
          obtain rfl : c = 45 := by simpa [hm] using h
          rfl
      · exact isNumberByte_of_digits n.int h
    · cases hf : n.frac with
      | none => simp [hf] at h
      | some d =>
        rw [hf] at h
        rcases List.mem_cons.1 h with rfl | h
        · rfl
        · exact isNumberByte_of_digits d h
  · cases he : n.exp with
    | none => simp [he] at h
    | some e =>
      rw [he] at h
      rcases List.mem_cons.1 h with h | h
      · rw [h]
        cases e.upper <;> rfl
      · rcases List.mem_append.1 h with h | h
        · cases hs : e.sign with
          | none => simp [hs, Sign.text] at h
          | plus =>
            obtain rfl : c = 43 := by simpa [hs, Sign.text] using h
            rfl
          | minus =>
            obtain rfl : c = 45 := by simpa [hs, Sign.text] using h
            rfl
        · exact isNumberByte_of_digits e.digits h

/-! ## Strings -/

/-- A hexadecimal digit. -/
def isHex (c : UInt8) : Bool :=
  isDigit c || (65 ≤ c && c ≤ 70) || (97 ≤ c && c ≤ 102)

/-- The bytes that follow the backslash of an escape of one byte. -/
def escapes : Bytes :=
  [34, 92, 47, 98, 102, 110, 114, 116]

/-- A piece of a string. -/
inductive Chr
  | plain (c : {c : UInt8 // 32 ≤ c ∧ c ≠ 34 ∧ c ≠ 92})
  | escape (c : {c : UInt8 // c ∈ escapes})
  | unicode (h : {bs : Bytes // bs.length = 4 ∧ ∀ c ∈ bs, isHex c = true})

/-- The character as it is written in a string. -/
def Chr.text : Chr → Bytes
  | .plain c => [c.1]
  | .escape c => [92, c.1]
  | .unicode h => 92 :: 117 :: h.1

/-- The characters of a string, as they are written. -/
abbrev Str := List Chr

namespace Str

/-- The text between the quotations. -/
def content (s : Str) : Bytes :=
  s.flatMap Chr.text

/-- The string with its quotation marks. -/
def text (s : Str) : Bytes :=
  34 :: (s.content ++ [34])

theorem mem_content {s : Str} {x : UInt8} (h : x ∈ s.content) : 32 ≤ x := by
  have hhex : ∀ c, isHex c = true → 32 ≤ c := fun c hc => by
    simp only [isHex, isDigit, Bool.or_eq_true, Bool.and_eq_true, decide_eq_true_eq] at hc
    simp only [UInt8.le_iff_toNat_le] at *
    have h32 : (32 : UInt8).toNat = 32 := rfl
    have h48 : (48 : UInt8).toNat = 48 := rfl
    have h65 : (65 : UInt8).toNat = 65 := rfl
    have h97 : (97 : UInt8).toNat = 97 := rfl
    omega
  obtain ⟨c, -, hx⟩ := List.mem_flatMap.1 h
  cases c with
  | plain c =>
    rw [List.mem_singleton.1 hx]
    exact c.2.1
  | escape c =>
    rcases List.mem_cons.1 hx with rfl | hx
    · decide
    · rw [List.mem_singleton.1 hx]
      have hc := c.2
      simp only [escapes, List.mem_cons, List.not_mem_nil, or_false] at hc
      rcases hc with hc | hc | hc | hc | hc | hc | hc | hc <;> (rw [hc]; decide)
  | unicode h =>
    rcases List.mem_cons.1 hx with rfl | hx
    · decide
    rcases List.mem_cons.1 hx with rfl | hx
    · decide
    · exact hhex x (h.2.2 x hx)

end Str

/-! ### Reading a string -/

/-- The number of bytes in front of the closing quotation, behind the opening one. -/
def contentLength : Bool → Bytes → Option ℕ
  | _, [] => none
  | true, _ :: cs => (contentLength false cs).map (· + 1)
  | false, c :: cs => if c = 34 then some 0 else (contentLength (c == 92) cs).map (· + 1)

/-- The byte an escape stands for, for the seven that have their own. -/
def unescapeByte (e : UInt8) : Option UInt8 :=
  [(92, 92), (34, 34), (98, 8), (102, 12), (110, 10), (114, 13), (116, 9)].lookup e

/-- Undo these seven escapes. -/
def undoEscapes : Bytes → Bytes
  | [] => []
  | [c] => [c]
  | c :: e :: rest =>
    if c = 92 then
      match unescapeByte e with
      | some x => x :: undoEscapes rest
      | none => c :: e :: undoEscapes rest
    else c :: undoEscapes (e :: rest)

theorem contentLength_of_ne : ∀ {bs : Bytes}, (∀ c ∈ bs, c ≠ 34 ∧ c ≠ 92) → ∀ rest,
    contentLength false (bs ++ rest) = (contentLength false rest).map (· + bs.length)
  | [], _, rest => by simp
  | c :: bs, h, rest => by
    have hc := h c List.mem_cons_self
    have hesc : (c == 92) = false := beq_eq_false_iff_ne.2 hc.2
    rw [List.cons_append, contentLength, if_neg hc.1, hesc,
      contentLength_of_ne fun x hx => h x (List.mem_cons_of_mem c hx), Option.map_map]
    rfl

theorem contentLength_chr (c : Chr) (rest : Bytes) :
    contentLength false (c.text ++ rest) = (contentLength false rest).map (· + c.text.length) := by
  have hescape : ∀ (e : UInt8) (t : Bytes),
      contentLength false (92 :: e :: t) = (contentLength false t).map (· + 2) := fun e t => by
    rw [contentLength, if_neg (by decide), show ((92 : UInt8) == 92) = true from rfl, contentLength,
      Option.map_map]
    rfl
  cases c with
  | plain c => exact contentLength_of_ne (List.forall_mem_singleton.2 c.2.2) rest
  | escape c => exact hescape c.1 rest
  | unicode h =>
    have hhex : ∀ x ∈ h.1, x ≠ 34 ∧ x ≠ 92 := fun x hx => by
      constructor <;> (rintro rfl; exact absurd (h.2.2 _ hx) (by decide))
    rw [Chr.text, List.cons_append, List.cons_append, hescape, contentLength_of_ne hhex,
      Option.map_map]
    rfl

/-- A string ends at its closing quotation, whatever follows. -/
theorem contentLength_content : ∀ (s : Str) (rest : Bytes),
    contentLength false (s.content ++ 34 :: rest) = some s.content.length
  | [], rest => rfl
  | c :: s, rest => by
    have hcontent : Str.content (c :: s) = c.text ++ Str.content s := List.flatMap_cons
    rw [hcontent, List.append_assoc, contentLength_chr, contentLength_content s rest,
      List.length_append, Nat.add_comm]
    rfl

theorem undoEscapes_escape {e x : UInt8} (h : unescapeByte e = some x) (rest : Bytes) :
    undoEscapes (92 :: e :: rest) = x :: undoEscapes rest := by
  rw [undoEscapes, if_pos rfl, h]

theorem undoEscapes_cons {c : UInt8} (h : c ≠ 92) (rest : Bytes) :
    undoEscapes (c :: rest) = c :: undoEscapes rest := by
  cases rest with
  | nil => rfl
  | cons e rest => rw [undoEscapes, if_neg h]

/-! ## Values -/

/-- An element of an array in its white space. -/
structure Elem (α : Type) where
  before : Ws
  value : α
  after : Ws

/-- A member of an object in its white space. -/
structure Member (α : Type) where
  before : Ws
  name : Str
  beforeColon : Ws
  afterColon : Ws
  value : α
  after : Ws

/-- The white space of an array or object is that behind the opening bracket. -/
inductive Value
  | literal (l : Literal)
  | number (n : Number)
  | string (s : Str)
  | array (ws : Ws) (elems : List (Elem Value))
  | object (ws : Ws) (members : List (Member Value))

/-- The texts of a list, separated by commas. -/
def joined : List Bytes → Bytes
  | [] => []
  | [t] => t
  | t :: ts => t ++ 44 :: joined ts

/-- The name of a member up to its value. -/
def Member.head {α : Type} (m : Member α) : Bytes :=
  m.before.1 ++ m.name.text ++ m.beforeColon.1 ++ 58 :: m.afterColon.1

mutual

/-- The text of a value. -/
def Value.text : Value → Bytes
  | .literal l => l.text
  | .number n => n.text
  | .string s => s.text
  | .array ws elems => 91 :: (ws.1 ++ joined (elemTexts elems) ++ [93])
  | .object ws members => 123 :: (ws.1 ++ joined (memberTexts members) ++ [125])

/-- The texts of the elements. -/
def elemTexts : List (Elem Value) → List Bytes
  | [] => []
  | e :: es => elemText e :: elemTexts es

/-- The text of an element with its white space. -/
def elemText : Elem Value → Bytes
  | ⟨before, value, after⟩ => before.1 ++ value.text ++ after.1

/-- The texts of the members. -/
def memberTexts : List (Member Value) → List Bytes
  | [] => []
  | m :: ms => memberText m :: memberTexts ms

/-- The text of a member with its white space. -/
def memberText : Member Value → Bytes
  | ⟨before, name, beforeColon, afterColon, value, after⟩ =>
    Member.head ⟨before, name, beforeColon, afterColon, value, after⟩ ++ value.text ++ after.1

end

mutual

/-- The strings of a value, the names of its members among them. -/
def Value.strings : Value → List Str
  | .literal _ => []
  | .number _ => []
  | .string s => [s]
  | .array _ elems => elemsStrings elems
  | .object _ members => membersStrings members

/-- The strings in the elements. -/
def elemsStrings : List (Elem Value) → List Str
  | [] => []
  | e :: es => elemStrings e ++ elemsStrings es

/-- The strings in an element. -/
def elemStrings : Elem Value → List Str
  | ⟨_, value, _⟩ => value.strings

/-- The strings in the members, their names included. -/
def membersStrings : List (Member Value) → List Str
  | [] => []
  | m :: ms => memberStrings m ++ membersStrings ms

/-- The strings in a member. -/
def memberStrings : Member Value → List Str
  | ⟨_, name, _, _, value, _⟩ => name :: value.strings

end

/-! ## Properties of every text -/

/-- A property that survives putting texts together and bracketing them. -/
structure Closed (P : Bytes → Prop) : Prop where
  nil : P []
  append : ∀ {x y}, P x → P y → P (x ++ y)
  comma : P [44]
  colon : P [58]
  ws : ∀ ws : Ws, P ws.1
  literal : ∀ l : Literal, P l.text
  number : ∀ n : Number, P n.text
  array : ∀ {x}, P x → P (91 :: (x ++ [93]))
  object : ∀ {x}, P x → P (123 :: (x ++ [125]))

section
variable {P : Bytes → Prop}

theorem Closed.joined (h : Closed P) : ∀ {ts : List Bytes}, (∀ t ∈ ts, P t) → P (joined ts)
  | [], _ => h.nil
  | [t], ht => ht t (List.mem_singleton_self t)
  | t :: t' :: ts, ht => by
    have hts : P (JsonText.joined (t' :: ts)) :=
      h.joined fun x hx => ht x (List.mem_cons_of_mem t hx)
    have happ := h.append (ht t List.mem_cons_self) (h.append h.comma hts)
    simpa only [JsonText.joined, List.singleton_append] using happ

theorem Closed.head (h : Closed P) {α : Type} (m : Member α) (hname : P m.name.text) :
    P m.head := by
  have hcolon := h.append h.colon (h.ws m.afterColon)
  exact h.append (h.append (h.append (h.ws _) hname) (h.ws _)) hcolon

mutual

/-- A closed property of the strings of a value is one of its text. -/
theorem Value.text_induction (h : Closed P) : (v : Value) → (∀ s ∈ v.strings, P s.text) → P v.text
  | .literal l, _ => h.literal l
  | .number n, _ => h.number n
  | .string s, hs => hs s (List.mem_singleton_self s)
  | .array ws elems, hs => by
    rw [Value.text]
    exact h.array (h.append (h.ws ws) (h.joined (elemTexts_induction h elems hs)))
  | .object ws members, hs => by
    rw [Value.text]
    exact h.object (h.append (h.ws ws) (h.joined (memberTexts_induction h members hs)))

theorem elemTexts_induction (h : Closed P) : (es : List (Elem Value)) →
    (∀ s ∈ elemsStrings es, P s.text) → ∀ t ∈ elemTexts es, P t
  | [], _, t, ht => absurd ht List.not_mem_nil
  | e :: es, hs, t, ht => by
    rw [elemTexts, List.mem_cons] at ht
    rcases ht with rfl | ht
    · exact elemText_induction h e fun s hse => hs s (List.mem_append_left _ hse)
    · exact elemTexts_induction h es (fun s hse => hs s (List.mem_append_right _ hse)) t ht

theorem elemText_induction (h : Closed P) : (e : Elem Value) →
    (∀ s ∈ elemStrings e, P s.text) → P (elemText e)
  | ⟨before, value, after⟩, hs => by
    rw [elemText]
    exact h.append (h.append (h.ws before) (Value.text_induction h value hs)) (h.ws after)

theorem memberTexts_induction (h : Closed P) : (ms : List (Member Value)) →
    (∀ s ∈ membersStrings ms, P s.text) → ∀ t ∈ memberTexts ms, P t
  | [], _, t, ht => absurd ht List.not_mem_nil
  | m :: ms, hs, t, ht => by
    rw [memberTexts, List.mem_cons] at ht
    rcases ht with rfl | ht
    · exact memberText_induction h m fun s hse => hs s (List.mem_append_left _ hse)
    · exact memberTexts_induction h ms (fun s hse => hs s (List.mem_append_right _ hse)) t ht

theorem memberText_induction (h : Closed P) : (m : Member Value) →
    (∀ s ∈ memberStrings m, P s.text) → P (memberText m)
  | ⟨before, name, beforeColon, afterColon, value, after⟩, hs => by
    rw [memberText]
    refine h.append (h.append (h.head _ ?_) ?_) (h.ws after)
    · exact hs name List.mem_cons_self
    · exact Value.text_induction h value fun s hse => hs s (List.mem_cons_of_mem name hse)

end

end

/-- The bytes of a text but for those of its strings. -/
def isOuter (c : UInt8) : Bool :=
  isWs c || isNumberByte c || [91, 93, 123, 125, 44, 58].contains c ||
    [97, 102, 108, 110, 114, 115, 116, 117].contains c

theorem isOuter_literal (l : Literal) : ∀ c ∈ l.text, isOuter c = true := by
  cases l <;> decide +kernel

/-- A property of the bytes outside the strings is closed. -/
theorem closed_forall {p : UInt8 → Prop} (h : ∀ c, isOuter c = true → p c) :
    Closed fun bs => ∀ c ∈ bs, p c where
  nil := fun c hc => absurd hc List.not_mem_nil
  append := fun hx hy => List.forall_mem_append.2 ⟨hx, hy⟩
  comma := List.forall_mem_singleton.2 (h _ rfl)
  colon := List.forall_mem_singleton.2 (h _ rfl)
  ws := fun ws c hc => h c (by simp [isOuter, ws.2 c hc])
  literal := fun l c hc => h c (isOuter_literal l c hc)
  number := fun n c hc => h c (by simp [isOuter, isNumberByte_of_mem hc])
  array := fun hx => List.forall_mem_cons.2
    ⟨h _ rfl, List.forall_mem_append.2 ⟨hx, List.forall_mem_singleton.2 (h _ rfl)⟩⟩
  object := fun hx => List.forall_mem_cons.2
    ⟨h _ rfl, List.forall_mem_append.2 ⟨hx, List.forall_mem_singleton.2 (h _ rfl)⟩⟩

/-- A text holds white space, or bytes from 32 on. -/
theorem Value.mem_text (v : Value) {c : UInt8} (hc : c ∈ v.text) : isWs c = true ∨ 32 ≤ c := by
  have hclosed : Closed fun bs => ∀ c ∈ bs, isWs c = true ∨ 32 ≤ c :=
    closed_forall fun c hc => by
      by_cases hws : isWs c = true
      · exact Or.inl hws
      · refine Or.inr ?_
        have h32 : ∀ n : ℕ, n < 256 → isOuter (UInt8.ofNat n) = true →
            ¬isWs (UInt8.ofNat n) = true → 32 ≤ n := by decide +kernel
        have := h32 c.toNat c.toNat_lt (by simpa using hc) (by simpa using hws)
        exact UInt8.le_iff_toNat_le.2 this
  refine v.text_induction hclosed (fun s _ x hx => Or.inr ?_) c hc
  rcases List.mem_cons.1 hx with rfl | hx
  · decide
  rcases List.mem_append.1 hx with hx | hx
  · exact s.mem_content hx
  · rw [List.mem_singleton.1 hx]
    decide

/-! ## Objects -/

/-- A whole text that is an object. -/
structure Obj where
  before : Ws
  ws : Ws
  members : List (Member Value)
  after : Ws

namespace Obj

/-- The text of the object, with the white space around it. -/
def text (o : Obj) : Bytes :=
  o.before.1 ++ (Value.object o.ws o.members).text ++ o.after.1

/-- The members, each as its name and the text of its value. -/
def pairs (o : Obj) : List (Bytes × Bytes) :=
  o.members.map fun m => (m.name.content, m.value.text)

end Obj

/-- `bs` is the text of an object with these members. -/
def Shows (bs : Bytes) (pairs : List (Bytes × Bytes)) : Prop :=
  ∃ o : Obj, o.text = bs ∧ o.pairs = pairs

end JsonText
