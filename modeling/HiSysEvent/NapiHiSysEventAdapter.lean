import HiSysEvent.DomainMask
import HiSysEvent.Fields
import HiSysEvent.While

/-!
# The stack trace of a script

The function and the line that an event of a script is written with are fields of the stack
trace. `Split` moves the start of a field and the next delimiter over the string : where they are
the same it goes on by one position, and else by the field between them. What is behind the
last delimiter is a field if it is not empty.

It ends, and appends the fields in order (`split_fields`).
-/

namespace HiSysEvent

namespace StackTrace

open While Fields

/-- What `Split` appends to, with the arguments of its calls of `substr`. -/
structure Splitter where
  ret : List Bytes
  substrs : List (ℕ × ℕ)

/-- `a - b` of two sizes. -/
def subSize (a b : ℕ) : ℕ :=
  (a + 2 ^ 64 - b) % 2 ^ 64

/-- `ret.emplace_back(origin.substr(pos, n))`, where `substr` throws behind the end. -/
def emplaceBack (origin : StringView) (pos n : ℕ) : Program Splitter Unit := fun s =>
  if pos ≤ origin.size then
    some ((), ⟨s.ret ++ [origin.substr pos n], s.substrs ++ [(pos, n)]⟩)
  else none

/-- The loop, with `start` and `end`. -/
def splitBody (origin : StringView) (delimiter : UInt8) :
    ℕ × ℕ → Program Splitter (While.Flow (ℕ × ℕ) ℕ)
  | (start, stop) =>
    if stop ≠ npos then
      if stop = start then
        let start := start + 1
        pure (.next (start, origin.find delimiter start))
      else do
        emplaceBack origin start (subSize stop start)
        let start := stop + 1
        pure (.next (start, origin.find delimiter start))
    else pure (.done start)

/-- `Split`: what stands between the delimiters, without the empty pieces. -/
def split (origin : StringView) (delimiter : UInt8) (fuel : ℕ) : Program Splitter Unit := do
  let start ← loop (splitBody origin delimiter) fuel (0, origin.find delimiter 0)
  if start ≠ origin.size then emplaceBack origin start npos

/-! ## The next delimiter -/

variable {origin : StringView} {delimiter : UInt8} {start stop : ℕ}

theorem subSize_eq (hle : start ≤ stop) (hlt : stop < 2 ^ 64) :
    subSize stop start = stop - start := by
  rw [subSize]
  omega

theorem find_eq_next : origin.find delimiter start =
    (next origin.data delimiter start).getD npos := by
  rw [StringView.find, next]
  rcases (origin.data.drop start).findIdx? (· == delimiter) with _ | i
  · rfl
  · rfl

theorem find_eq_npos (hstart : start ≤ origin.size) (h : origin.find delimiter start = npos) :
    NextStop origin.data delimiter start origin.size := by
  rw [find_eq_next] at h
  rcases hnext : next origin.data delimiter start with _ | stop
  · exact ⟨hstart, le_rfl, fun k hk _ => next_eq_none_iff.1 hnext k hk, Or.inl rfl⟩
  · rw [hnext] at h
    obtain ⟨-, hget, -⟩ := next_eq_some_iff.1 hnext
    have hlt := (List.getElem?_eq_some_iff.1 hget).1.trans origin.size_lt
    exact absurd h (by rw [Option.getD_some]; omega)

theorem find_ne_npos (h : origin.find delimiter start ≠ npos) :
    NextStop origin.data delimiter start (origin.find delimiter start) ∧
      origin.data[origin.find delimiter start]? = some delimiter := by
  rw [find_eq_next] at h ⊢
  rcases hnext : next origin.data delimiter start with _ | stop
  · rw [hnext] at h
    exact absurd rfl h
  · obtain ⟨hle, hget, hbefore⟩ := next_eq_some_iff.1 hnext
    rw [Option.getD_some]
    exact ⟨⟨hle, (List.getElem?_eq_some_iff.1 hget).1.le, hbefore, Or.inr hget⟩, hget⟩

/-! ## The fields -/

/-- `Split` between two rounds : the fields before `start` are appended to `ret`. -/
structure Scanned (origin : StringView) (delimiter : UInt8) (ret : List Bytes)
    (fields : List (ℕ × ℕ)) (s : Splitter) : Prop where
  ret : s.ret = ret ++ fields.map (slice origin.data)
  substrs : ∀ c ∈ s.substrs, c.1 ≤ origin.size ∧ (c.2 = npos ∨ c.1 + c.2 ≤ origin.size)

theorem Scanned.emplaceBack {ret : List Bytes} {fields : List (ℕ × ℕ)} {s : Splitter} {n : ℕ}
    {Q : Unit → Splitter → Prop} (h : Scanned origin delimiter ret fields s)
    (hstop : stop ≤ origin.size) (hstart : start ≤ stop)
    (hn : n = stop - start ∨ n = npos ∧ stop = origin.size)
    (hQ : ∀ s', Scanned origin delimiter ret (fields ++ [(start, stop)]) s' → Q () s') :
    Ends (emplaceBack origin start n) s Q := by
  refine ⟨(), _, if_pos (hstart.trans hstop), hQ _ ⟨?_, fun c hc => ?_⟩⟩
  · have hslice : origin.substr start n = slice origin.data (start, stop) := by
      rcases hn with rfl | ⟨rfl, rfl⟩
      · rfl
      · have hlt := origin.size_lt
        rw [StringView.substr, slice, List.take_of_length_le, List.take_of_length_le]
        · rw [List.length_drop]
          exact le_rfl
        · rw [List.length_drop]
          omega
    rw [h.ret, hslice, List.map_append, List.append_assoc]
    rfl
  · rcases List.mem_append.1 hc with hold | hnew
    · exact h.substrs c hold
    · rw [List.mem_singleton.1 hnew]
      refine ⟨hstart.trans hstop, ?_⟩
      rcases hn with rfl | ⟨rfl, -⟩
      · exact Or.inr (by omega)
      · exact Or.inl rfl

/-- What holds before each round. -/
def Between (origin : StringView) (delimiter : UInt8) (ret : List Bytes) (pos : ℕ × ℕ)
    (s : Splitter) : Prop :=
  AtStart origin.data delimiter pos.1 ∧ pos.2 = origin.find delimiter pos.1 ∧
    ∃ fields, FieldsBefore origin.data delimiter pos.1 fields ∧
      Scanned origin delimiter ret fields s

/-- What holds when no delimiter is left. -/
def AtLast (origin : StringView) (delimiter : UInt8) (ret : List Bytes) (start : ℕ)
    (s : Splitter) : Prop :=
  AtStart origin.data delimiter start ∧ NextStop origin.data delimiter start origin.size ∧
    ∃ fields, FieldsBefore origin.data delimiter start fields ∧
      Scanned origin delimiter ret fields s

theorem splitBody_spec {ret : List Bytes} (pos : ℕ × ℕ) (s : Splitter)
    (h : Between origin delimiter ret pos s) :
    Ends (splitBody origin delimiter pos) s fun r s' =>
      match r with
      | .next pos' => Between origin delimiter ret pos' s' ∧
          origin.size - pos'.1 < origin.size - pos.1
      | .done start => AtLast origin delimiter ret start s' := by
  obtain ⟨start, stop⟩ := pos
  obtain ⟨ha, hstop, fields, hfields, hscanned⟩ := h
  dsimp only at ha hstop hfields
  subst hstop
  refine Ends.ite (fun hne => ?_) fun heq => ?_
  · obtain ⟨hn, hd⟩ := find_ne_npos hne
    have hlt : origin.find delimiter start < origin.size := (List.getElem?_eq_some_iff.1 hd).1
    have hle := hn.le
    have hnext := hfields.extend ha hn
    refine Ends.ite (fun hsame => ?_) fun hsame => ?_
    · rw [hsame, if_neg (lt_irrefl _)] at hnext
      rw [hsame] at hd
      exact Ends.pure ⟨⟨AtStart.next hd, rfl, fields, hnext, hscanned⟩, by dsimp only; omega⟩
    · rw [if_pos (by omega)] at hnext
      refine Ends.bind (hscanned.emplaceBack hlt.le hle (Or.inl ?_) fun s' hs' => ?_)
      · exact subSize_eq hle ((hlt.trans origin.size_lt).trans (by decide))
      · exact Ends.pure ⟨⟨AtStart.next hd, rfl, _, hnext, hs'⟩, by dsimp only; omega⟩
  · exact Ends.pure ⟨ha, find_eq_npos ha.le (not_not.1 heq), fields, hfields, hscanned⟩

/-- `Split` ends and appends the fields in order. No call of `substr` is out of bounds. -/
theorem split_fields (origin : StringView) (delimiter : UInt8) (ret : List Bytes) (fuel : ℕ)
    (hfuel : origin.size < fuel) :
    Ends (split origin delimiter fuel) ⟨ret, []⟩ fun _ s => ∃ fields : List (ℕ × ℕ),
      s.ret = ret ++ fields.map (slice origin.data) ∧ (fields.Pairwise fun a b => a.2 < b.1) ∧
      (∀ i j, (i, j) ∈ fields ↔ IsField origin.data delimiter i j) ∧
      ∀ c ∈ s.substrs, c.1 ≤ origin.size ∧ (c.2 = npos ∨ c.1 + c.2 ≤ origin.size) := by
  have hinit : Between origin delimiter ret (0, origin.find delimiter 0) ⟨ret, []⟩ :=
    ⟨AtStart.zero, rfl, [], FieldsBefore.zero, (List.append_nil ret).symm,
      fun c hc => absurd hc List.not_mem_nil⟩
  have hloop : Ends (loop (splitBody origin delimiter) fuel (0, origin.find delimiter 0))
      ⟨ret, []⟩ (AtLast origin delimiter ret) := by
    refine Ends.loop (Between origin delimiter ret) (fun pos _ => origin.size - pos.1) ?_ fuel
      hinit (by dsimp only; omega)
    intro pos s h
    refine (splitBody_spec pos s h).mono ?_
    rintro (pos' | start) s' hr
    · exact hr
    · exact hr
  refine Ends.bind (hloop.mono fun start s hlast => ?_)
  obtain ⟨ha, hn, fields, hfields, hscanned⟩ := hlast
  have hall := hfields.extend ha hn
  refine Ends.ite (fun hne => ?_) fun heq => ?_
  · rw [if_pos (lt_of_le_of_ne hn.le hne)] at hall
    refine hscanned.emplaceBack le_rfl hn.le (Or.inr ⟨rfl, rfl⟩) fun s' hs' => ?_
    exact ⟨_, hs'.ret, hall.pairwise, fun i j => hall.complete, hs'.substrs⟩
  · rw [if_neg (by omega)] at hall
    exact Ends.pure ⟨_, hscanned.ret, hall.pairwise, fun i j => hall.complete, hscanned.substrs⟩

theorem split_fields_seven :
    let origin : StringView := ⟨[32, 97, 32, 32, 98, 99], by decide⟩
    Ends (split origin 32 7) ⟨[], []⟩ fun _ s => ∃ fields : List (ℕ × ℕ),
      s.ret = [] ++ fields.map (slice origin.data) ∧ (fields.Pairwise fun a b => a.2 < b.1) ∧
      (∀ i j, (i, j) ∈ fields ↔ IsField origin.data 32 i j) ∧
      ∀ c ∈ s.substrs, c.1 ≤ origin.size ∧ (c.2 = npos ∨ c.1 + c.2 ≤ origin.size) :=
  split_fields ⟨[32, 97, 32, 32, 98, 99], by decide⟩ 32 [] 7 (by decide)

end StackTrace

end HiSysEvent
