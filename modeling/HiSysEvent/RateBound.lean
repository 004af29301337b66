import Mathlib.Data.List.Dedup
import HiSysEvent.CallSites

/-!
# The rate bound

`Follows` says how the outcomes of a site go on after a cycle has started in some second.
The next ones are counted, up to the threshold, and the first one later than `period` starts a
new cycle. Its bounds are those of the limiter (`RateBound`) : in one cycle and in
any span of `period` seconds.

A site whose record is never dropped follows it (`follows_siteOutcomes`), as long as its
time stamps do not go back and neither they nor the count wrap around, and with at most 30
keys no record is dropped (`rateBound_outcomes`).
-/

namespace HiSysEvent

namespace WriteController

/-! ## The bound -/

/-- The rate bound of a site. -/
structure RateBound (period threshold : ℕ) (outs : List Outcome) : Prop where
  cycle : ∀ pre d mid post, outs = pre ++ d :: (mid ++ post) → d.starts = true →
    (∀ x ∈ mid, x.starts = false) → (d :: mid).countP Outcome.accepted ≤ max threshold 1
  apart : ∀ pre d mid e post, outs = pre ++ d :: (mid ++ e :: post) → d.starts = true →
    e.starts = true → d.second + period < e.second
  span : ∀ t, outs.countP (fun x => x.accepted && decide (t ≤ x.second ∧ x.second ≤ t + period)) ≤
    2 * max threshold 1
  resumes : ∀ pre d mid e post, outs = pre ++ d :: (mid ++ e :: post) → d.starts = true →
    (∀ x ∈ mid, x.second ≤ d.second + period) → d.second + period < e.second →
      e.accepted = true

/-- The outcomes after a start in the second `s`, when `n` calls were counted since. Without a
record `n` is 0. -/
def Follows (period threshold : ℕ) : ℕ → ℕ → List Outcome → Prop
  | _, _, [] => True
  | s, n, x :: xs => s ≤ x.second ∧ (∀ y ∈ xs, x.second ≤ y.second) ∧
    (((n = 0 ∨ s + period < x.second) ∧ x.starts = true ∧ x.accepted = true ∧
        Follows period threshold x.second 1 xs) ∨
      (n ≠ 0 ∧ x.second ≤ s + period ∧ x.starts = false ∧
        (x.accepted = true → n + 1 ≤ threshold) ∧ Follows period threshold s (n + 1) xs))

variable {period threshold s n : ℕ} {pre mid post : List Outcome} {d e : Outcome}

/-- A later outcome follows a later start. -/
theorem Follows.suffix : ∀ {pre : List Outcome} {s n : ℕ},
    Follows period threshold s n (pre ++ d :: post) →
      ∃ s' n', Follows period threshold s' n' (d :: post)
  | [], s, n, h => ⟨s, n, h⟩
  | _ :: _, _, _, ⟨_, _, h⟩ => by
    rcases h with ⟨-, -, -, h⟩ | ⟨-, -, -, -, h⟩
    · exact h.suffix
    · exact h.suffix

theorem Follows.start (h : Follows period threshold s n (d :: post)) (hd : d.starts = true) :
    d.accepted = true ∧ Follows period threshold d.second 1 post := by
  rcases h.2.2 with ⟨-, -, ha, h⟩ | ⟨-, -, hfalse, -⟩
  · exact ⟨ha, h⟩
  · rw [hd] at hfalse
    cases hfalse

theorem Follows.cycle : ∀ {mid : List Outcome} {n : ℕ},
    Follows period threshold s n (mid ++ post) → 0 < n → (∀ x ∈ mid, x.starts = false) →
      mid.countP Outcome.accepted ≤ threshold - n
  | [], _, _, _, _ => Nat.zero_le _
  | x :: mid, n, ⟨_, _, h⟩, hn, hmid => by
    rcases h with ⟨-, hx, -⟩ | ⟨-, -, -, hacc, h⟩
    · rw [hmid x (by simp)] at hx
      cases hx
    · have ih := h.cycle (Nat.succ_pos n) fun y hy => hmid y (by simp [hy])
      rw [List.countP_cons]
      split
      case isTrue ha =>
        have := hacc ha
        omega
      case isFalse => omega

theorem Follows.apart : ∀ {mid : List Outcome} {s n : ℕ},
    Follows period threshold s n (mid ++ e :: post) → 0 < n → e.starts = true →
      s + period < e.second
  | [], _, _, ⟨_, _, h⟩, hn, he => by
    rcases h with ⟨h, -⟩ | ⟨-, -, hfalse, -⟩
    · omega
    · rw [he] at hfalse
      cases hfalse
  | x :: mid, s, n, ⟨hs, _, h⟩, hn, he => by
    rcases h with ⟨-, -, -, h⟩ | ⟨-, -, -, -, h⟩
    · have := h.apart (by omega) he
      omega
    · exact h.apart (Nat.succ_pos n) he

theorem Follows.resumes : ∀ {mid : List Outcome} {n : ℕ},
    Follows period threshold s n (mid ++ e :: post) → 0 < n →
      (∀ x ∈ mid, x.second ≤ s + period) → s + period < e.second → e.accepted = true
  | [], _, ⟨_, _, h⟩, _, _, he => by
    rcases h with ⟨-, -, ha, -⟩ | ⟨-, hle, -⟩
    · exact ha
    · omega
  | x :: mid, n, ⟨_, _, h⟩, hn, hmid, he => by
    have hx := hmid x (by simp)
    rcases h with ⟨hlt, -⟩ | ⟨-, -, -, -, h⟩
    · omega
    · exact h.resumes (Nat.succ_pos n) (fun y hy => hmid y (by simp [hy])) he

/-! ## Spans -/

/-- Accepted in the `period` seconds from `t` on. -/
def inSpan (period t : ℕ) (x : Outcome) : Bool :=
  x.accepted && decide (t ≤ x.second ∧ x.second ≤ t + period)

/-- A cycle that starts in the span is the last one in it. -/
theorem Follows.span_start {t : ℕ} : ∀ {xs : List Outcome} {n : ℕ},
    Follows period threshold s n xs → 0 < n → t ≤ s →
      xs.countP (inSpan period t) ≤ threshold - n
  | [], _, _, _, _ => Nat.zero_le _
  | x :: xs, n, ⟨_, hsorted, h⟩, hn, ht => by
    rcases h with ⟨hlt, -⟩ | ⟨-, -, -, hacc, h⟩
    · have hzero : (x :: xs).countP (inSpan period t) = 0 := by
        rw [List.countP_eq_zero]
        intro y hy
        have hle : x.second ≤ y.second := by
          rcases List.mem_cons.1 hy with rfl | hy
          · exact le_rfl
          · exact hsorted y hy
        have : ¬(t ≤ y.second ∧ y.second ≤ t + period) := by omega
        simp [inSpan, this]
      omega
    · have ih := h.span_start (Nat.succ_pos n) ht
      rw [List.countP_cons]
      split
      case isTrue hx =>
        have := hacc (by simpa using (Bool.and_eq_true_iff.1 hx).1)
        omega
      case isFalse => omega

theorem Follows.span_within {t : ℕ} : ∀ {xs : List Outcome} {n : ℕ},
    Follows period threshold s n xs → (∀ x ∈ xs, t ≤ x.second) →
      xs.countP (inSpan period t) ≤ threshold - n + max threshold 1
  | [], _, _, _ => Nat.zero_le _
  | x :: xs, n, ⟨_, _, h⟩, ht => by
    rw [List.countP_cons]
    rcases h with ⟨-, -, -, h⟩ | ⟨-, -, -, hacc, h⟩
    · have := h.span_start (by omega) (ht x (by simp))
      split <;> omega
    · have ih := h.span_within fun y hy => ht y (by simp [hy])
      split
      case isTrue hx =>
        have := hacc (by simpa using (Bool.and_eq_true_iff.1 hx).1)
        omega
      case isFalse => omega

/-- At most two cycles have outcomes in one span. -/
theorem Follows.span {t : ℕ} : ∀ {xs : List Outcome} {s n : ℕ},
    Follows period threshold s n xs → xs.countP (inSpan period t) ≤ 2 * max threshold 1
  | [], _, _, _ => Nat.zero_le _
  | x :: xs, s, n, h => by
    have ⟨_, hsorted, hnext⟩ := h
    by_cases hx : t ≤ x.second
    · have := h.span_within (t := t) fun y hy => by
        rcases List.mem_cons.1 hy with rfl | hy
        · exact hx
        · exact hx.trans (hsorted y hy)
      omega
    · have hout : inSpan period t x = false := by simp [inSpan, hx]
      rw [List.countP_cons_of_neg (by simp [hout])]
      rcases hnext with ⟨-, -, -, h⟩ | ⟨-, -, -, -, h⟩
      · exact h.span
      · exact h.span

theorem Follows.rateBound {xs : List Outcome} (h : Follows period threshold s n xs) :
    RateBound period threshold xs := by
  refine ⟨?_, ?_, fun t => h.span, ?_⟩
  · rintro pre d mid post rfl hd hmid
    obtain ⟨s', n', h'⟩ := h.suffix
    have hcount := (h'.start hd).2.cycle Nat.one_pos hmid
    have := List.countP_cons (p := Outcome.accepted) (a := d) (l := mid)
    split at this <;> omega
  · rintro pre d mid e post rfl hd he
    obtain ⟨s', n', h'⟩ := h.suffix
    exact (h'.start hd).2.apart Nat.one_pos he
  · rintro pre d mid e post rfl hd hmid he
    obtain ⟨s', n', h'⟩ := h.suffix
    exact (h'.start hd).2.resumes Nat.one_pos hmid he

/-! ## The site -/

theorem startsCycle_iff {param : ControlParam} {record : EventWroteRecord}
    (hwrap : (record.timestamp / secToMillis).toNat + param.period.toNat < 2 ^ 64) (cur : UInt64) :
    startsCycle param record cur = true ↔ record.count = 0 ∨
      (record.timestamp / secToMillis).toNat + param.period.toNat < (cur / secToMillis).toNat ∨
      (cur / secToMillis).toNat < (record.timestamp / secToMillis).toNat := by
  simp only [startsCycle, Bool.or_eq_true, decide_eq_true_eq, UInt64.lt_iff_toNat_lt, gt_iff_lt,
    UInt64.toNat_add, Nat.mod_eq_of_lt hwrap, or_assoc]

/-- The calls of a site with one parameter whose record is never dropped, and whose time stamps
go on from that of the record. -/
structure Steady (param : ControlParam) (record : EventWroteRecord)
    (visits : List ((ControlParam × UInt64) × Bool)) : Prop where
  same : ∀ v ∈ visits, v.1.1 = param ∧ v.2 = false
  positive : ∀ v ∈ visits, v.1.2 ≠ invalidTimeStamp
  record_noWrap : (record.timestamp / secToMillis).toNat + param.period.toNat < 2 ^ 64
  noWrap : ∀ v ∈ visits, (v.1.2 / secToMillis).toNat + param.period.toNat < 2 ^ 64
  sorted : (record.timestamp :: visits.map fun v => v.1.2).Pairwise (· ≤ ·)
  count : record.count.toNat + visits.length < 2 ^ 64

theorem second_mono {a b : UInt64} (h : a ≤ b) :
    (a / secToMillis).toNat ≤ (b / secToMillis).toNat := by
  rw [UInt64.toNat_div, UInt64.toNat_div]
  exact Nat.div_le_div_right (UInt64.le_iff_toNat_le.1 h)

theorem Steady.next {param param' : ControlParam} {record : EventWroteRecord} {cur : UInt64}
    {dropped : Bool} {visits : List ((ControlParam × UInt64) × Bool)}
    (h : Steady param record (((param', cur), dropped) :: visits)) :
    Steady param (nextRecord param record cur) visits := by
  have hsorted := h.sorted
  rw [List.map_cons, List.pairwise_cons, List.pairwise_cons] at hsorted
  have hcount := h.count
  rw [List.length_cons] at hcount
  unfold nextRecord
  split
  case isTrue =>
    exact ⟨fun v hv => h.same v (by simp [hv]), fun v hv => h.positive v (by simp [hv]),
      h.noWrap _ List.mem_cons_self, fun v hv => h.noWrap v (by simp [hv]),
      List.pairwise_cons.2 ⟨hsorted.2.1, hsorted.2.2⟩, by
        have : ({ count := 1, timestamp := cur } : EventWroteRecord).count.toNat = 1 := rfl
        omega⟩
  case isFalse =>
    exact ⟨fun v hv => h.same v (by simp [hv]), fun v hv => h.positive v (by simp [hv]),
      h.record_noWrap, fun v hv => h.noWrap v (by simp [hv]),
      List.pairwise_cons.2 ⟨fun a ha => hsorted.1 a (by simp [ha]), hsorted.2.2⟩, by
        simp only [UInt64.toNat_add, UInt64.toNat_one]
        omega⟩

theorem second_siteOutcomes : ∀ (record : EventWroteRecord)
    (visits : List ((ControlParam × UInt64) × Bool)),
    (siteOutcomes record visits).map Outcome.second =
      visits.map fun v => (v.1.2 / secToMillis).toNat
  | _, [] => rfl
  | _, ((param, cur), dropped) :: visits => by
    rw [siteOutcomes, List.map_cons, List.map_cons, second_siteOutcomes]
    rfl

/-- The counter of the code goes as `Follows` says. -/
theorem follows_siteOutcomes {param : ControlParam} :
    ∀ {visits : List ((ControlParam × UInt64) × Bool)} {record : EventWroteRecord},
      Steady param record visits →
        Follows param.period.toNat param.threshold.toNat (record.timestamp / secToMillis).toNat
          record.count.toNat (siteOutcomes record visits)
  | [], _, _ => trivial
  | ((param', cur), dropped) :: visits, record, h => by
    obtain ⟨rfl, rfl⟩ : param' = param ∧ dropped = false := h.same _ List.mem_cons_self
    have ih := follows_siteOutcomes h.next
    have hpos : cur ≠ invalidTimeStamp := h.positive _ List.mem_cons_self
    have hsorted := h.sorted
    rw [List.map_cons, List.pairwise_cons, List.pairwise_cons] at hsorted
    have hge := second_mono (hsorted.1 cur (by simp))
    have hstarts := startsCycle_iff h.record_noWrap cur
    have hcount := h.count
    rw [List.length_cons] at hcount
    simp only [siteOutcomes, Bool.false_eq_true, if_false]
    refine ⟨hge, fun y hy => ?_, ?_⟩
    · have hmem := List.mem_map_of_mem (f := Outcome.second) hy
      rw [second_siteOutcomes] at hmem
      obtain ⟨v, hv, hsecond⟩ := List.mem_map.1 hmem
      rw [← hsecond]
      exact second_mono (hsorted.2.1 _ (List.mem_map.2 ⟨v, hv, rfl⟩))
    · by_cases hs : startsCycle param' record cur = true
      · left
        have hnext : nextRecord param' record cur = ⟨1, cur⟩ := by rw [nextRecord, if_pos hs]
        rw [hnext] at ih ⊢
        refine ⟨?_, by simp [outcomeOf, hnext], by simp [outcomeOf, admits, hs, hpos], ih⟩
        rcases hstarts.1 hs with h0 | hlt | hlt
        · left
          rw [h0]
          rfl
        · exact Or.inr hlt
        · omega
      · right
        have hnext : nextRecord param' record cur = ⟨record.count + 1, record.timestamp⟩ := by
          rw [nextRecord, if_neg hs]
        rw [hnext] at ih
        have hadd : (record.count + 1).toNat = record.count.toNat + 1 := by
          rw [UInt64.toNat_add, UInt64.toNat_one]
          omega
        have hno := mt hstarts.2 hs
        rw [not_or, not_or, not_lt] at hno
        have hn : record.count.toNat ≠ 0 := fun h0 => hno.1 (UInt64.toNat_inj.1 h0)
        refine ⟨hn, hno.2.1, ?_, fun hacc => ?_, ?_⟩
        · have : record.count + 1 ≠ 1 := fun h1 => hn (by
            rw [h1] at hadd
            have : (1 : UInt64).toNat = 1 := rfl
            omega)
          simp [outcomeOf, hnext, this]
        · have hle : record.count + 1 ≤ param'.threshold := by
            simpa [outcomeOf, admits, hs, hpos] using hacc
          rw [← hadd]
          exact UInt64.le_iff_toNat_le.1 hle
        · rw [hadd] at ih
          rwa [hnext]

/-! ## Runs with few keys -/

/-- With at most 30 keys in all, no call is crowded. -/
theorem crowded_eq_false {k : CharKind} {key : UInt64} {ks : List UInt64}
    (hlen : ks.length ≤ lruCacheDefaultSize) : ∀ {calls : List Call} {since : List UInt64},
    since.Nodup → key ∉ since → since ⊆ ks → (∀ call ∈ calls, call.key k ∈ ks) →
      ∀ b ∈ crowded k key since calls, b = false
  | [], _, _, _, _, _, b, hb => absurd hb (by simp [crowded])
  | call :: calls, since, hnodup, hkey, hsub, hks, b, hb => by
    have hmem := hks call List.mem_cons_self
    have hrest : ∀ call ∈ calls, call.key k ∈ ks := fun c hc => hks c (by simp [hc])
    rw [crowded] at hb
    split at hb
    case isTrue h =>
      rcases List.mem_cons.1 hb with rfl | hb
      · have hsubperm : (key :: since).Subperm ks :=
          List.subperm_of_subset (List.nodup_cons.2 ⟨hkey, hnodup⟩)
            (List.cons_subset.2 ⟨h ▸ hmem, hsub⟩)
        have := hsubperm.length_le
        rw [List.length_cons] at this
        rw [decide_eq_false_iff_not]
        omega
      · exact crowded_eq_false hlen List.nodup_nil (by simp) (by simp) hrest b hb
    case isFalse h =>
      refine crowded_eq_false hlen hnodup.insert ?_ ?_ hrest b hb
      · rw [List.mem_insert_iff, not_or]
        exact ⟨Ne.symm h, hkey⟩
      · intro x hx
        rcases List.mem_insert_iff.1 hx with rfl | hx
        · exact hmem
        · exact hsub hx

/-- The rate bound of every key, in a run with at most 30 keys. -/
theorem rateBound_outcomes (k : CharKind) (key : UInt64) (param : ControlParam)
    (calls : List Call) (hlen : calls.length < 2 ^ 64)
    (hkeys : (calls.map (Call.key k)).dedup.length ≤ lruCacheDefaultSize)
    (hparam : ∀ v ∈ site k key calls, v.1 = param)
    (hwrap : ∀ v ∈ site k key calls,
      (v.2 / secToMillis).toNat + param.period.toNat < 2 ^ 64)
    (hpositive : ∀ v ∈ site k key calls, v.2 ≠ invalidTimeStamp)
    (hsorted : ((site k key calls).map Prod.snd).Pairwise (· ≤ ·)) :
    RateBound param.period.toNat param.threshold.toNat
      (outcomes k key (.new lruCacheDefaultSize) calls) := by
  have hfree : ∀ b ∈ crowded k key [] calls, b = false :=
    crowded_eq_false hkeys List.nodup_nil (by simp) (by simp) fun call hcall =>
      List.mem_dedup.2 (List.mem_map_of_mem hcall)
  have hsplit : ∀ v ∈ (site k key calls).zip (crowded k key [] calls),
      v.1 ∈ site k key calls ∧ v.2 = false := fun v hv =>
    ⟨(List.of_mem_zip hv).1, hfree _ (List.of_mem_zip hv).2⟩
  have hstamps : ((site k key calls).zip (crowded k key [] calls)).map (fun v => v.1.2) =
      (site k key calls).map Prod.snd := by
    rw [← Function.comp_def Prod.snd Prod.fst, ← List.map_map,
      List.map_fst_zip (length_crowded calls []).ge]
  have hzip : ((site k key calls).zip (crowded k key [] calls)).length ≤ calls.length := by
    rw [List.length_zip, length_crowded, min_self, site, List.length_map]
    exact List.length_filter_le _ _
  rw [outcomes_eq_siteOutcomes (tracks_new key [])]
  refine (@follows_siteOutcomes param _ _ ⟨fun v hv => ?_, fun v hv => ?_, ?_, fun v hv => ?_,
    ?_, ?_⟩).rateBound
  · exact ⟨hparam _ (hsplit v hv).1, (hsplit v hv).2⟩
  · exact hpositive _ (hsplit v hv).1
  · have := param.period.toNat_lt
    simpa using this
  · exact hwrap _ (hsplit v hv).1
  · rw [hstamps, List.pairwise_cons]
    exact ⟨fun a _ => UInt64.le_iff_toNat_le.2 (Nat.zero_le _), hsorted⟩
  · have : ({} : EventWroteRecord).count.toNat = 0 := rfl
    omega

/-- Two calls of one line, the second of which is over the limit. -/
theorem rateBound_outcomes_lineCall :
    RateBound 5 1 (outcomes .signed ((lineCall 3).key .signed) (.new lruCacheDefaultSize)
      [lineCall 3, lineCall 3]) :=
  rateBound_outcomes .signed ((lineCall 3).key .signed) ⟨5, 1⟩ [lineCall 3, lineCall 3]
    (by decide) (by decide +kernel) (by decide +kernel) (by decide +kernel) (by decide +kernel)
    (by decide +kernel)

end WriteController

end HiSysEvent
