import HiSysEvent.RawDataRuns

/-!
# Copies of growable byte buffers

In a program whose allocations succeed, a copy of an object has its content, and neither
object sees what happens to the other (`Objects.Copied`). The copy constructor makes an
empty object of an empty one. `operator=` returns early for an empty object, so that the
target keeps the content it had (`Objects.copies_iff`).
-/

namespace HiSysEvent

open Wire While

/-! ## Granted allocations -/

theorem RawData.update_alloc_always (d : RawData) (data : Option Bytes) (len pos : ℕ) :
    (d.update data len pos Alloc.always).2.2 = Alloc.always := by
  unfold RawData.update
  split
  · dsimp only
    split
    · rfl
    · split
      · split
        · split <;> rfl
        · rfl
      · rfl
  · rfl

theorem RawData.append_alloc_always (d : RawData) (data : Option Bytes) (len : ℕ) :
    (d.append data len Alloc.always).2.2 = Alloc.always := by
  unfold RawData.append
  split
  · rfl
  · exact d.update_alloc_always data len d.len

theorem RawData.assign_alloc_always (d b : RawData) (self : Bool) :
    (d.assign b self Alloc.always).2 = Alloc.always := by
  unfold RawData.assign
  split
  · rfl
  · split
    · rfl
    · split
      · rfl
      · split
        · split <;> rfl
        · rfl

/-- What a call on values can do : nothing, a new object, or a new value of its target. If its
allocations succeed, so do the later ones. -/
theorem Values.step_cases (v : Values) (call : RawDataCall) :
    (v.step call).2 = v ∨
    ∃ alloc, (v.alloc = Alloc.always → alloc = Alloc.always) ∧
      ((∃ d, (v.step call).2 = ⟨v.objects ++ [d], alloc⟩) ∨
        ∃ a d, call.target = some a ∧ (v.step call).2 = ⟨v.objects.set a d, alloc⟩) := by
  obtain ⟨objects, alloc⟩ := v
  cases call with
  | construct =>
    refine Or.inr ⟨_, ?_, Or.inl ⟨_, rfl⟩⟩
    rintro rfl
    rfl
  | copy b =>
    rw [Values.step]
    dsimp only
    cases objects[b]? with
    | none => exact Or.inl rfl
    | some e =>
      refine Or.inr ⟨_, ?_, Or.inl ⟨_, rfl⟩⟩
      rintro rfl
      exact RawData.copy_alloc_always e
  | assign a b =>
    rw [Values.step]
    dsimp only
    cases objects[a]? with
    | none => exact Or.inl rfl
    | some d =>
      cases objects[b]? with
      | none => exact Or.inl rfl
      | some e =>
        refine Or.inr ⟨_, ?_, Or.inr ⟨a, _, rfl, rfl⟩⟩
        rintro rfl
        exact RawData.assign_alloc_always d e _
  | append a arg =>
    rw [Values.step]
    dsimp only
    cases objects[a]? with
    | none => exact Or.inl rfl
    | some d =>
      refine Or.inr ⟨_, ?_, Or.inr ⟨a, _, rfl, rfl⟩⟩
      rintro rfl
      exact d.append_alloc_always _ _
  | update a arg pos =>
    rw [Values.step]
    dsimp only
    cases objects[a]? with
    | none => exact Or.inl rfl
    | some d =>
      refine Or.inr ⟨_, ?_, Or.inr ⟨a, _, rfl, rfl⟩⟩
      rintro rfl
      exact d.update_alloc_always _ _ _

theorem Values.alloc_step {v : Values} (h : v.alloc = Alloc.always) (call : RawDataCall) :
    (v.step call).2.alloc = Alloc.always := by
  rcases v.step_cases call with hv | ⟨alloc, ha, ⟨d, hv⟩ | ⟨a, d, -, hv⟩⟩
  · rw [hv, h]
  · rw [hv, ha h]
  · rw [hv, ha h]

/-- A program whose allocations succeed goes on so. -/
theorem Values.alloc_exec : ∀ (calls : List RawDataCall) {v : Values}, v.alloc = Alloc.always →
    (Run.exec (fun v call => (v.step call).2) v calls).alloc = Alloc.always
  | [], _, h => h
  | call :: calls, _, h => Values.alloc_exec calls (Values.alloc_step h call)

/-! ## Calls on other objects -/

theorem Values.step_other {v : Values} (call : RawDataCall) {i : ℕ} (hi : i < v.objects.length)
    (h : call.target ≠ some i) :
    (v.step call).2.objects[i]? = v.objects[i]? ∧ i < (v.step call).2.objects.length := by
  rcases v.step_cases call with hv | ⟨alloc, -, ⟨d, hv⟩ | ⟨a, d, ha, hv⟩⟩
  · rw [hv]
    exact ⟨rfl, hi⟩
  · rw [hv]
    exact ⟨List.getElem?_append_left hi, by rw [List.length_append]; omega⟩
  · rw [hv]
    exact ⟨List.getElem?_set_ne fun heq => h (by rw [ha, heq]), by rwa [List.length_set]⟩

theorem Values.exec_other : ∀ {calls : List RawDataCall} {v : Values} {i : ℕ},
    i < v.objects.length → (∀ call ∈ calls, call.target ≠ some i) →
      (Run.exec (fun v call => (v.step call).2) v calls).objects[i]? = v.objects[i]?
  | [], _, _, _, _ => rfl
  | call :: calls, v, i, hi, h => by
    obtain ⟨hget, hlt⟩ := Values.step_other call hi (h call List.mem_cons_self)
    rw [Run.exec, Values.exec_other hlt fun c hc => h c (List.mem_cons_of_mem call hc), hget]

/-! ## Copies -/

namespace Objects

variable {s : Objects}

/-- The bytes in use of an object. -/
def content (s : Objects) (i : ℕ) : Option Bytes :=
  (s.objects[i]?).map fun d => (d.view s.memory).content

/-- After a copy of `source` to `target`. -/
structure Copied (s s' : Objects) (target source : ℕ) : Prop where
  equal : s'.content target = s.content source
  kept : s'.content source = s.content source
  /-- Later calls that are not on one of the two leave it as it is. -/
  apart : ∀ later, ∃ s'', s'.run later = some s'' ∧ ∀ i, i = target ∨ i = source →
    (∀ call ∈ later, call.target ≠ some i) → s''.content i = s'.content i

theorem content_eq (s : Objects) (i : ℕ) :
    s.content i = (s.view.objects[i]?).map RawData.content := by
  rw [view_getElem?, Option.map_map]
  rfl

theorem length_view (s : Objects) : s.view.objects.length = s.objects.length :=
  List.length_map _

/-- A call on another object leaves the content as it is. -/
theorem Separate.content_other (h : s.Separate) {call : RawDataCall} {r : Bool} {s' : Objects}
    (hs' : s.step call = some (r, s')) {i : ℕ} (hi : i < s.objects.length)
    (htarget : call.target ≠ some i) : s'.content i = s.content i := by
  obtain ⟨r', s'', hs'', -, hview⟩ := h.step call
  rw [hs', Option.some.injEq, Prod.mk.injEq] at hs''
  obtain ⟨rfl, rfl⟩ := hs''
  have hother := (Values.step_other call (by rwa [length_view]) htarget).1
  rw [← hview] at hother
  rw [content_eq, content_eq, hother]

/-- Calls on other objects leave the content as it is. -/
theorem Separate.apart_run (h : s.Separate) (later : List RawDataCall) :
    ∃ s', s.run later = some s' ∧ ∀ i, i < s.objects.length →
      (∀ call ∈ later, call.target ≠ some i) → s'.content i = s.content i := by
  obtain ⟨s', hrun, -, hview⟩ := h.run later
  refine ⟨s', hrun, fun i hi hcalls => ?_⟩
  rw [content_eq, content_eq, hview, Values.exec_other (by rwa [length_view]) hcalls]

/-- A copy is constructed with the content of the object. -/
theorem Separate.copied (h : s.Separate) (ha : s.memory.alloc = Alloc.always) {b : ℕ}
    (hb : b < s.objects.length) :
    ∃ s', s.step (.copy b) = some (true, s') ∧ Copied s s' s.objects.length b := by
  obtain ⟨e, hb'⟩ : ∃ e, s.objects[b]? = some e := ⟨_, List.getElem?_eq_getElem hb⟩
  have hsound := h.sound_of hb'
  obtain ⟨r, s', hs', hsep, hview⟩ := h.step (.copy b)
  have hstep : s.view.step (.copy b) = (true, ⟨s.view.objects ++
      [((e.view s.memory).copy s.view.alloc).1], ((e.view s.memory).copy s.view.alloc).2⟩) := by
    rw [Values.step, shown hb']
  obtain ⟨rfl, hview'⟩ := Prod.mk.inj (hview.trans hstep)
  have hlen : s'.objects.length = s.objects.length + 1 := by
    rw [← length_view, hview', List.length_append, length_view]
    rfl
  refine ⟨s', hs', ?_, ?_, fun later => ?_⟩
  · rw [content_eq, hview', ← length_view, List.getElem?_concat_length, content_eq, shown hb',
      Option.map_some, Option.map_some, show s.view.alloc = Alloc.always from ha,
      RawData.content_copy hsound rfl]
  · exact h.content_other hs' hb (by simp [RawDataCall.target])
  · obtain ⟨s'', hs'', hother⟩ := hsep.apart_run later
    refine ⟨s'', hs'', fun i hi hcalls => hother i ?_ hcalls⟩
    omega

/-- An assignment copies the content if there is one. -/
theorem Separate.assigned (h : s.Separate) (ha : s.memory.alloc = Alloc.always) {a b : ℕ}
    (hia : a < s.objects.length) (hib : b < s.objects.length) :
    ∃ s', s.step (.assign a b) = some (true, s') ∧
      (Copied s s' a b ↔ a = b ∨ s.content b ≠ some [] ∨ s.content a = some []) := by
  obtain ⟨d, hd⟩ : ∃ d, s.objects[a]? = some d := ⟨_, List.getElem?_eq_getElem hia⟩
  obtain ⟨e, he⟩ : ∃ e, s.objects[b]? = some e := ⟨_, List.getElem?_eq_getElem hib⟩
  have hsound := h.sound_of he
  obtain ⟨r, s', hs', hsep, hview⟩ := h.step (.assign a b)
  have hstep : s.view.step (.assign a b) = (true, ⟨s.view.objects.set a
      ((d.view s.memory).assign (e.view s.memory) (a = b) s.view.alloc).1,
      ((d.view s.memory).assign (e.view s.memory) (a = b) s.view.alloc).2⟩) := by
    rw [Values.step, shown hd, shown he]
  obtain ⟨rfl, hview'⟩ := Prod.mk.inj (hview.trans hstep)
  have hlen : s'.objects.length = s.objects.length := by
    rw [← length_view, hview', List.length_set, length_view]
  have htarget : s'.content a = some
      ((d.view s.memory).assign (e.view s.memory) (a = b) Alloc.always).1.content := by
    rw [content_eq, hview', List.getElem?_set_self (by rwa [length_view]), Option.map_some,
      show s.view.alloc = Alloc.always from ha]
  have hd' : s.content a = some (d.view s.memory).content := by
    rw [content_eq, shown hd, Option.map_some]
  have he' : s.content b = some (e.view s.memory).content := by
    rw [content_eq, shown he, Option.map_some]
  have hkept : s'.content b = s.content b := by
    by_cases hab : a = b
    · subst hab
      rw [htarget, hd', decide_eq_true rfl]
      rfl
    · exact h.content_other hs' hib (by simpa [RawDataCall.target] using hab)
  have hequal : s'.content a = s.content b ↔
      a = b ∨ s.content b ≠ some [] ∨ s.content a = some [] := by
    by_cases hab : a = b
    · subst hab
      exact iff_of_true hkept (Or.inl rfl)
    · rw [htarget, decide_eq_false hab, RawData.content_assign hsound _ rfl, hd', he']
      simp only [Option.some.injEq, ne_eq, hab, false_or]
      split
      case isTrue hempty => simp only [hempty, not_true_eq_false, false_or]
      case isFalse hfull => exact iff_of_true rfl (Or.inl hfull)
  refine ⟨s', hs', fun hcopied => hequal.1 hcopied.equal, fun hcond =>
    ⟨hequal.2 hcond, hkept, fun later => ?_⟩⟩
  obtain ⟨s'', hs'', hother⟩ := hsep.apart_run later
  refine ⟨s'', hs'', fun i hi hcalls => hother i ?_ hcalls⟩
  omega

/-- In every program whose allocations succeed, a constructed copy is a copy, and an
assignment makes one if and only if the objects are the same, the source is not empty, or
the target is empty too. -/
theorem copies_iff (calls : List RawDataCall) :
    ∃ s, (empty Alloc.always).run calls = some s ∧
      (∀ b, b < s.objects.length → ∃ s', s.step (.copy b) = some (true, s') ∧
        Copied s s' s.objects.length b) ∧
      ∀ a b, a < s.objects.length → b < s.objects.length →
        ∃ s', s.step (.assign a b) = some (true, s') ∧
          (Copied s s' a b ↔ a = b ∨ s.content b ≠ some [] ∨ s.content a = some []) := by
  obtain ⟨s, hrun, hsep, hview⟩ := (separate_empty Alloc.always).run calls
  have halloc : s.memory.alloc = Alloc.always := by
    have := Values.alloc_exec calls (v := (empty Alloc.always).view) rfl
    rwa [← hview] at this
  exact ⟨s, hrun, fun b hb => hsep.copied halloc hb, fun a b hia hib =>
    hsep.assigned halloc hia hib⟩

/-- An empty object that is assigned to one of a byte leaves that byte. -/
theorem not_assign_copied :
    ¬∀ calls : List RawDataCall, ∃ s, (empty Alloc.always).run calls = some s ∧
      ∀ a b, a < s.objects.length → b < s.objects.length →
        ∃ s', s.step (.assign a b) = some (true, s') ∧ Copied s s' a b := by
  intro h
  let calls : List RawDataCall :=
    [.construct, .construct, .append 0 ⟨some [97], 1, fun bs hbs => by cases hbs; rfl⟩]
  obtain ⟨s, hrun, hall⟩ := h calls
  have hbefore : ((empty Alloc.always).run calls).map (fun s => (s.objects.length, s.content 1)) =
      some (2, some []) := by decide +kernel
  have hafter : (((empty Alloc.always).run calls).bind fun s => s.step (.assign 0 1)).map
      (fun r => r.2.content 0) = some (some [97]) := by decide +kernel
  rw [hrun] at hbefore hafter
  obtain ⟨hlen, hcontent⟩ := Prod.mk.inj (Option.some.inj hbefore)
  obtain ⟨s', hs', hcopied⟩ := hall 0 1 (by omega) (by omega)
  rw [Option.bind_some, hs'] at hafter
  have := hcopied.equal
  rw [hcontent, show s'.content 0 = some [97] from Option.some.inj hafter] at this
  cases this

end Objects

end HiSysEvent
