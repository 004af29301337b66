import HiSysEvent.BaseManager

/-!
# Watcher registries

The C and the Rust interface keep a map from pairs of callbacks to base listeners. Every
addition makes a new base listener, with a stub of its own, so adding a pair again puts the
new one into the place of the one whose stub is still registered.

`Consistent` is the invariant of a registry whose pairs are not added twice : each registered
stub belongs to the base listener its pair is mapped to. A successful addition of a pair
that is not mapped keeps it, and so does every removal, and with it no stub is lost
(`Consistent.losesNone_add_iff`, `Consistent.keep_removed`).
-/

set_option linter.unusedSectionVars false

namespace HiSysEvent

open ListenerState

variable {ℓ κ : Type} [DecidableEq ℓ] [DecidableEq κ]

/-- The map of a registry and the state of the base listeners. -/
structure WatcherRegistry (ℓ κ : Type) where
  watchers : κ → Option (HiSysEventBaseListener ℓ)
  base : ListenerState ℓ

namespace WatcherRegistry

/-- Nothing added and nothing registered. -/
def init : WatcherRegistry ℓ κ :=
  ⟨fun _ => none, .init⟩

/-- Register a new base listener and put it into the map. -/
def add (key : κ) (listener : ℓ) (rules : List ListenerRule) (r : ServiceResult)
    (s : WatcherRegistry ℓ κ) : ℤ × WatcherRegistry ℓ κ :=
  let (listenerC, base) := s.base.newBaseListener listener
  let (ret, base) := HiSysEventBaseManager.addListener (some listenerC) rules r base
  if ret ≠ ipcCallSucceed then (ret, { s with base := base })
  else (ret, ⟨Function.update s.watchers key (some listenerC), base⟩)

/-- Remove the base listener of a pair from the service, and then from the map. -/
def remove (key : κ) (r : ServiceResult) (s : WatcherRegistry ℓ κ) : ℤ × WatcherRegistry ℓ κ :=
  match s.watchers key with
  | none => (errListenerNotExist, s)
  | some b =>
    let (ret, base) := HiSysEventBaseManager.removeListener (some b) r s.base
    if ret = ipcCallSucceed then (ret, ⟨Function.update s.watchers key none, base⟩)
    else (ret, { s with base := base })

/-- Every registered stub belongs to a base listener in the map. -/
def LosesNone (s : WatcherRegistry ℓ κ) : Prop :=
  ∀ cb ∈ s.base.service.callbacks, ∃ key, s.watchers key = some cb.getEventListener

variable (keyOf : ℓ → κ)

/-- No registered stub delivers to the pair. -/
def Silent (key : κ) (s : WatcherRegistry ℓ κ) : Prop :=
  ∀ cb ∈ s.base.service.callbacks, keyOf cb.getEventListener.listener ≠ key

/-- Each registered stub belongs to the base listener of its pair, and each base listener in the
map has one registered stub, which it holds until a removal fails. -/
structure Consistent (s : WatcherRegistry ℓ κ) : Prop where
  mapped : ∀ cb ∈ s.base.service.callbacks,
    s.watchers (keyOf cb.getEventListener.listener) = some cb.getEventListener
  unique : ∀ cb ∈ s.base.service.callbacks, ∀ cb' ∈ s.base.service.callbacks,
    cb.getEventListener = cb'.getEventListener → cb = cb'
  key : ∀ key b, s.watchers key = some b → keyOf b.listener = key ∧ b.addr < s.base.next
  registered : ∀ key b, s.watchers key = some b → ∃ cb ∈ s.base.service.callbacks,
    cb.getEventListener = b ∧ (s.base.stub b = some cb ∨ s.base.listenerProxy b.addr = none)

theorem consistent_init : (init : WatcherRegistry ℓ κ).Consistent keyOf where
  mapped cb h := absurd h (by simp [init, ListenerState.init])
  unique cb h := absurd h (by simp [init, ListenerState.init])
  key key b h := absurd h (by simp [init])
  registered key b h := absurd h (by simp [init])

variable {keyOf} {s : WatcherRegistry ℓ κ}

theorem Consistent.losesNone (h : s.Consistent keyOf) : s.LosesNone :=
  fun cb hcb => ⟨_, h.mapped cb hcb⟩

/-! ## What the operations do -/

/-- An addition that fails leaves the map and the registered stubs as they were. -/
theorem add_fails (key : κ) (listener : ℓ) (rules : List ListenerRule) {r : ServiceResult}
    (hr : r ≠ .returns ipcCallSucceed) (s : WatcherRegistry ℓ κ) : ∃ base,
    s.add key listener rules r = (r.code, ⟨s.watchers, base⟩) ∧
    base.service.callbacks = s.base.service.callbacks ∧ s.base.next ≤ base.next ∧
    ∀ a, a < s.base.next → base.listenerProxy a = s.base.listenerProxy a := by
  have hcode : r.code ≠ ipcCallSucceed := mt code_eq_succeed.1 hr
  obtain ⟨hnext, hframe⟩ := addListener_frame (s.base.newBaseListener listener).1 rules
    (s.base.newBaseListener listener).2 r
  refine ⟨_, by simp only [add, addListener_fst, ne_eq, hcode, not_false_eq_true, if_true],
    ?_, (Nat.le_succ _).trans hnext, fun a ha => ?_⟩
  · cases r with
    | notFound =>
      obtain ⟨d, n, -, hadd, -⟩ := addListener_notFound (s.base.newBaseListener listener).1 rules
        (s.base.newBaseListener listener).2
      rw [hadd]
      rfl
    | returns ret =>
      obtain ⟨d, cb, n, -, hadd, -⟩ := addListener_returns (s.base.newBaseListener listener).1
        rules (s.base.newBaseListener listener).2 ret
      rw [hadd]
      simp [newBaseListener, show ret ≠ ipcCallSucceed from hcode]
  · rw [hframe a ha.ne]
    exact Function.update_of_ne ha.ne _ _

/-- An addition that succeeds maps the pair to a new base listener and registers its stub. -/
theorem add_succeeds (key : κ) (listener : ℓ) (rules : List ListenerRule)
    (s : WatcherRegistry ℓ κ) : ∃ b cb base, b.addr = s.base.next ∧ b.listener = listener ∧
    cb.getEventListener = b ∧ base.stub b = some cb ∧
    s.add key listener rules (.returns ipcCallSucceed) =
      (ipcCallSucceed, ⟨Function.update s.watchers key (some b), base⟩) ∧
    base.service.callbacks = s.base.service.callbacks.insert cb ∧ s.base.next < base.next ∧
    ∀ a, a < s.base.next → base.listenerProxy a = s.base.listenerProxy a := by
  obtain ⟨hnext, hframe⟩ := addListener_frame (s.base.newBaseListener listener).1 rules
    (s.base.newBaseListener listener).2 (.returns ipcCallSucceed)
  obtain ⟨d, cb, n, -, hadd, hcb, hd | ⟨-, hlistener, -⟩⟩ := addListener_returns
    (s.base.newBaseListener listener).1 rules (s.base.newBaseListener listener).2 ipcCallSucceed
  · simp [newBaseListener] at hd
  · rw [hadd] at hnext hframe
    refine ⟨_, cb, _, rfl, rfl, hlistener, ?_, by
      simp only [add, hadd, ne_eq, not_true_eq_false, if_false], ?_,
      Nat.lt_of_succ_le hnext, fun a ha => ?_⟩
    · simp [ListenerState.stub, hcb]
    · simp [newBaseListener]
    · rw [hframe a ha.ne]
      exact Function.update_of_ne ha.ne _ _

/-- A removal deletes the delegate. If it succeeds, the stub is no longer registered and the pair
no longer mapped. -/
theorem remove_cases {key : κ} {b : HiSysEventBaseListener ℓ} (hb : s.watchers key = some b)
    (r : ServiceResult) : ∃ base, base.next = s.base.next ∧
    base.listenerProxy = Function.update s.base.listenerProxy b.addr none ∧
    ((∃ ret, ret ≠ ipcCallSucceed ∧ s.remove key r = (ret, ⟨s.watchers, base⟩) ∧
        base.service.callbacks = s.base.service.callbacks) ∨
      (∃ cb, s.base.stub b = some cb ∧
        s.remove key r = (ipcCallSucceed, ⟨Function.update s.watchers key none, base⟩) ∧
        base.service.callbacks = s.base.service.callbacks.filter (· ≠ cb))) := by
  obtain ⟨service, hbase⟩ := removeListener_eq b s.base r
  refine ⟨(HiSysEventBaseManager.removeListener (some b) r s.base).2, by rw [hbase]; rfl,
    by rw [hbase]; rfl, ?_⟩
  by_cases hret : (HiSysEventBaseManager.removeListener (some b) r s.base).1 = ipcCallSucceed
  · right
    cases hcb : s.base.stub b with
    | none =>
      rw [removeListener_noStub b s.base r hcb] at hret
      have hret : errListenerNotExist = ipcCallSucceed := hret
      exact absurd hret (by decide)
    | some cb =>
      refine ⟨cb, rfl, by simp only [WatcherRegistry.remove, hb, hret, if_true], ?_⟩
      obtain rfl := code_eq_succeed.1 ((removeListener_fst hcb r).symm.trans hret)
      rw [removeListener_returns hcb]
      simp [setProxy]
  · refine Or.inl ⟨_, hret, by simp only [WatcherRegistry.remove, hb, hret, if_false], ?_⟩
    cases hcb : s.base.stub b with
    | none =>
      rw [removeListener_noStub b s.base r hcb]
      rfl
    | some cb =>
      cases r with
      | notFound =>
        rw [removeListener_notFound hcb]
        rfl
      | returns ret =>
        rw [removeListener_returns hcb] at hret ⊢
        simp [setProxy, show ret ≠ ipcCallSucceed from hret]

/-! ## The invariant -/

theorem Consistent.keep_failed (h : s.Consistent keyOf) (key : κ) (listener : ℓ)
    (rules : List ListenerRule) {r : ServiceResult} (hr : r ≠ .returns ipcCallSucceed) :
    (s.add key listener rules r).2.Consistent keyOf := by
  obtain ⟨base, hadd, hcallbacks, hnext, hproxy⟩ := add_fails key listener rules hr s
  rw [hadd]
  refine ⟨?_, ?_, ?_, ?_⟩
  · rw [hcallbacks]
    exact h.mapped
  · rw [hcallbacks]
    exact h.unique
  · intro k b hb
    exact ⟨(h.key k b hb).1, (h.key k b hb).2.trans_le hnext⟩
  · intro k b hb
    have hlt := (h.key k b hb).2
    rw [hcallbacks, ListenerState.stub_congr (hproxy _ hlt), hproxy _ hlt]
    exact h.registered k b hb

/-- An addition of a pair that is not mapped. -/
theorem Consistent.keep_added (h : s.Consistent keyOf) {key : κ} {listener : ℓ}
    (hkey : keyOf listener = key) (rules : List ListenerRule) (hfree : s.watchers key = none) :
    (s.add key listener rules (.returns ipcCallSucceed)).2.Consistent keyOf := by
  obtain ⟨b, cb, base, haddr, hlistener, hcb, hstub, hadd, hcallbacks, hnext, hproxy⟩ :=
    add_succeeds key listener rules s
  have hold : ∀ cb' ∈ s.base.service.callbacks,
      keyOf cb'.getEventListener.listener ≠ key ∧ cb'.getEventListener ≠ b := fun cb' hcb' => by
    have hmapped := h.mapped cb' hcb'
    refine ⟨fun hk => ?_, fun hb => ?_⟩
    · rw [hk, hfree] at hmapped
      exact absurd hmapped (by simp)
    · rw [hb, hlistener, hkey, hfree] at hmapped
      exact absurd hmapped (by simp)
  rw [hadd]
  refine ⟨?_, ?_, ?_, ?_⟩
  · intro cb' hcb'
    rw [hcallbacks, List.mem_insert_iff] at hcb'
    rcases hcb' with rfl | hcb'
    · rw [hcb, hlistener, hkey]
      exact Function.update_self _ _ _
    · exact (Function.update_of_ne (hold cb' hcb').1 _ _).trans (h.mapped cb' hcb')
  · intro cb₁ h₁ cb₂ h₂ heq
    rw [hcallbacks, List.mem_insert_iff] at h₁ h₂
    rcases h₁ with rfl | h₁ <;> rcases h₂ with rfl | h₂
    · rfl
    · exact absurd (heq.symm.trans hcb) (hold cb₂ h₂).2
    · exact absurd (heq.trans hcb) (hold cb₁ h₁).2
    · exact h.unique cb₁ h₁ cb₂ h₂ heq
  · intro k b' hb'
    dsimp only at hb' ⊢
    by_cases hk : k = key
    · obtain rfl : b = b' := by simpa [hk] using hb'
      exact ⟨by rw [hlistener, hkey, hk], haddr.trans_lt hnext⟩
    · rw [Function.update_of_ne hk] at hb'
      exact ⟨(h.key k b' hb').1, (h.key k b' hb').2.trans hnext⟩
  · intro k b' hb'
    dsimp only at hb' ⊢
    rw [hcallbacks]
    by_cases hk : k = key
    · obtain rfl : b = b' := by simpa [hk] using hb'
      exact ⟨cb, List.mem_insert_self, hcb, Or.inl hstub⟩
    · rw [Function.update_of_ne hk] at hb'
      have hlt := (h.key k b' hb').2
      obtain ⟨cb', hcb', hb, hcase⟩ := h.registered k b' hb'
      rw [ListenerState.stub_congr (hproxy _ hlt), hproxy _ hlt]
      exact ⟨cb', List.mem_insert_of_mem hcb', hb, hcase⟩

theorem Consistent.stub_registered (h : s.Consistent keyOf) {key : κ}
    {b : HiSysEventBaseListener ℓ} {cb : HiSysEventListenerProxy ℓ}
    (hb : s.watchers key = some b) (hcb : s.base.stub b = some cb) :
    cb ∈ s.base.service.callbacks ∧ cb.getEventListener = b := by
  obtain ⟨cb', hmem, hlistener, hstub | hnone⟩ := h.registered key b hb
  · obtain rfl : cb' = cb := by simpa [hstub] using hcb
    exact ⟨hmem, hlistener⟩
  · simp [ListenerState.stub, hnone] at hcb

/-- The other registered stubs deliver to other pairs. -/
theorem Consistent.other_key (h : s.Consistent keyOf) {key : κ} {b : HiSysEventBaseListener ℓ}
    {cb cb' : HiSysEventListenerProxy ℓ} (hb : s.watchers key = some b)
    (hcb : s.base.stub b = some cb) (hmem : cb' ∈ s.base.service.callbacks) (hne : cb' ≠ cb) :
    keyOf cb'.getEventListener.listener ≠ key := fun hk => by
  have hmapped := h.mapped cb' hmem
  rw [hk, hb] at hmapped
  obtain ⟨hcbmem, hlistener⟩ := h.stub_registered hb hcb
  exact hne (h.unique cb' hmem cb hcbmem (by rw [hlistener]; exact (Option.some.inj hmapped).symm))

/-- A delegate that is deleted. -/
theorem Consistent.registered_of_update (h : s.Consistent keyOf) {k : κ}
    {b b' : HiSysEventBaseListener ℓ} {base : ListenerState ℓ}
    (hproxy : base.listenerProxy = Function.update s.base.listenerProxy b.addr none)
    (hb' : s.watchers k = some b') : ∃ cb ∈ s.base.service.callbacks,
      cb.getEventListener = b' ∧ (base.stub b' = some cb ∨ base.listenerProxy b'.addr = none) := by
  obtain ⟨cb, hcb, hlistener, hcase⟩ := h.registered k b' hb'
  refine ⟨cb, hcb, hlistener, ?_⟩
  by_cases haddr : b'.addr = b.addr
  · right
    rw [hproxy, haddr]
    exact Function.update_self _ _ _
  · have hsame : base.listenerProxy b'.addr = s.base.listenerProxy b'.addr := by
      rw [hproxy]
      exact Function.update_of_ne haddr _ _
    rwa [ListenerState.stub_congr hsame, hsame]

theorem Consistent.keep_removed (h : s.Consistent keyOf) (key : κ) (r : ServiceResult) :
    (s.remove key r).2.Consistent keyOf := by
  cases hb : s.watchers key with
  | none =>
    rw [WatcherRegistry.remove, hb]
    exact h
  | some b =>
    obtain ⟨base, hnext, hproxy, ⟨ret, -, hremove, hcallbacks⟩ | ⟨cb, hcb, hremove, hcallbacks⟩⟩ :=
      remove_cases hb r
    · rw [hremove]
      refine ⟨?_, ?_, ?_, ?_⟩
      · rw [hcallbacks]
        exact h.mapped
      · rw [hcallbacks]
        exact h.unique
      · rw [hnext]
        exact h.key
      · intro k b' hb'
        rw [hcallbacks]
        exact h.registered_of_update hproxy hb'
    · rw [hremove]
      have hmem : ∀ cb', cb' ∈ base.service.callbacks ↔
          cb' ∈ s.base.service.callbacks ∧ cb' ≠ cb := fun cb' => by
        rw [hcallbacks, List.mem_filter, decide_eq_true_eq]
      have hwatchers : ∀ k b', Function.update s.watchers key none k = some b' →
          k ≠ key ∧ s.watchers k = some b' := fun k b' hb' => by
        by_cases hk : k = key
        · simp [hk] at hb'
        · exact ⟨hk, by rwa [Function.update_of_ne hk] at hb'⟩
      refine ⟨?_, ?_, ?_, ?_⟩
      · intro cb' hcb'
        obtain ⟨hcb', hne⟩ := (hmem cb').1 hcb'
        exact (Function.update_of_ne (h.other_key hb hcb hcb' hne) _ _).trans (h.mapped cb' hcb')
      · intro cb₁ h₁ cb₂ h₂
        exact h.unique cb₁ ((hmem cb₁).1 h₁).1 cb₂ ((hmem cb₂).1 h₂).1
      · intro k b' hb'
        dsimp only
        rw [hnext]
        exact h.key k b' (hwatchers k b' hb').2
      · intro k b' hb'
        obtain ⟨hk, hb'⟩ := hwatchers k b' hb'
        obtain ⟨cb', hcb', hlistener, hcase⟩ := h.registered_of_update hproxy hb'
        refine ⟨cb', (hmem cb').2 ⟨hcb', fun heq => hk ?_⟩, hlistener, hcase⟩
        have hlistener' := (h.stub_registered hb hcb).2
        rw [← heq, hlistener] at hlistener'
        rw [← (h.key k b' hb').1, hlistener', (h.key key b hb).1]

/-- After a removal that succeeds nothing delivers to the pair. -/
theorem Consistent.silent (h : s.Consistent keyOf) {key : κ} {r : ServiceResult}
    (hr : (s.remove key r).1 = ipcCallSucceed) : (s.remove key r).2.Silent keyOf key := by
  cases hb : s.watchers key with
  | none =>
    rw [WatcherRegistry.remove, hb] at hr
    have hr : errListenerNotExist = ipcCallSucceed := hr
    exact absurd hr (by decide)
  | some b =>
    obtain ⟨base, -, -, ⟨ret, hne, hremove, -⟩ | ⟨cb, hcb, hremove, hcallbacks⟩⟩ :=
      remove_cases hb r
    · rw [hremove] at hr
      exact absurd hr hne
    · rw [hremove]
      intro cb' hcb'
      rw [hcallbacks, List.mem_filter, decide_eq_true_eq] at hcb'
      exact h.other_key hb hcb hcb'.1 hcb'.2

/-- Adding a pair that is mapped loses the stub it is mapped to. -/
theorem Consistent.not_losesNone_add (h : s.Consistent keyOf) {key : κ} {listener : ℓ}
    (rules : List ListenerRule) (hused : s.watchers key ≠ none) :
    ¬(s.add key listener rules (.returns ipcCallSucceed)).2.LosesNone := by
  obtain ⟨b', hb'⟩ := Option.ne_none_iff_exists'.1 hused
  obtain ⟨cb', hcb', rfl, -⟩ := h.registered key b' hb'
  obtain ⟨b, cb, base, haddr, -, -, -, hadd, hcallbacks, -, -⟩ :=
    add_succeeds key listener rules s
  intro hloses
  rw [hadd] at hloses
  obtain ⟨k, hk⟩ := hloses cb' (by rw [hcallbacks]; exact List.mem_insert_of_mem hcb')
  dsimp only at hk
  by_cases hkey : k = key
  · obtain rfl : b = cb'.getEventListener := by simpa [hkey] using hk
    exact absurd haddr (h.key key _ hb').2.ne
  · rw [Function.update_of_ne hkey] at hk
    exact hkey ((h.key k _ hk).1.symm.trans (h.key key _ hb').1)

/-! ## An addition -/

/-- The stub held for the new base listener is its own, and there is one if the service was
asked. -/
theorem add_stub (key : κ) (listener : ℓ) (rules : List ListenerRule) (r : ServiceResult)
    (s : WatcherRegistry ℓ κ) :
    (∀ cb, (s.add key listener rules r).2.base.stub ⟨s.base.next, listener⟩ = some cb →
      cb.getEventListener = ⟨s.base.next, listener⟩) ∧
    (r ≠ .notFound →
      (s.add key listener rules r).2.base.stub ⟨s.base.next, listener⟩ ≠ none) := by
  have hbase : (s.add key listener rules r).2.base =
      (HiSysEventBaseManager.addListener (some (s.base.newBaseListener listener).1) rules r
        (s.base.newBaseListener listener).2).2 := by
    simp only [add]
    split <;> rfl
  rw [hbase]
  cases r with
  | notFound =>
    obtain ⟨d, n, -, hadd, hd | ⟨-, hcb⟩⟩ := addListener_notFound
      (s.base.newBaseListener listener).1 rules (s.base.newBaseListener listener).2
    · simp [newBaseListener] at hd
    · rw [hadd]
      exact ⟨fun cb h => by simp [ListenerState.stub, newBaseListener, hcb] at h,
        fun h => absurd rfl h⟩
  | returns ret =>
    obtain ⟨d, cb, n, -, hadd, hcb, hd | ⟨-, hlistener, -⟩⟩ := addListener_returns
      (s.base.newBaseListener listener).1 rules (s.base.newBaseListener listener).2 ret
    · simp [newBaseListener] at hd
    · rw [hadd]
      refine ⟨fun cb' h => ?_, fun _ => by simp [ListenerState.stub, newBaseListener, hcb]⟩
      obtain rfl : cb = cb' := by simpa [ListenerState.stub, newBaseListener, hcb] using h
      exact hlistener

theorem add_fst (key : κ) (listener : ℓ) (rules : List ListenerRule) (r : ServiceResult)
    (s : WatcherRegistry ℓ κ) : (s.add key listener rules r).1 = r.code := by
  by_cases hr : r = .returns ipcCallSucceed
  · subst hr
    obtain ⟨b, cb, base, -, -, -, -, hadd, -⟩ := add_succeeds key listener rules s
    rw [hadd]
    rfl
  · obtain ⟨base, hadd, -⟩ := add_fails key listener rules hr s
    rw [hadd]

theorem Consistent.keep_add (h : s.Consistent keyOf) {key : κ} {listener : ℓ}
    (hkey : keyOf listener = key) (rules : List ListenerRule) (r : ServiceResult)
    (hfree : r = .returns ipcCallSucceed → s.watchers key = none) :
    (s.add key listener rules r).2.Consistent keyOf := by
  by_cases hr : r = .returns ipcCallSucceed
  · subst hr
    exact h.keep_added hkey rules (hfree rfl)
  · exact h.keep_failed key listener rules hr

/-- No stub is lost exactly if a pair is not added again with success. -/
theorem Consistent.losesNone_add_iff (h : s.Consistent keyOf) {key : κ} {listener : ℓ}
    (hkey : keyOf listener = key) (rules : List ListenerRule) (r : ServiceResult) :
    (s.add key listener rules r).2.LosesNone ↔
      (r = .returns ipcCallSucceed → s.watchers key = none) := by
  refine ⟨?_, fun hfree => (h.keep_add hkey rules r hfree).losesNone⟩
  rintro hloses rfl
  by_contra hused
  exact h.not_losesNone_add rules hused hloses

end WatcherRegistry

end HiSysEvent
