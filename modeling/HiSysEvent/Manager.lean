import HiSysEvent.BaseManager

/-!
# The listener manager

`HiSysEventManager` keeps a base listener for each listener. The entry is made before the service
is asked, and a `RemoveListener` that fails has already deleted the delegate and the stub, so
what fails may change the local registration, and a listener that could not be removed
once cannot be removed at all (`not_keepsRegistration`).

It is kept exactly as long as `AddListener` of a listener without an entry succeeds, and
`RemoveListener` is called of listeners with an entry, and succeeds for one that was added
(`keepsRegistration_iff`).
-/

set_option linter.unusedSectionVars false

namespace HiSysEvent

open Run ListenerState

variable {ℓ : Type} [DecidableEq ℓ]

/-- `listenerToBaseMap_` and the state of the base listeners. An entry may be null. -/
structure HiSysEventManager (ℓ : Type) where
  listenerToBaseMap : ℓ → Option (Option (HiSysEventBaseListener ℓ))
  base : ListenerState ℓ

namespace HiSysEventManager

/-- No delegate yet, a service without watchers. -/
def init : HiSysEventManager ℓ :=
  ⟨fun _ => none, .init⟩

/-- `listenerToBaseMap_[listener]`, which makes a null entry if there is none. -/
def index (listener : ℓ) (m : HiSysEventManager ℓ) :
    Option (HiSysEventBaseListener ℓ) × HiSysEventManager ℓ :=
  match m.listenerToBaseMap listener with
  | some b => (b, m)
  | none => (none, { m with
      listenerToBaseMap := Function.update m.listenerToBaseMap listener (some none) })

/-- `HiSysEventManager::AddListener`: a listener without a base listener gets a new delegate. -/
def addListener (listener : Option ℓ) (rules : List ListenerRule) (r : ServiceResult)
    (m : HiSysEventManager ℓ) : ℤ × HiSysEventManager ℓ :=
  match listener with
  | none => (errListenerNotExist, m)
  | some l =>
    let (baseListener, m) := m.index l
    let (b, m) := match baseListener with
      | some b => (b, m)
      | none =>
        let (b, base) := m.base.newBaseListener l
        (b, ⟨Function.update m.listenerToBaseMap l (some (some b)), base⟩)
    let (ret, base) := HiSysEventBaseManager.addListener (some b) rules r m.base
    (ret, { m with base := base })

/-- `HiSysEventManager::RemoveListener`: refused to a listener that has no base listener. -/
def removeListener (listener : Option ℓ) (r : ServiceResult) (m : HiSysEventManager ℓ) :
    ℤ × HiSysEventManager ℓ :=
  match listener with
  | none => (errListenerNotExist, m)
  | some l =>
    let (baseListener, m) := m.index l
    match baseListener with
    | none => (errListenerNotExist, m)
    | some b =>
      let (ret, base) := HiSysEventBaseManager.removeListener (some b) r m.base
      if ret = ipcCallSucceed then
        (ret, ⟨Function.update m.listenerToBaseMap l none, base⟩)
      else (ret, { m with base := base })

/-- The delegate held for a listener. -/
def held (m : HiSysEventManager ℓ) (l : ℓ) : Option (HiSysEventDelegate ℓ) :=
  match m.listenerToBaseMap l with
  | some (some b) => m.base.listenerProxy b.addr
  | _ => none

end HiSysEventManager

/-! ## Runs -/

/-- The calls a client makes, with the service's answer. -/
inductive ManagerCall (ℓ : Type)
  | addListener (listener : Option ℓ) (rules : List ListenerRule) (r : ServiceResult)
  | removeListener (listener : Option ℓ) (r : ServiceResult)

/-- The manager, and the stub of each listener whose last `AddListener` succeeded. -/
structure ManagerSession (ℓ : Type) where
  manager : HiSysEventManager ℓ
  added : ℓ → Option (HiSysEventListenerProxy ℓ)

namespace ManagerSession

/-- The session before the first call. -/
def init : ManagerSession ℓ :=
  ⟨.init, fun _ => none⟩

/-- What a call returns, with the manager after it. -/
def call (s : ManagerSession ℓ) : ManagerCall ℓ → ℤ × HiSysEventManager ℓ
  | .addListener listener rules r => s.manager.addListener listener rules r
  | .removeListener listener r => s.manager.removeListener listener r

/-- One call, and what it leaves registered of the listener it added. -/
def step (s : ManagerSession ℓ) (c : ManagerCall ℓ) : ManagerSession ℓ :=
  let (ret, manager) := s.call c
  ⟨manager, match c with
    | .addListener (some l) _ _ => Function.update s.added l
        (if ret = ipcCallSucceed then
          (manager.held l).bind HiSysEventDelegate.spListenerCallBack else none)
    | _ => s.added⟩

/-- A call that fails leaves the listeners with an entry, and the delegate with its stub that is
held for each one whose last `AddListener` succeeded. A `RemoveListener` of such a listener
that the service answers with success reaches it with that stub, succeeds and removes
the entry. -/
structure KeepsRegistration (s : ManagerSession ℓ) (c : ManagerCall ℓ) : Prop where
  listeners : (s.call c).1 ≠ ipcCallSucceed → ∀ l,
    (s.call c).2.listenerToBaseMap l = none ↔ s.manager.listenerToBaseMap l = none
  delegates : (s.call c).1 ≠ ipcCallSucceed → ∀ l cb, s.added l = some cb →
    s.manager.listenerToBaseMap l ≠ none →
      (∃ d, s.manager.held l = some d ∧ d.spListenerCallBack = some cb) ∧
        (s.call c).2.held l = s.manager.held l
  removes : ∀ l cb, c = .removeListener (some l) (.returns ipcCallSucceed) →
    s.added l = some cb → s.manager.listenerToBaseMap l ≠ none →
      (s.call c).1 = ipcCallSucceed ∧ (s.call c).2.listenerToBaseMap l = none ∧
        (s.call c).2.base.service.requests =
          s.manager.base.service.requests ++ [.removeListener cb]

/-- A listener without an entry is added with success and not removed, one that was added is
removed with success. -/
def Orderly (s : ManagerSession ℓ) : ManagerCall ℓ → Prop
  | .addListener none _ _ => True
  | .addListener (some l) _ r =>
    r = .returns ipcCallSucceed ∨ s.manager.listenerToBaseMap l ≠ none
  | .removeListener none _ => True
  | .removeListener (some l) r => s.manager.listenerToBaseMap l ≠ none ∧
    (s.added l ≠ none → r = .returns ipcCallSucceed)

end ManagerSession

/-! ## What the calls do -/

section Calls

variable {m : HiSysEventManager ℓ} {l : ℓ} {b : HiSysEventBaseListener ℓ}

theorem addListener_entry (h : m.listenerToBaseMap l = some (some b)) (rules : List ListenerRule)
    (r : ServiceResult) : m.addListener (some l) rules r =
      ((HiSysEventBaseManager.addListener (some b) rules r m.base).1,
        { m with base := (HiSysEventBaseManager.addListener (some b) rules r m.base).2 }) := by
  simp [HiSysEventManager.addListener, HiSysEventManager.index, h]

/-- A listener without an entry gets a new base listener. -/
theorem addListener_noEntry (h : m.listenerToBaseMap l = none) (rules : List ListenerRule)
    (r : ServiceResult) : m.addListener (some l) rules r =
      ((HiSysEventBaseManager.addListener (some (m.base.newBaseListener l).1) rules r
          (m.base.newBaseListener l).2).1,
        ⟨Function.update m.listenerToBaseMap l (some (some (m.base.newBaseListener l).1)),
          (HiSysEventBaseManager.addListener (some (m.base.newBaseListener l).1) rules r
            (m.base.newBaseListener l).2).2⟩) := by
  simp [HiSysEventManager.addListener, HiSysEventManager.index, h]

theorem removeListener_entry (h : m.listenerToBaseMap l = some (some b)) (r : ServiceResult) :
    m.removeListener (some l) r =
      ((HiSysEventBaseManager.removeListener (some b) r m.base).1,
        ⟨if (HiSysEventBaseManager.removeListener (some b) r m.base).1 = ipcCallSucceed then
            Function.update m.listenerToBaseMap l none else m.listenerToBaseMap,
          (HiSysEventBaseManager.removeListener (some b) r m.base).2⟩) := by
  simp only [HiSysEventManager.removeListener, HiSysEventManager.index, h]
  split_ifs <;> rfl

/-- A listener without an entry gets a null one. -/
theorem removeListener_noEntry (h : m.listenerToBaseMap l = none) (r : ServiceResult) :
    m.removeListener (some l) r = (errListenerNotExist, { m with
      listenerToBaseMap := Function.update m.listenerToBaseMap l (some none) }) := by
  simp [HiSysEventManager.removeListener, HiSysEventManager.index, h]

end Calls

/-! ## The registration -/

namespace ManagerSession

/-- What the local registration looks like in an orderly run. -/
structure Tracked (s : ManagerSession ℓ) : Prop where
  entry : ∀ l e, s.manager.listenerToBaseMap l = some e → ∃ b, e = some b
  lt : ∀ l b, s.manager.listenerToBaseMap l = some (some b) → b.addr < s.manager.base.next
  inj : ∀ l l' b b', s.manager.listenerToBaseMap l = some (some b) →
    s.manager.listenerToBaseMap l' = some (some b') → b.addr = b'.addr → l = l'
  stub : ∀ l b cb, s.manager.listenerToBaseMap l = some (some b) → s.added l = some cb →
    s.manager.base.stub b = some cb

theorem tracked_init : (init : ManagerSession ℓ).Tracked where
  entry l e h := absurd h (by simp [init, HiSysEventManager.init])
  lt l b h := absurd h (by simp [init, HiSysEventManager.init])
  inj l l' b b' h := absurd h (by simp [init, HiSysEventManager.init])
  stub l b cb h := absurd h (by simp [init, HiSysEventManager.init])

variable {s : ManagerSession ℓ} {l : ℓ} {b : HiSysEventBaseListener ℓ}

theorem held_of_entry {m : HiSysEventManager ℓ}
    (h : m.listenerToBaseMap l = some (some b)) : m.held l = m.base.listenerProxy b.addr := by
  rw [HiSysEventManager.held, h]

theorem step_addListener_entry (hb : s.manager.listenerToBaseMap l = some (some b))
    (rules : List ListenerRule) (r : ServiceResult) :
    s.step (.addListener (some l) rules r) =
      ⟨⟨s.manager.listenerToBaseMap,
        (HiSysEventBaseManager.addListener (some b) rules r s.manager.base).2⟩,
        Function.update s.added l (if (HiSysEventBaseManager.addListener (some b) rules r
          s.manager.base).1 = ipcCallSucceed then (HiSysEventBaseManager.addListener (some b) rules
            r s.manager.base).2.stub b else none)⟩ := by
  simp only [step, call, addListener_entry hb, HiSysEventManager.held, hb]
  rfl

/-- An `AddListener` of a listener with an entry. -/
theorem Tracked.readded (h : s.Tracked) (hb : s.manager.listenerToBaseMap l = some (some b))
    (rules : List ListenerRule) (r : ServiceResult) :
    (s.step (.addListener (some l) rules r)).Tracked := by
  obtain ⟨hnext, hframe⟩ := addListener_frame b rules s.manager.base r
  rw [step_addListener_entry hb]
  refine ⟨h.entry, fun l' b' hb' => (h.lt l' b' hb').trans_le hnext, h.inj, ?_⟩
  intro l' b' cb hb' hcb
  dsimp only at hb' hcb ⊢
  by_cases hl : l' = l
  · subst hl
    obtain rfl : b = b' := by simpa [hb] using hb'
    rw [Function.update_self] at hcb
    split_ifs at hcb
    exact hcb
  · rw [Function.update_of_ne hl] at hcb
    have hne : b'.addr ≠ b.addr := fun heq => hl (h.inj l' l b' b hb' hb heq)
    rw [ListenerState.stub, hframe _ hne]
    exact h.stub l' b' cb hb' hcb

/-- The new entry that `AddListener` makes for a listener without one. -/
def withEntry (s : ManagerSession ℓ) (l : ℓ) : ManagerSession ℓ :=
  ⟨⟨Function.update s.manager.listenerToBaseMap l
      (some (some (s.manager.base.newBaseListener l).1)),
    (s.manager.base.newBaseListener l).2⟩, Function.update s.added l none⟩

theorem withEntry_entry (s : ManagerSession ℓ) (l : ℓ) :
    (s.withEntry l).manager.listenerToBaseMap l =
      some (some (s.manager.base.newBaseListener l).1) :=
  Function.update_self _ _ _

theorem step_addListener_noEntry (hl : s.manager.listenerToBaseMap l = none)
    (rules : List ListenerRule) (r : ServiceResult) :
    s.step (.addListener (some l) rules r) =
      (s.withEntry l).step (.addListener (some l) rules r) := by
  rw [step_addListener_entry (withEntry_entry s l)]
  simp only [step, call, addListener_noEntry hl, HiSysEventManager.held, Function.update_self,
    withEntry, Function.update_idem]
  rfl

theorem Tracked.withEntry (h : s.Tracked) (l : ℓ) : (s.withEntry l).Tracked := by
  have hold : ∀ l' e, l' ≠ l → (s.withEntry l).manager.listenerToBaseMap l' = some e →
      s.manager.listenerToBaseMap l' = some e := fun l' e hl' he => by
    simpa [ManagerSession.withEntry, Function.update_of_ne hl'] using he
  have hnew : ∀ b', (s.withEntry l).manager.listenerToBaseMap l = some (some b') →
      b'.addr = s.manager.base.next := fun b' hb' => by
    rw [withEntry_entry] at hb'
    rw [← Option.some.inj (Option.some.inj hb'), newBaseListener]
  refine ⟨fun l' e he => ?_, fun l' b' hb' => ?_, fun l₁ l₂ b₁ b₂ h₁ h₂ haddr => ?_,
    fun l' b' cb hb' hcb => ?_⟩
  · by_cases hl' : l' = l
    · subst hl'
      rw [withEntry_entry] at he
      exact ⟨_, (Option.some.inj he).symm⟩
    · exact h.entry l' e (hold l' e hl' he)
  · have hnext : (s.withEntry l).manager.base.next = s.manager.base.next + 1 := rfl
    rw [hnext]
    by_cases hl' : l' = l
    · subst hl'
      rw [hnew b' hb']
      exact Nat.lt_succ_self _
    · exact Nat.lt_succ_of_lt (h.lt l' b' (hold l' _ hl' hb'))
  · by_cases hl₁ : l₁ = l <;> by_cases hl₂ : l₂ = l
    · rw [hl₁, hl₂]
    · rw [hl₁] at h₁
      have := h.lt l₂ b₂ (hold l₂ _ hl₂ h₂)
      rw [← haddr, hnew b₁ h₁] at this
      exact absurd this (lt_irrefl _)
    · rw [hl₂] at h₂
      have := h.lt l₁ b₁ (hold l₁ _ hl₁ h₁)
      rw [haddr, hnew b₂ h₂] at this
      exact absurd this (lt_irrefl _)
    · exact h.inj l₁ l₂ b₁ b₂ (hold l₁ _ hl₁ h₁) (hold l₂ _ hl₂ h₂) haddr
  · by_cases hl' : l' = l
    · subst hl'
      simp [ManagerSession.withEntry] at hcb
    · have hb' := hold l' _ hl' hb'
      have hne : b'.addr ≠ s.manager.base.next := (h.lt l' b' hb').ne
      have hcb : s.added l' = some cb := by
        simpa [ManagerSession.withEntry, Function.update_of_ne hl'] using hcb
      rw [← h.stub l' b' cb hb' hcb]
      simp [ListenerState.stub, ManagerSession.withEntry, newBaseListener,
        Function.update_of_ne hne]

theorem step_removeListener_entry (hb : s.manager.listenerToBaseMap l = some (some b))
    (r : ServiceResult) : s.step (.removeListener (some l) r) =
      ⟨⟨if (HiSysEventBaseManager.removeListener (some b) r s.manager.base).1 = ipcCallSucceed
          then Function.update s.manager.listenerToBaseMap l none
          else s.manager.listenerToBaseMap,
        (HiSysEventBaseManager.removeListener (some b) r s.manager.base).2⟩, s.added⟩ := by
  simp only [step, call, removeListener_entry hb]

/-- A `RemoveListener` that succeeds, or of a listener that is not added. -/
theorem Tracked.removed (h : s.Tracked) (hb : s.manager.listenerToBaseMap l = some (some b))
    {r : ServiceResult} (hr : s.added l ≠ none → r = .returns ipcCallSucceed) :
    (s.step (.removeListener (some l) r)).Tracked := by
  obtain ⟨hnext, -, hframe⟩ := removeListener_frame b s.manager.base r
  have hold : ∀ l' e, (s.step (.removeListener (some l) r)).manager.listenerToBaseMap l' =
      some e → s.manager.listenerToBaseMap l' = some e ∧ (s.added l ≠ none → l' ≠ l) := by
    intro l' e he
    rw [step_removeListener_entry hb] at he
    dsimp only at he
    split_ifs at he with hret
    · by_cases hl : l' = l
      · simp [hl] at he
      · exact ⟨by simpa [Function.update_of_ne hl] using he, fun _ => hl⟩
    · refine ⟨he, fun hadded => ?_⟩
      obtain ⟨cb, hcb⟩ := Option.ne_none_iff_exists'.1 hadded
      rw [hr hadded, removeListener_returns (h.stub l b cb hb hcb)] at hret
      exact absurd rfl hret
  have hadded : (s.step (.removeListener (some l) r)).added = s.added := rfl
  have hbase : (s.step (.removeListener (some l) r)).manager.base =
      (HiSysEventBaseManager.removeListener (some b) r s.manager.base).2 := by
    rw [step_removeListener_entry hb]
  refine ⟨fun l' e he => h.entry l' e (hold l' e he).1, fun l' b' hb' => ?_,
    fun l₁ l₂ b₁ b₂ h₁ h₂ => h.inj l₁ l₂ b₁ b₂ (hold _ _ h₁).1 (hold _ _ h₂).1,
    fun l' b' cb hb' hcb => ?_⟩
  · rw [hbase, hnext]
    exact h.lt l' b' (hold l' _ hb').1
  · rw [hadded] at hcb
    obtain ⟨hb', hl⟩ := hold l' _ hb'
    have hne : b'.addr ≠ b.addr := fun heq => by
      obtain rfl := h.inj l' l b' b hb' hb heq
      exact hl (by rw [hcb]; simp) rfl
    rw [hbase, ListenerState.stub, hframe _ hne]
    exact h.stub l' b' cb hb' hcb

theorem Tracked.step (h : s.Tracked) {c : ManagerCall ℓ} (hc : s.Orderly c) :
    (s.step c).Tracked := by
  cases c with
  | addListener listener rules r =>
    cases listener with
    | none => exact h
    | some l =>
      cases hl : s.manager.listenerToBaseMap l with
      | none =>
        rw [step_addListener_noEntry hl]
        exact (h.withEntry l).readded (withEntry_entry s l) rules r
      | some e =>
        obtain ⟨b, rfl⟩ := h.entry l e hl
        exact h.readded hl rules r
  | removeListener listener r =>
    cases listener with
    | none => exact h
    | some l =>
      obtain ⟨e, he⟩ := Option.ne_none_iff_exists'.1 hc.1
      obtain ⟨b, rfl⟩ := h.entry l e he
      exact h.removed he hc.2

/-- The delegate and the stub of a listener that was added and has an entry. -/
theorem Tracked.held (h : s.Tracked) {cb : HiSysEventListenerProxy ℓ} (hcb : s.added l = some cb)
    (hl : s.manager.listenerToBaseMap l ≠ none) : ∃ b d,
      s.manager.listenerToBaseMap l = some (some b) ∧ s.manager.held l = some d ∧
      s.manager.base.listenerProxy b.addr = some d ∧ d.spListenerCallBack = some cb := by
  obtain ⟨e, he⟩ := Option.ne_none_iff_exists'.1 hl
  obtain ⟨b, rfl⟩ := h.entry l e he
  obtain ⟨d, hd, hdcb⟩ := Option.bind_eq_some_iff.1 (h.stub l b cb he hcb)
  exact ⟨b, d, he, (held_of_entry he).trans hd, hd, hdcb⟩

/-- A failed call that changes neither the listeners nor what is held for those added. -/
theorem Tracked.keeps_of_eq (h : s.Tracked) {c : ManagerCall ℓ}
    (hmap : (s.call c).2.listenerToBaseMap = s.manager.listenerToBaseMap)
    (hproxy : ∀ l b cb, s.manager.listenerToBaseMap l = some (some b) → s.added l = some cb →
      (s.call c).2.base.listenerProxy b.addr = s.manager.base.listenerProxy b.addr)
    (hremove : ∀ l cb, c = .removeListener (some l) (.returns ipcCallSucceed) →
      s.added l ≠ some cb) : s.KeepsRegistration c where
  listeners _ l := by rw [hmap]
  delegates _ l cb hcb hl := by
    obtain ⟨b, d, hb, hheld, hd, hdcb⟩ := h.held hcb hl
    refine ⟨⟨d, hheld, hdcb⟩, ?_⟩
    rw [hheld, held_of_entry (hmap ▸ hb), hproxy l b cb hb hcb, hd]
  removes l cb hc hcb _ := absurd hcb (hremove l cb hc)

theorem Tracked.keeps_addListener (h : s.Tracked)
    (hb : s.manager.listenerToBaseMap l = some (some b)) (rules : List ListenerRule)
    (r : ServiceResult) : s.KeepsRegistration (.addListener (some l) rules r) := by
  obtain ⟨-, hframe⟩ := addListener_frame b rules s.manager.base r
  refine h.keeps_of_eq (by rw [call, addListener_entry hb]) ?_ (fun l' cb hc => by cases hc)
  intro l' b' cb hb' hcb
  rw [call, addListener_entry hb]
  by_cases haddr : b'.addr = b.addr
  · obtain rfl := h.inj l' l b' b hb' hb haddr
    obtain rfl : b = b' := by simpa [hb] using hb'
    obtain ⟨d, hd, hdcb⟩ := Option.bind_eq_some_iff.1 (h.stub l' b cb hb hcb)
    rw [hd]
    exact addListener_stub b rules s.manager.base hd hdcb r
  · exact hframe _ haddr

theorem Tracked.keeps_removeListener (h : s.Tracked)
    (hb : s.manager.listenerToBaseMap l = some (some b)) {r : ServiceResult}
    (hr : s.added l ≠ none → r = .returns ipcCallSucceed) :
    s.KeepsRegistration (.removeListener (some l) r) := by
  have hcall : s.call (.removeListener (some l) r) = s.manager.removeListener (some l) r := rfl
  cases hcb : s.added l with
  | some cb =>
    obtain rfl := hr (by simp [hcb])
    have hret := removeListener_returns (h.stub l b cb hb hcb) ipcCallSucceed
    rw [removeListener_entry hb, hret] at hcall
    refine ⟨fun hne => absurd (by rw [hcall]) hne, fun hne => absurd (by rw [hcall]) hne, ?_⟩
    rintro l' cb' hc hcb' -
    obtain rfl : l = l' := by simpa using hc
    obtain rfl : cb = cb' := by simpa [hcb] using hcb'
    rw [hcall]
    exact ⟨rfl, by simp, rfl⟩
  | none =>
    have hremove : ∀ l' cb, ManagerCall.removeListener (some l) r =
        .removeListener (some l') (.returns ipcCallSucceed) → s.added l' ≠ some cb := by
      rintro l' cb hc hcb'
      obtain rfl : l = l' := by simpa using (ManagerCall.removeListener.inj hc).1
      simp [hcb] at hcb'
    rw [removeListener_entry hb] at hcall
    by_cases hret : (HiSysEventBaseManager.removeListener (some b) r s.manager.base).1 =
        ipcCallSucceed
    · exact ⟨fun hne => absurd (by rw [hcall]; exact hret) hne,
        fun hne => absurd (by rw [hcall]; exact hret) hne,
        fun l' cb hc hcb' _ => absurd hcb' (hremove l' cb hc)⟩
    · obtain ⟨-, -, hframe⟩ := removeListener_frame b s.manager.base r
      refine h.keeps_of_eq (by rw [hcall]; exact if_neg hret) (fun l' b' cb hb' hcb' => ?_)
        hremove
      rw [hcall]
      refine hframe _ fun haddr => ?_
      obtain rfl := h.inj l' l b' b hb' hb haddr
      simp [hcb] at hcb'

theorem Tracked.orderly_of_keeps (h : s.Tracked) :
    ∀ {c : ManagerCall ℓ}, s.KeepsRegistration c → s.Orderly c
  | .addListener none _ _, _ => trivial
  | .removeListener none _, _ => trivial
  | .addListener (some l) rules r, hkeeps => by
    by_contra hc
    obtain ⟨hr, hl⟩ : r ≠ .returns ipcCallSucceed ∧ s.manager.listenerToBaseMap l = none := by
      simpa [Orderly] using hc
    have hcall := addListener_noEntry hl rules r
    have hnone := (hkeeps.listeners (by
      rw [call, hcall, addListener_fst]
      exact mt code_eq_succeed.1 hr) l).2 hl
    rw [call, hcall] at hnone
    simp at hnone
  | .removeListener (some l) r, hkeeps => by
    have hentry : s.manager.listenerToBaseMap l ≠ none := fun hl => by
      have hcall := removeListener_noEntry hl r
      have hret : errListenerNotExist ≠ ipcCallSucceed := by decide
      have hnone := (hkeeps.listeners (by rw [call, hcall]; exact hret) l).2 hl
      rw [call, hcall] at hnone
      simp at hnone
    refine ⟨hentry, fun hadded => ?_⟩
    obtain ⟨cb, hcb⟩ := Option.ne_none_iff_exists'.1 hadded
    obtain ⟨b, d, hb, hheld, hd, hdcb⟩ := h.held hcb hentry
    by_contra hr
    have hret : (HiSysEventBaseManager.removeListener (some b) r s.manager.base).1 ≠
        ipcCallSucceed := by
      rw [removeListener_fst (h.stub l b cb hb hcb)]
      exact mt code_eq_succeed.1 hr
    have hlost : (s.call (.removeListener (some l) r)).2.held l = none := by
      rw [call, removeListener_entry hb, held_of_entry (by simpa [hret] using hb)]
      exact (removeListener_frame b s.manager.base r).2.1
    have hkept := (hkeeps.delegates (by rw [call, removeListener_entry hb]; exact hret) l cb hcb
      hentry).2
    rw [hlost, hheld] at hkept
    exact absurd hkept (by simp)

/-- A call that succeeds and is not a `RemoveListener` is asked nothing. -/
theorem keeps_addListener_succeed {rules : List ListenerRule} {r : ServiceResult}
    (h : (s.call (.addListener (some l) rules r)).1 = ipcCallSucceed) :
    s.KeepsRegistration (.addListener (some l) rules r) :=
  ⟨fun hne => absurd h hne, fun hne => absurd h hne, fun _ _ hc => by cases hc⟩

theorem Tracked.keeps_iff (h : s.Tracked) (c : ManagerCall ℓ) :
    s.KeepsRegistration c ↔ s.Orderly c := by
  refine ⟨h.orderly_of_keeps, fun hc => ?_⟩
  cases c with
  | addListener listener rules r =>
    cases listener with
    | none => exact h.keeps_of_eq rfl (fun _ _ _ _ _ => rfl) (fun _ _ hc => by cases hc)
    | some l =>
      cases hl : s.manager.listenerToBaseMap l with
      | none =>
        obtain rfl | hentry := hc
        · refine keeps_addListener_succeed ?_
          rw [call, addListener_noEntry hl, addListener_fst]
          rfl
        · exact absurd hl hentry
      | some e =>
        obtain ⟨b, rfl⟩ := h.entry l e hl
        exact h.keeps_addListener hl rules r
  | removeListener listener r =>
    cases listener with
    | none => exact h.keeps_of_eq rfl (fun _ _ _ _ _ => rfl) (fun _ _ hc => by cases hc)
    | some l =>
      obtain ⟨e, he⟩ := Option.ne_none_iff_exists'.1 hc.1
      obtain ⟨b, rfl⟩ := h.entry l e he
      exact h.keeps_removeListener he hc.2

/-- In every run the calls keep the registration exactly if they are orderly. -/
theorem keepsRegistration_iff (calls : List (ManagerCall ℓ)) :
    Each step KeepsRegistration (.init : ManagerSession ℓ) calls ↔
      Each step Orderly (.init : ManagerSession ℓ) calls :=
  each_congr (fun _ c h => Tracked.keeps_iff h c) (fun _ _ h hc => h.step hc) calls
    tracked_init

/-- The second `RemoveListener` is answered with success, but does not reach the service. -/
theorem not_keepsRegistration :
    let calls : List (ManagerCall ℕ) := [.addListener (some 7) [] (.returns ipcCallSucceed),
      .removeListener (some 7) .notFound, .removeListener (some 7) (.returns ipcCallSucceed)]
    let s := exec step .init calls
    s.added 7 ≠ none ∧ s.manager.listenerToBaseMap 7 ≠ none ∧
      s.manager.base.service.requests.length = 1 ∧
      ¬Each step KeepsRegistration (.init : ManagerSession ℕ) calls := by
  refine ⟨by decide, by decide, by decide, fun h => ?_⟩
  have hret := (h.2.2.1.removes 7 ⟨3, 2, 0, 7⟩ rfl (by decide) (by decide)).1
  exact absurd hret (by decide)

end ManagerSession

end HiSysEvent
