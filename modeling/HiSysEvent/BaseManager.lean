import Mathlib.Logic.Function.Basic
import HiSysEvent.Def
import HiSysEvent.Run

/-!
# Base listeners and the service

`HiSysEventBaseManager` registers a base listener at the service. Its first `AddListener` makes
a delegate, which makes the callback stub once the service is found, and `RemoveListener` deletes
the delegate with its stub, whatever the service answers.

What a call to the service ends in is an input (`ServiceResult`). The service keeps the stubs
that are registered and the death recipients that are attached. No function attaches a
recipient, so the death of the service is reported to nobody (`reportsDeath_iff`).
-/

set_option linter.unusedSectionVars false

namespace HiSysEvent

/-! ## Return codes -/

abbrev ipcCallSucceed : ℤ := 0
abbrev errListenerNotExist : ℤ := -10
abbrev errSysEventServiceNotFound : ℤ := -11
abbrev errQueryRuleInvalid : ℤ := -23
abbrev errTooManyWatchRules : ℤ := -25
abbrev errInvalidRules : ℤ := -37

/-! ## Rules -/

/-- A rule of a listener. -/
structure ListenerRule where
  domain : Bytes
  eventName : Bytes
  tag : Bytes
  ruleType : UInt32
  eventType : UInt32
  deriving DecidableEq

/-- A rule as the service gets it. -/
structure SysEventRule where
  domain : Bytes
  eventName : Bytes
  tag : Bytes
  ruleType : UInt32
  eventType : UInt32
  deriving DecidableEq

/-- `ConvertListenerRule`. A tag replaces the domain and the name. -/
def convertListenerRule (rules : List ListenerRule) : List SysEventRule :=
  rules.map fun rule =>
    if rule.tag = [] then ⟨rule.domain, rule.eventName, [], rule.ruleType, rule.eventType⟩
    else ⟨[], [], rule.tag, rule.ruleType, rule.eventType⟩

/-! ## Objects -/

/-- A base listener by its address, with the listener it delivers to. -/
structure HiSysEventBaseListener (ℓ : Type) where
  addr : ℕ
  listener : ℓ
  deriving DecidableEq

/-- The recipient of the service's death, which knows its listener. -/
structure CallbackDeathRecipient (ℓ : Type) where
  addr : ℕ
  eventListener : HiSysEventBaseListener ℓ
  deriving DecidableEq

/-- A callback stub by its address. -/
structure HiSysEventListenerProxy (ℓ : Type) where
  addr : ℕ
  callbackDeathRecipient : CallbackDeathRecipient ℓ
  deriving DecidableEq

/-- The listener the stub delivers to. -/
def HiSysEventListenerProxy.getEventListener {ℓ : Type} (cb : HiSysEventListenerProxy ℓ) :
    HiSysEventBaseListener ℓ :=
  cb.callbackDeathRecipient.eventListener

/-- A delegate, with the stub it has registered. -/
structure HiSysEventDelegate (ℓ : Type) where
  addr : ℕ
  spListenerCallBack : Option (HiSysEventListenerProxy ℓ)
  deriving DecidableEq

/-! ## The service -/

/-- What the calls of one operation to the service end in. -/
inductive ServiceResult
  | notFound
  | returns (ret : ℤ)
  deriving DecidableEq

/-- A remote call that reached the service. -/
inductive Request (ℓ : Type)
  | addListener (rules : List SysEventRule) (cb : HiSysEventListenerProxy ℓ)
  | removeListener (cb : HiSysEventListenerProxy ℓ)
  deriving DecidableEq

/-- The registered stubs, the attached death recipients and the calls that reached the service. -/
structure SysEventService (ℓ : Type) where
  callbacks : List (HiSysEventListenerProxy ℓ) := []
  deathRecipients : List (CallbackDeathRecipient ℓ) := []
  requests : List (Request ℓ) := []

variable {ℓ : Type} [DecidableEq ℓ]

namespace SysEventService

/-- `RemoveDeathRecipient` of the remote object. -/
def removeDeathRecipient (recipient : CallbackDeathRecipient ℓ) (service : SysEventService ℓ) :
    SysEventService ℓ :=
  { service with deathRecipients := service.deathRecipients.filter (· ≠ recipient) }

/-- `SysEventServiceProxy::AddListener`. The service registers the stub if it succeeds. -/
def addListener (rules : List SysEventRule) (cb : HiSysEventListenerProxy ℓ) (ret : ℤ)
    (service : SysEventService ℓ) : SysEventService ℓ :=
  { service with
    callbacks := if ret = ipcCallSucceed then service.callbacks.insert cb else service.callbacks
    requests := service.requests ++ [.addListener rules cb] }

/-- `SysEventServiceProxy::RemoveListener`. -/
def removeListener (cb : HiSysEventListenerProxy ℓ) (ret : ℤ) (service : SysEventService ℓ) :
    SysEventService ℓ :=
  { service with
    callbacks := if ret = ipcCallSucceed then service.callbacks.filter (· ≠ cb)
      else service.callbacks
    requests := service.requests ++ [.removeListener cb] }

@[simp] theorem callbacks_addListener (rules : List SysEventRule)
    (cb : HiSysEventListenerProxy ℓ) (ret : ℤ) (service : SysEventService ℓ) :
    (service.addListener rules cb ret).callbacks =
      if ret = ipcCallSucceed then service.callbacks.insert cb else service.callbacks :=
  rfl

@[simp] theorem callbacks_removeListener (cb : HiSysEventListenerProxy ℓ) (ret : ℤ)
    (service : SysEventService ℓ) : (service.removeListener cb ret).callbacks =
      if ret = ipcCallSucceed then service.callbacks.filter (· ≠ cb) else service.callbacks :=
  rfl

@[simp] theorem callbacks_removeDeathRecipient (recipient : CallbackDeathRecipient ℓ)
    (service : SysEventService ℓ) :
    (service.removeDeathRecipient recipient).callbacks = service.callbacks :=
  rfl

/-- The base listeners whose `OnServiceDied` runs when the service dies, by `OnRemoteDied` of
each attached recipient. -/
def onServiceDied (service : SysEventService ℓ) : List (HiSysEventBaseListener ℓ) :=
  service.deathRecipients.map CallbackDeathRecipient.eventListener

end SysEventService

/-! ## The state -/

/-- The next free address, the `listenerProxy` of the base listener at each address, and the
service. -/
structure ListenerState (ℓ : Type) where
  next : ℕ
  listenerProxy : ℕ → Option (HiSysEventDelegate ℓ)
  service : SysEventService ℓ

namespace ListenerState

/-- Nothing was added yet. -/
def init : ListenerState ℓ :=
  ⟨0, fun _ => none, {}⟩

/-- `std::make_shared<HiSysEventBaseListener>(listener)`. -/
def newBaseListener (listener : ℓ) (s : ListenerState ℓ) :
    HiSysEventBaseListener ℓ × ListenerState ℓ :=
  (⟨s.next, listener⟩, { s with
    next := s.next + 1
    listenerProxy := Function.update s.listenerProxy s.next none })

/-- A new delegate without a stub. -/
def newDelegate (s : ListenerState ℓ) : HiSysEventDelegate ℓ × ListenerState ℓ :=
  (⟨s.next, none⟩, { s with next := s.next + 1 })

/-- The stub is made with its death recipient. -/
def newListenerProxy (listener : HiSysEventBaseListener ℓ) (s : ListenerState ℓ) :
    HiSysEventListenerProxy ℓ × ListenerState ℓ :=
  (⟨s.next + 1, ⟨s.next, listener⟩⟩, { s with next := s.next + 2 })

/-- Put a delegate into the listener, or take it out. -/
def setProxy (b : HiSysEventBaseListener ℓ) (d : Option (HiSysEventDelegate ℓ))
    (s : ListenerState ℓ) : ListenerState ℓ :=
  { s with listenerProxy := Function.update s.listenerProxy b.addr d }

end ListenerState

open ListenerState

/-! ## The delegate -/

namespace HiSysEventDelegate

/-- `AddListener` of the delegate. -/
def addListener (d : HiSysEventDelegate ℓ) (listener : HiSysEventBaseListener ℓ)
    (rules : List ListenerRule) (r : ServiceResult) (s : ListenerState ℓ) :
    ℤ × HiSysEventDelegate ℓ × ListenerState ℓ :=
  match r with
  | .notFound => (errSysEventServiceNotFound, d, s)
  | .returns ret =>
    let eventRules := convertListenerRule rules
    let (cb, s) := match d.spListenerCallBack with
      | some cb => (cb, s)
      | none => s.newListenerProxy listener
    let service := s.service.removeDeathRecipient cb.callbackDeathRecipient
    (ret, { d with spListenerCallBack := some cb },
      { s with service := service.addListener eventRules cb ret })

/-- `RemoveListener` of the delegate. -/
def removeListener (d : HiSysEventDelegate ℓ) (r : ServiceResult) (s : ListenerState ℓ) :
    ℤ × ListenerState ℓ :=
  match d.spListenerCallBack with
  | none => (errListenerNotExist, s)
  | some cb =>
    match r with
    | .notFound => (errSysEventServiceNotFound, s)
    | .returns ret => (ret, { s with service := s.service.removeListener cb ret })

end HiSysEventDelegate

/-! ## The base manager -/

namespace HiSysEventBaseManager

/-- `HiSysEventBaseManager::AddListener`. -/
def addListener (listener : Option (HiSysEventBaseListener ℓ)) (rules : List ListenerRule)
    (r : ServiceResult) (s : ListenerState ℓ) : ℤ × ListenerState ℓ :=
  match listener with
  | none => (errListenerNotExist, s)
  | some b =>
    let (d, s) := match s.listenerProxy b.addr with
      | some d => (d, s)
      | none => s.newDelegate
    let (ret, d, s) := d.addListener b rules r s
    (ret, s.setProxy b (some d))

/-- The delegate is deleted whatever it returns. -/
def removeListener (listener : Option (HiSysEventBaseListener ℓ)) (r : ServiceResult)
    (s : ListenerState ℓ) : ℤ × ListenerState ℓ :=
  match listener with
  | none => (errListenerNotExist, s)
  | some b =>
    match s.listenerProxy b.addr with
    | none => (errListenerNotExist, s)
    | some d =>
      let (ret, s) := d.removeListener r s
      (ret, s.setProxy b none)

end HiSysEventBaseManager

/-! ## What the operations do -/

namespace ListenerState

/-- The stub held for a base listener. -/
def stub (s : ListenerState ℓ) (b : HiSysEventBaseListener ℓ) :
    Option (HiSysEventListenerProxy ℓ) :=
  (s.listenerProxy b.addr).bind HiSysEventDelegate.spListenerCallBack

theorem stub_congr {s s' : ListenerState ℓ} {b : HiSysEventBaseListener ℓ}
    (h : s'.listenerProxy b.addr = s.listenerProxy b.addr) : s'.stub b = s.stub b := by
  rw [stub, stub, h]

end ListenerState

open HiSysEventBaseManager

variable (b : HiSysEventBaseListener ℓ) (rules : List ListenerRule) (s : ListenerState ℓ)

/-- Without the service a delegate is made, if there is none. -/
theorem addListener_notFound : ∃ d n, s.next ≤ n ∧
    addListener (some b) rules .notFound s = (errSysEventServiceNotFound,
      ⟨n, Function.update s.listenerProxy b.addr (some d), s.service⟩) ∧
    (s.listenerProxy b.addr = some d ∨
      s.listenerProxy b.addr = none ∧ d.spListenerCallBack = none) := by
  cases hd : s.listenerProxy b.addr with
  | some d => exact ⟨d, s.next, le_rfl, by simp [addListener, hd, HiSysEventDelegate.addListener,
      setProxy], Or.inl rfl⟩
  | none => exact ⟨⟨s.next, none⟩, s.next + 1, Nat.le_succ _, by simp [addListener, hd, newDelegate,
      HiSysEventDelegate.addListener, setProxy], Or.inr ⟨rfl, rfl⟩⟩

/-- The service is asked to register the stub that is held, or a new one. -/
theorem addListener_returns (ret : ℤ) : ∃ d cb n, s.next ≤ n ∧
    addListener (some b) rules (.returns ret) s = (ret,
      ⟨n, Function.update s.listenerProxy b.addr (some d),
        (s.service.removeDeathRecipient cb.callbackDeathRecipient).addListener
          (convertListenerRule rules) cb ret⟩) ∧
    d.spListenerCallBack = some cb ∧
    (s.listenerProxy b.addr = some d ∨
      s.stub b = none ∧ cb.getEventListener = b ∧ s.next ≤ cb.addr ∧ cb.addr < n) := by
  cases hd : s.listenerProxy b.addr with
  | some d =>
    obtain ⟨addr, cb⟩ := d
    cases cb with
    | some cb => exact ⟨⟨addr, some cb⟩, cb, s.next, le_rfl, by simp [addListener, hd,
        HiSysEventDelegate.addListener, setProxy], rfl, Or.inl rfl⟩
    | none => exact ⟨⟨addr, some ⟨s.next + 1, s.next, b⟩⟩, _, s.next + 2, by omega, by
        simp [addListener, hd, HiSysEventDelegate.addListener, setProxy, newListenerProxy],
        rfl, Or.inr ⟨by simp [stub, hd], rfl, by simp, by simp⟩⟩
  | none => exact ⟨⟨s.next, some ⟨s.next + 2, s.next + 1, b⟩⟩, _, s.next + 3, by omega, by
      simp [addListener, hd, HiSysEventDelegate.addListener, setProxy, newDelegate,
        newListenerProxy], rfl, Or.inr ⟨by simp [stub, hd], rfl, by simp, by simp⟩⟩

/-- Without a stub nothing reaches the service. -/
theorem removeListener_noStub (r : ServiceResult) (h : s.stub b = none) :
    removeListener (some b) r s = (errListenerNotExist, s.setProxy b none) := by
  cases hd : s.listenerProxy b.addr with
  | none =>
    simp only [removeListener, hd]
    rw [setProxy, ← hd, Function.update_eq_self]
  | some d =>
    have hcb : d.spListenerCallBack = none := by simpa [stub, hd] using h
    simp [removeListener, hd, HiSysEventDelegate.removeListener, hcb]

variable {b s}

/-- The stub is lost with the delegate. -/
theorem removeListener_notFound {cb : HiSysEventListenerProxy ℓ} (h : s.stub b = some cb) :
    removeListener (some b) .notFound s = (errSysEventServiceNotFound, s.setProxy b none) := by
  obtain ⟨d, hd, hcb⟩ := Option.bind_eq_some_iff.1 h
  simp [removeListener, hd, HiSysEventDelegate.removeListener, hcb]

/-- The service is asked to remove the stub that is held, which is lost then. -/
theorem removeListener_returns {cb : HiSysEventListenerProxy ℓ} (h : s.stub b = some cb)
    (ret : ℤ) : removeListener (some b) (.returns ret) s =
      (ret, { s with service := s.service.removeListener cb ret }.setProxy b none) := by
  obtain ⟨d, hd, hcb⟩ := Option.bind_eq_some_iff.1 h
  simp [removeListener, hd, HiSysEventDelegate.removeListener, hcb]

/-! ## What the operations keep -/

variable (b s)

/-- The base listeners at other addresses are as they were. -/
theorem addListener_frame (r : ServiceResult) :
    s.next ≤ (addListener (some b) rules r s).2.next ∧ ∀ a, a ≠ b.addr →
      (addListener (some b) rules r s).2.listenerProxy a = s.listenerProxy a := by
  cases r with
  | notFound =>
    obtain ⟨d, n, hn, hadd, -⟩ := addListener_notFound b rules s
    rw [hadd]
    exact ⟨hn, fun a ha => Function.update_of_ne ha _ _⟩
  | returns ret =>
    obtain ⟨d, cb, n, hn, hadd, -⟩ := addListener_returns b rules s ret
    rw [hadd]
    exact ⟨hn, fun a ha => Function.update_of_ne ha _ _⟩

/-- What an operation returns that asks the service. -/
def ServiceResult.code : ServiceResult → ℤ
  | .notFound => errSysEventServiceNotFound
  | .returns ret => ret

theorem code_eq_succeed {r : ServiceResult} :
    r.code = ipcCallSucceed ↔ r = .returns ipcCallSucceed := by
  cases r with
  | notFound => exact iff_of_false (by decide) (by simp)
  | returns ret => simp [ServiceResult.code]

theorem addListener_fst (r : ServiceResult) : (addListener (some b) rules r s).1 = r.code := by
  cases r with
  | notFound =>
    obtain ⟨d, n, -, hadd, -⟩ := addListener_notFound b rules s
    rw [hadd]
    rfl
  | returns ret =>
    obtain ⟨d, cb, n, -, hadd, -⟩ := addListener_returns b rules s ret
    rw [hadd]
    rfl

/-- A delegate with a stub stays. -/
theorem addListener_stub {d : HiSysEventDelegate ℓ} {cb : HiSysEventListenerProxy ℓ}
    (hd : s.listenerProxy b.addr = some d) (hcb : d.spListenerCallBack = some cb)
    (r : ServiceResult) :
    (addListener (some b) rules r s).2.listenerProxy b.addr = some d := by
  cases r with
  | notFound =>
    obtain ⟨d', n, -, hadd, hd' | ⟨hnone, -⟩⟩ := addListener_notFound b rules s
    · rw [hadd, ← hd, hd']
      exact Function.update_self _ _ _
    · exact absurd (hd.symm.trans hnone) (by simp)
  | returns ret =>
    obtain ⟨d', cb', n, -, hadd, -, hd' | ⟨hnone, -⟩⟩ := addListener_returns b rules s ret
    · rw [hadd, ← hd, hd']
      exact Function.update_self _ _ _
    · exact absurd hnone (by simp [stub, hd, hcb])

variable {b s} in
theorem removeListener_fst {cb : HiSysEventListenerProxy ℓ} (h : s.stub b = some cb)
    (r : ServiceResult) : (removeListener (some b) r s).1 = r.code := by
  cases r with
  | notFound => rw [removeListener_notFound h]; rfl
  | returns ret => rw [removeListener_returns h]; rfl

/-- Only the delegate of the base listener and the service change. -/
theorem removeListener_eq (r : ServiceResult) : ∃ service, (removeListener (some b) r s).2 =
    { s with service := service }.setProxy b none := by
  cases hcb : s.stub b with
  | none => exact ⟨_, by rw [removeListener_noStub b s r hcb]⟩
  | some cb =>
    cases r with
    | notFound => exact ⟨_, by rw [removeListener_notFound hcb]⟩
    | returns ret => exact ⟨_, by rw [removeListener_returns hcb]⟩

theorem removeListener_frame (r : ServiceResult) :
    (removeListener (some b) r s).2.next = s.next ∧
      (removeListener (some b) r s).2.listenerProxy b.addr = none ∧ ∀ a, a ≠ b.addr →
        (removeListener (some b) r s).2.listenerProxy a = s.listenerProxy a := by
  obtain ⟨service, heq⟩ := removeListener_eq b s r
  rw [heq]
  exact ⟨rfl, Function.update_self _ _ _, fun a ha => Function.update_of_ne ha _ _⟩

/-! ## The death of the service -/

/-- A call of the base manager, with what the service answers. -/
inductive BaseCall (ℓ : Type)
  | addListener (listener : Option (HiSysEventBaseListener ℓ)) (rules : List ListenerRule)
    (r : ServiceResult)
  | removeListener (listener : Option (HiSysEventBaseListener ℓ)) (r : ServiceResult)

/-- The state, and the listeners whose last successful operation is `AddListener`. -/
structure BaseSession (ℓ : Type) where
  state : ListenerState ℓ
  active : HiSysEventBaseListener ℓ → Bool

namespace BaseSession

/-- Nothing is registered and no listener is active. -/
def init : BaseSession ℓ :=
  ⟨.init, fun _ => false⟩

/-- A call, after which a listener is active if it was added and not removed since. -/
def step (s : BaseSession ℓ) : BaseCall ℓ → BaseSession ℓ
  | .addListener listener rules r =>
    let (ret, state) := HiSysEventBaseManager.addListener listener rules r s.state
    ⟨state, fun b => if ret = ipcCallSucceed ∧ listener = some b then true else s.active b⟩
  | .removeListener listener r =>
    let (ret, state) := HiSysEventBaseManager.removeListener listener r s.state
    ⟨state, fun b => if ret = ipcCallSucceed ∧ listener = some b then false else s.active b⟩

/-- The recipients attached are those of the active listeners, each once, and so the death of
the service is reported to each of these once and to no other. -/
structure ReportsDeath (s : BaseSession ℓ) : Prop where
  attached : ∀ b, (s.state.service.deathRecipients.filter (·.eventListener = b)).length =
    (s.active b).toNat
  reported : ∀ b, s.state.service.onServiceDied.count b = (s.active b).toNat

end BaseSession

/-- No operation attaches a recipient. -/
theorem deathRecipients_step {s : BaseSession ℓ} (h : s.state.service.deathRecipients = [])
    (call : BaseCall ℓ) : (s.step call).state.service.deathRecipients = [] := by
  cases call with
  | addListener listener rules r =>
    cases listener with
    | none => exact h
    | some b =>
      cases r with
      | notFound =>
        obtain ⟨d, n, -, hadd, -⟩ := addListener_notFound b rules s.state
        simpa [BaseSession.step, hadd] using h
      | returns ret =>
        obtain ⟨d, cb, n, -, hadd, -⟩ := addListener_returns b rules s.state ret
        simp [BaseSession.step, hadd, SysEventService.addListener,
          SysEventService.removeDeathRecipient, h]
  | removeListener listener r =>
    cases listener with
    | none => exact h
    | some b =>
      cases hcb : s.state.stub b with
      | none => simpa [BaseSession.step, removeListener_noStub b s.state r hcb, setProxy] using h
      | some cb =>
        cases r with
        | notFound => simpa [BaseSession.step, removeListener_notFound hcb, setProxy] using h
        | returns ret =>
          simpa [BaseSession.step, removeListener_returns hcb, setProxy,
            SysEventService.removeListener] using h

theorem deathRecipients_exec (calls : List (BaseCall ℓ)) {s : BaseSession ℓ}
    (h : s.state.service.deathRecipients = []) :
    (Run.exec BaseSession.step s calls).state.service.deathRecipients = [] :=
  Run.exec_of_invariant (I := fun s : BaseSession ℓ => s.state.service.deathRecipients = [])
    (fun _ call hs => deathRecipients_step hs call) calls h

/-- After any run the death of the service is reported as it should be exactly if no listener
is active. -/
theorem reportsDeath_iff (calls : List (BaseCall ℓ)) :
    (Run.exec BaseSession.step .init calls).ReportsDeath ↔
      ∀ b, (Run.exec BaseSession.step .init calls).active b = false := by
  have h := deathRecipients_exec calls (s := (.init : BaseSession ℓ)) rfl
  constructor
  · intro hreports b
    have hb := hreports.attached b
    rw [h] at hb
    exact Bool.toNat_eq_zero.1 hb.symm
  · intro hactive
    constructor
    · intro b
      rw [h, hactive b]
      rfl
    · intro b
      rw [SysEventService.onServiceDied, h, hactive b]
      rfl

/-- A listener that was added is not told that the service died. -/
theorem not_reportsDeath :
    let b : HiSysEventBaseListener ℕ := ⟨0, 7⟩
    let s := Run.exec BaseSession.step .init [.addListener (some b) [] (.returns ipcCallSucceed)]
    s.active b = true ∧ s.state.service.onServiceDied = [] ∧ ¬s.ReportsDeath := by
  refine ⟨by decide, by decide, fun h => ?_⟩
  exact absurd (h.reported ⟨0, 7⟩) (by decide)

end HiSysEvent
