import HiSysEvent.ManagerC
import HiSysEvent.RustQuerier

/-!
# Watchers from Rust

An addition makes a handle of the watcher and a new base listener with it. The base listener lives
as long as the map `g_baseWatchers`, its own delegate or a stub at the service holds it, and the
handle as long as the base listener or the map `g_watchers` does.

In runs that add a watcher only once its handle before is destroyed, and that find the service
for it, every watcher is intact at every step (`RustWatchers.intact_run`).
-/

namespace HiSysEvent

open Run RustHeap ListenerState

/-- The memory, the maps `g_baseWatchers` (in `registry`, with what is registered) and `g_watchers`,
the base listeners that are not destroyed, the stubs that the service refers to, and the
watchers Rust uses. -/
structure RustWatchers where
  heap : RustHeap
  registry : WatcherRegistry RustHandle (ℕ × ℕ)
  watchers : ℕ × ℕ → Option RustHandle
  bases : List (HiSysEventBaseListener RustHandle)
  remote : List (HiSysEventListenerProxy RustHandle)
  owned : List RustObject

namespace RustWatchers

/-- Nothing created and nothing registered. -/
def init : RustWatchers :=
  ⟨.init, .init, fun _ => none, [], [], []⟩

/-- Somebody holds the handle, which is only ever put under the callbacks of its object. -/
def holds (s : RustWatchers) (x : RustHandle) : Prop :=
  s.watchers x.object.callbacks = some x ∨ x ∈ s.bases.map HiSysEventBaseListener.listener

/-- Somebody holds the base listener. Its delegate does so by the stub. -/
def holdsBase (s : RustWatchers) (b : HiSysEventBaseListener RustHandle) : Prop :=
  s.registry.watchers b.listener.object.callbacks = some b ∨ s.registry.base.stub b ≠ none ∨
    b ∈ s.remote.map HiSysEventListenerProxy.getEventListener

instance (s : RustWatchers) (x : RustHandle) : Decidable (s.holds x) :=
  inferInstanceAs (Decidable (_ ∨ _))

instance (s : RustWatchers) (b : HiSysEventBaseListener RustHandle) : Decidable (s.holdsBase b) :=
  inferInstanceAs (Decidable (_ ∨ _ ∨ _))

/-- A reference to the handle is dropped. -/
def releaseListener (x : RustHandle) (s : RustWatchers) : RustWatchers :=
  if s.holds x then s else { s with heap := s.heap.destroy x }

/-- A reference to the base listener is dropped, which drops its own one when it is destroyed. -/
def releaseBase (b : HiSysEventBaseListener RustHandle) (s : RustWatchers) : RustWatchers :=
  if s.holdsBase b then s
  else releaseListener b.listener { s with bases := s.bases.filter (· ≠ b) }

/-- The stub of a new base listener goes to the service. -/
def sent (stub : Option (HiSysEventListenerProxy RustHandle)) (s : RustWatchers) : RustWatchers :=
  match stub with
  | none => s
  | some cb => { s with remote := cb :: s.remote }

/-- What `g_baseWatchers` held under the callbacks before is dropped. -/
def dropBase (old : Option (HiSysEventBaseListener RustHandle)) (s : RustWatchers) :
    RustWatchers :=
  match old with
  | none => s
  | some b => s.releaseBase b

/-- `g_watchers[key] = x`. -/
def setWatcher (key : ℕ × ℕ) (x : RustHandle) (s : RustWatchers) : RustWatchers :=
  let kept := { s with watchers := Function.update s.watchers key (some x) }
  match s.watchers key with
  | none => kept
  | some old => kept.releaseListener old

/-- `HiSysEventAddWatcher` of the Rust manager. -/
def hiSysEventAddWatcher (watcher : Option RustObject) (rules : ℕ → HiSysEventWatchRule)
    (ruleSize : ℕ) (r : ServiceResult) (s : RustWatchers) : ℤ × RustWatchers :=
  match watcher with
  | none => (errListenerNotExist, s)
  | some w =>
    let s := { s with heap := s.heap.touch w }
    if s.heap.status w ≠ some .normal then (errListenerNotExist, s)
    else
      let (listenerRust, heap) := s.heap.newHandle w
      let baseListenerRust : HiSysEventBaseListener RustHandle :=
        ⟨s.registry.base.next, listenerRust⟩
      let (ret, registry) := s.registry.add w.callbacks listenerRust
        (listenerRules rules ruleSize) r
      let added := sent (registry.base.stub baseListenerRust) { s with
        heap := heap
        registry := registry
        bases := baseListenerRust :: s.bases }
      if ret ≠ ipcCallSucceed then (ret, added.releaseBase baseListenerRust)
      else (ret, setWatcher w.callbacks listenerRust
        (added.dropBase (s.registry.watchers w.callbacks)))

/-- `HiSysEventRemoveWatcher` of the Rust manager. -/
def hiSysEventRemoveWatcher (watcher : Option RustObject) (r : ServiceResult)
    (s : RustWatchers) : ℤ × RustWatchers :=
  match watcher with
  | none => (errListenerNotExist, s)
  | some w =>
    let s := { s with heap := s.heap.touch w }
    if s.heap.status w ≠ some .normal then (errListenerNotExist, s)
    else
      match s.registry.watchers w.callbacks with
      | none => (errListenerNotExist, s)
      | some callbackPtr =>
        let (ret, registry) := s.registry.remove w.callbacks r
        (ret, releaseBase callbackPtr { s with registry := registry })

/-- `HiSysEventRecycleWatcher`. -/
def hiSysEventRecycleWatcher (watcher : Option RustObject) (s : RustWatchers) : RustWatchers :=
  match watcher with
  | none => s
  | some w =>
    let s := { s with heap := s.heap.touch w }
    match s.watchers w.callbacks with
    | none => s
    | some callbackPtr =>
      let s := { s with heap := s.heap.recycle (some w) }
      let s := { s with watchers := Function.update s.watchers w.callbacks none }
      s.releaseListener callbackPtr

end RustWatchers

/-! ## Steps -/

/-- What happens to watchers : Rust creates, adds, removes and recycles them, and the service
delivers events to the stubs and drops these. -/
inductive RustWatcherStep
  | create (onEventRustCb onEventWrapperCb onServiceDiedRustCb onServiceDiedWrapperCb : Option ℕ)
    (granted : Bool)
  | add (watcher : RustObject) (rules : ℕ → HiSysEventWatchRule) (ruleSize : ℕ) (r : ServiceResult)
  | remove (watcher : RustObject) (r : ServiceResult)
  | recycle (watcher : RustObject)
  | deliver (cb : HiSysEventListenerProxy RustHandle)
  | drop (cb : HiSysEventListenerProxy RustHandle)

namespace RustWatchers

/-- One call of the program. -/
def step (s : RustWatchers) : RustWatcherStep → RustWatchers
  | .create cb wrapper cb' wrapper' granted =>
    match s.heap.createObject cb wrapper cb' wrapper' granted with
    | (none, heap) => { s with heap := heap }
    | (some w, heap) => { s with heap := heap, owned := w :: s.owned }
  | .add w rules ruleSize r => (s.hiSysEventAddWatcher (some w) rules ruleSize r).2
  | .remove w r => (s.hiSysEventRemoveWatcher (some w) r).2
  | .recycle w => { s.hiSysEventRecycleWatcher (some w) with owned := s.owned.filter (· ≠ w) }
  | .deliver cb => { s with heap := s.heap.touch cb.getEventListener.listener.object }
  | .drop cb => releaseBase cb.getEventListener { s with remote := s.remote.filter (· ≠ cb) }

/-- The order that Rust and the service keep to. -/
def Allowed (s : RustWatchers) : RustWatcherStep → Prop
  | .create .. => True
  | .add w _ _ _ => w ∈ s.owned
  | .remove w _ => w ∈ s.owned
  | .recycle w => w ∈ s.owned
  | .deliver cb => cb ∈ s.remote
  | .drop cb => cb ∈ s.remote

instance (s : RustWatchers) : DecidablePred s.Allowed
  | .create .. => inferInstanceAs (Decidable True)
  | .add .. | .remove .. | .recycle _ | .deliver _ | .drop _ => inferInstanceAs (Decidable (_ ∈ _))

/-- A watcher is added that was not given up and has no handle yet, and the service is found. -/
def Single (s : RustWatchers) : RustWatcherStep → Prop
  | .add w _ _ r => s.heap.status w = some .normal ∧ (∀ x ∈ s.heap.handles, x.object ≠ w) ∧
      r ≠ .notFound
  | _ => True

/-- After the step no object that somebody refers to is deleted, no deleted object was touched
or deleted again, and a failed addition has left its watcher as usable as before. -/
structure Intact (s : RustWatchers) (a : RustWatcherStep) : Prop where
  noFault : (s.step a).heap.fault = false
  owned : ∀ w ∈ (s.step a).owned, (s.step a).heap.status w ≠ none
  handles : ∀ x ∈ (s.step a).heap.handles, (s.step a).heap.status x.object ≠ none
  usable : ∀ w rules ruleSize r, a = .add w rules ruleSize r →
    (s.hiSysEventAddWatcher (some w) rules ruleSize r).1 ≠ ipcCallSucceed →
      (s.step a).heap.status w = some .normal

/-! ## The invariant -/

/-- The memory is sane, and who holds a handle or a base listener holds one that is not
destroyed. -/
structure Held (s : RustWatchers) : Prop where
  sane : s.heap.Sane s.owned
  mapped : ∀ key x, s.watchers key = some x → x ∈ s.heap.handles ∧ x.object.callbacks = key
  listener : ∀ b ∈ s.bases, b.listener ∈ s.heap.handles
  registered : ∀ key b, s.registry.watchers key = some b →
    b ∈ s.bases ∧ b.listener.object.callbacks = key
  remote : ∀ cb ∈ s.remote, cb.getEventListener ∈ s.bases

theorem held_init : init.Held where
  sane := sane_init
  mapped key x h := absurd h (by simp [init])
  listener b h := absurd h List.not_mem_nil
  registered key b h := absurd h (by simp [init, WatcherRegistry.init])
  remote cb h := absurd h List.not_mem_nil

variable {s : RustWatchers}

theorem Held.releaseListener (h : s.Held) {x : RustHandle} (hx : x ∈ s.heap.handles) :
    (s.releaseListener x).Held := by
  rw [RustWatchers.releaseListener]
  split
  case isTrue => exact h
  case isFalse hfree =>
    refine ⟨h.sane.destroy hx, fun key y hy => ?_, fun b hb => ?_, h.registered, h.remote⟩
    · obtain ⟨hmem, hkey⟩ := h.mapped key y hy
      refine ⟨mem_handles_destroy hmem ?_, hkey⟩
      rintro rfl
      exact hfree (Or.inl (by rw [hkey, hy]))
    · refine mem_handles_destroy (h.listener b hb) ?_
      rintro rfl
      exact hfree (Or.inr (List.mem_map_of_mem hb))

theorem Held.releaseBase (h : s.Held) {b : HiSysEventBaseListener RustHandle} (hb : b ∈ s.bases) :
    (s.releaseBase b).Held := by
  rw [RustWatchers.releaseBase]
  split
  case isTrue => exact h
  case isFalse hfree =>
    have hrest : ∀ b' ∈ s.bases, b' ≠ b → b' ∈ s.bases.filter (· ≠ b) :=
      fun b' hb' hne => List.mem_filter.2 ⟨hb', by simpa using hne⟩
    have hheld : RustWatchers.Held { s with bases := s.bases.filter (· ≠ b) } := by
      refine ⟨h.sane, h.mapped, fun b' hb' => h.listener b' (List.mem_filter.1 hb').1,
        fun key b' hb' => ?_, fun cb hcb => ?_⟩
      · obtain ⟨hmem, hkey⟩ := h.registered key b' hb'
        refine ⟨hrest b' hmem ?_, hkey⟩
        rintro rfl
        exact hfree (Or.inl (by rw [hkey, hb']))
      · refine hrest _ (h.remote cb hcb) ?_
        rintro rfl
        exact hfree (Or.inr (Or.inr (List.mem_map_of_mem hcb)))
    exact hheld.releaseListener (h.listener b hb)

/-! ## What a release leaves -/

@[simp] theorem registry_releaseListener (x : RustHandle) (s : RustWatchers) :
    (s.releaseListener x).registry = s.registry := by
  rw [RustWatchers.releaseListener]
  split <;> rfl

@[simp] theorem watchers_releaseListener (x : RustHandle) (s : RustWatchers) :
    (s.releaseListener x).watchers = s.watchers := by
  rw [RustWatchers.releaseListener]
  split <;> rfl

@[simp] theorem registry_releaseBase (b : HiSysEventBaseListener RustHandle) (s : RustWatchers) :
    (s.releaseBase b).registry = s.registry := by
  rw [RustWatchers.releaseBase]
  split
  · rfl
  · exact registry_releaseListener _ _

theorem releaseListener_owned (x : RustHandle) (s : RustWatchers) (owned : List RustObject) :
    { s.releaseListener x with owned := owned } =
      RustWatchers.releaseListener x { s with owned := owned } := by
  have hholds : RustWatchers.holds { s with owned := owned } x ↔ s.holds x := Iff.rfl
  simp only [RustWatchers.releaseListener, hholds]
  split <;> rfl

/-! ## An addition -/

section Add

variable {w : RustObject} {rules : ℕ → HiSysEventWatchRule} {ruleSize : ℕ} {r : ServiceResult}

/-- The base listener of an addition. -/
def newBase (s : RustWatchers) (w : RustObject) : HiSysEventBaseListener RustHandle :=
  ⟨s.registry.base.next, (s.heap.newHandle w).1⟩

/-- What the registry makes of an addition. -/
def addedRegistry (s : RustWatchers) (w : RustObject) (rules : List ListenerRule)
    (r : ServiceResult) : WatcherRegistry RustHandle (ℕ × ℕ) :=
  (s.registry.add w.callbacks (s.heap.newHandle w).1 rules r).2

/-- What an addition leads to before it drops what it does not keep. -/
def added (s : RustWatchers) (w : RustObject) (rules : List ListenerRule) (r : ServiceResult) :
    RustWatchers :=
  sent ((s.addedRegistry w rules r).base.stub (s.newBase w)) { s with
    heap := (s.heap.newHandle w).2
    registry := s.addedRegistry w rules r
    bases := s.newBase w :: s.bases }

theorem sent_registry (stub : Option (HiSysEventListenerProxy RustHandle)) (s : RustWatchers) :
    (sent stub s).registry = s.registry := by
  cases stub <;> rfl

theorem sent_heap (stub : Option (HiSysEventListenerProxy RustHandle)) (s : RustWatchers) :
    (sent stub s).heap = s.heap := by
  cases stub <;> rfl

theorem sent_bases (stub : Option (HiSysEventListenerProxy RustHandle)) (s : RustWatchers) :
    (sent stub s).bases = s.bases := by
  cases stub <;> rfl

theorem added_registry (rules : List ListenerRule) :
    (s.added w rules r).registry = s.addedRegistry w rules r :=
  sent_registry _ _

theorem added_heap (rules : List ListenerRule) :
    (s.added w rules r).heap = (s.heap.newHandle w).2 :=
  sent_heap _ _

theorem Held.sent (h : s.Held) {stub : Option (HiSysEventListenerProxy RustHandle)}
    (hstub : ∀ cb, stub = some cb → cb.getEventListener ∈ s.bases) :
    (RustWatchers.sent stub s).Held := by
  cases stub with
  | none => exact h
  | some cb =>
    refine ⟨h.sane, h.mapped, h.listener, h.registered, fun cb' hcb' => ?_⟩
    rcases List.mem_cons.1 hcb' with rfl | hcb'
    · exact hstub cb' rfl
    · exact h.remote cb' hcb'

theorem Held.added (h : s.Held) (hstatus : s.heap.status w = some .normal)
    (hnone : ∀ x ∈ s.heap.handles, x.object ≠ w) (rules : List ListenerRule) (r : ServiceResult) :
    (s.added w rules r).Held := by
  refine Held.sent ⟨h.sane.newHandle hstatus hnone, fun key x hx => ?_, ?_, ?_, fun cb hcb => ?_⟩
    fun cb hcb => ?_
  · exact ⟨List.mem_cons_of_mem _ (h.mapped key x hx).1, (h.mapped key x hx).2⟩
  · intro b hb
    rcases List.mem_cons.1 hb with rfl | hb
    · exact List.mem_cons_self
    · exact List.mem_cons_of_mem _ (h.listener b hb)
  · intro key b hb
    have hold : ∀ {b}, s.registry.watchers key = some b →
        b ∈ s.newBase w :: s.bases ∧ b.listener.object.callbacks = key := fun hb =>
      ⟨List.mem_cons_of_mem _ (h.registered key _ hb).1, (h.registered key _ hb).2⟩
    dsimp only [addedRegistry] at hb
    by_cases hr : r = .returns ipcCallSucceed
    · subst hr
      obtain ⟨b', cb, base, haddr, hlistener, -, -, hadd, -⟩ :=
        WatcherRegistry.add_succeeds w.callbacks (s.heap.newHandle w).1 rules s.registry
      rw [hadd] at hb
      by_cases hkey : key = w.callbacks
      · obtain rfl : b' = b := by simpa [hkey] using hb
        have hnew : b' = s.newBase w := by
          cases b'
          simp only at haddr hlistener
          rw [haddr, hlistener]
          rfl
        rw [hnew, hkey]
        exact ⟨List.mem_cons_self, rfl⟩
      · exact hold ((Function.update_of_ne hkey _ _).symm.trans hb)
    · obtain ⟨base, hadd, -⟩ :=
        WatcherRegistry.add_fails w.callbacks (s.heap.newHandle w).1 rules hr s.registry
      rw [hadd] at hb
      exact hold hb
  · exact List.mem_cons_of_mem _ (h.remote cb hcb)
  · rw [(WatcherRegistry.add_stub w.callbacks (s.heap.newHandle w).1 rules r s.registry).1 cb hcb]
    exact List.mem_cons_self

/-- An addition that passes the check. -/
theorem add_eq (hstatus : s.heap.status w = some .normal) :
    s.hiSysEventAddWatcher (some w) rules ruleSize r =
      if r.code ≠ ipcCallSucceed then
        (r.code, (s.added w (listenerRules rules ruleSize) r).releaseBase (s.newBase w))
      else (r.code, setWatcher w.callbacks (s.heap.newHandle w).1
        ((s.added w (listenerRules rules ruleSize) r).dropBase
          (s.registry.watchers w.callbacks))) := by
  have htouch : s.heap.touch w = s.heap := touch_eq (by simp [hstatus])
  have hadd : s.registry.add w.callbacks (s.heap.newHandle w).1 (listenerRules rules ruleSize) r =
      (r.code, s.addedRegistry w (listenerRules rules ruleSize) r) :=
    Prod.ext (WatcherRegistry.add_fst _ _ _ _ _) rfl
  simp only [hiSysEventAddWatcher, htouch, hstatus, hadd, ne_eq, not_true_eq_false, if_false]
  rfl

/-- A failed addition keeps the handle if the service was found, since the delegate holds its
stub. -/
theorem releaseBase_newBase (rules : List ListenerRule) (hfound : r ≠ .notFound) :
    (s.added w rules r).releaseBase (s.newBase w) = s.added w rules r := by
  refine if_pos (Or.inr (Or.inl ?_))
  rw [added_registry]
  exact (WatcherRegistry.add_stub w.callbacks (s.heap.newHandle w).1 rules r s.registry).2 hfound

theorem Held.dropBase (h : s.Held) {old : Option (HiSysEventBaseListener RustHandle)}
    (hold : ∀ b, old = some b → b ∈ s.bases) : (s.dropBase old).Held := by
  cases old with
  | none => exact h
  | some b => exact h.releaseBase (hold b rfl)

theorem registry_setWatcher (key : ℕ × ℕ) (x : RustHandle) (s : RustWatchers) :
    (RustWatchers.setWatcher key x s).registry = s.registry := by
  rw [RustWatchers.setWatcher]
  split
  · rfl
  · exact registry_releaseListener _ _

theorem registry_dropBase (old : Option (HiSysEventBaseListener RustHandle)) (s : RustWatchers) :
    (s.dropBase old).registry = s.registry := by
  cases old with
  | none => rfl
  | some b => exact registry_releaseBase b s

theorem Held.setWatcher (h : s.Held) {key : ℕ × ℕ} {x : RustHandle} (hx : x ∈ s.heap.handles)
    (hkey : x.object.callbacks = key) : (RustWatchers.setWatcher key x s).Held := by
  have hkept : RustWatchers.Held
      { s with watchers := Function.update s.watchers key (some x) } := by
    refine ⟨h.sane, fun k y hy => ?_, h.listener, h.registered, h.remote⟩
    by_cases hk : k = key
    · obtain rfl : x = y := by simpa [hk] using hy
      exact ⟨hx, hkey.trans hk.symm⟩
    · exact h.mapped k y ((Function.update_of_ne hk _ _).symm.trans hy)
  rw [RustWatchers.setWatcher]
  cases hold : s.watchers key with
  | none => exact hkept
  | some old => exact hkept.releaseListener (h.mapped key old hold).1

/-- An addition of a watcher that was not given up and has no handle. -/
theorem Held.add (h : s.Held) (hsingle : s.Single (.add w rules ruleSize r)) :
    (s.hiSysEventAddWatcher (some w) rules ruleSize r).2.Held ∧
      ((s.hiSysEventAddWatcher (some w) rules ruleSize r).1 ≠ ipcCallSucceed →
        (s.hiSysEventAddWatcher (some w) rules ruleSize r).2.heap.status w = some .normal) := by
  obtain ⟨hstatus, hnone, hfound⟩ := hsingle
  have hadded := h.added hstatus hnone (listenerRules rules ruleSize) r
  by_cases hr : r = .returns ipcCallSucceed
  · subst hr
    have hcode : (ServiceResult.returns ipcCallSucceed).code = ipcCallSucceed := rfl
    rw [add_eq hstatus, if_neg (not_not.2 hcode)]
    refine ⟨?_, fun hne => absurd hcode hne⟩
    have hdropped : ((s.added w (listenerRules rules ruleSize)
        (.returns ipcCallSucceed)).dropBase (s.registry.watchers w.callbacks)).Held := by
      refine hadded.dropBase fun b hb => ?_
      rw [RustWatchers.added, sent_bases]
      exact List.mem_cons_of_mem _ (h.registered _ b hb).1
    obtain ⟨b, cb, base, haddr, hlistener, -, -, hadd, -⟩ := WatcherRegistry.add_succeeds
      w.callbacks (s.heap.newHandle w).1 (listenerRules rules ruleSize) s.registry
    have hb : ((s.added w (listenerRules rules ruleSize) (.returns ipcCallSucceed)).dropBase
        (s.registry.watchers w.callbacks)).registry.watchers w.callbacks = some b := by
      rw [registry_dropBase, added_registry, addedRegistry, hadd]
      exact Function.update_self _ _ _
    have hmem := hdropped.listener b (hdropped.registered _ b hb).1
    rw [hlistener] at hmem
    exact hdropped.setWatcher hmem rfl
  · have hcode : r.code ≠ ipcCallSucceed := mt code_eq_succeed.1 hr
    rw [add_eq hstatus, if_pos hcode, releaseBase_newBase _ hfound]
    refine ⟨hadded, fun _ => ?_⟩
    rw [added_heap]
    exact hstatus

end Add

/-! ## Removing, recycling and dropping -/

/-- A removal that passes the checks. -/
theorem remove_eq {w : RustObject} (hstatus : s.heap.status w = some .normal)
    {b : HiSysEventBaseListener RustHandle} (hb : s.registry.watchers w.callbacks = some b)
    (r : ServiceResult) : s.hiSysEventRemoveWatcher (some w) r =
      ((s.registry.remove w.callbacks r).1,
        releaseBase b { s with registry := (s.registry.remove w.callbacks r).2 }) := by
  have htouch : s.heap.touch w = s.heap := touch_eq (by simp [hstatus])
  simp [hiSysEventRemoveWatcher, htouch, hstatus, hb]

/-- A removal that does not changes nothing. -/
theorem remove_rejected {w : RustObject} (halive : s.heap.status w ≠ none)
    (h : s.heap.status w ≠ some .normal ∨ s.registry.watchers w.callbacks = none)
    (r : ServiceResult) :
    s.hiSysEventRemoveWatcher (some w) r = (errListenerNotExist, s) := by
  have htouch : s.heap.touch w = s.heap := touch_eq halive
  by_cases hstatus : s.heap.status w = some .normal
  · have hnone := h.resolve_left (not_not.2 hstatus)
    simp [hiSysEventRemoveWatcher, htouch, hstatus, hnone]
  · simp [hiSysEventRemoveWatcher, htouch, hstatus]

theorem Held.remove (h : s.Held) {w : RustObject} (hw : w ∈ s.owned) (r : ServiceResult) :
    (s.hiSysEventRemoveWatcher (some w) r).2.Held := by
  have halive := h.sane.ownedAlive w hw
  by_cases hstatus : s.heap.status w = some .normal
  · cases hb : s.registry.watchers w.callbacks with
    | none =>
      rw [remove_rejected halive (Or.inr hb)]
      exact h
    | some b =>
      rw [remove_eq hstatus hb]
      have hheld : RustWatchers.Held
          { s with registry := (s.registry.remove w.callbacks r).2 } := by
        refine ⟨h.sane, h.mapped, h.listener, fun key b' hb' => h.registered key b' ?_, h.remote⟩
        obtain ⟨base, -, -, ⟨ret, -, hremove, -⟩ | ⟨cb, -, hremove, -⟩⟩ :=
          WatcherRegistry.remove_cases hb r
        · rwa [hremove] at hb'
        · rw [hremove] at hb'
          have hne : key ≠ w.callbacks := fun hkey => by simp [hkey] at hb'
          exact (Function.update_of_ne hne _ _).symm.trans hb'
      exact hheld.releaseBase (h.registered _ b hb).1
  · rw [remove_rejected halive (Or.inl hstatus)]
    exact h

theorem Held.recycle (h : s.Held) {w : RustObject} (hw : w ∈ s.owned) :
    (s.step (.recycle w)).Held := by
  have htouch : s.heap.touch w = s.heap := touch_eq (h.sane.ownedAlive w hw)
  cases hx : s.watchers w.callbacks with
  | none =>
    have hstep : s.step (.recycle w) = { s with owned := s.owned.filter (· ≠ w) } := by
      simp only [step, hiSysEventRecycleWatcher, htouch, hx]
    rw [hstep]
    exact ⟨h.sane.forget w, h.mapped, h.listener, h.registered, h.remote⟩
  | some x =>
    have hstep : s.step (.recycle w) = RustWatchers.releaseListener x { s with
        heap := s.heap.recycle (some w)
        watchers := Function.update s.watchers w.callbacks none
        owned := s.owned.filter (· ≠ w) } := by
      rw [← releaseListener_owned x { s with
        heap := s.heap.recycle (some w)
        watchers := Function.update s.watchers w.callbacks none }]
      simp only [step, hiSysEventRecycleWatcher, htouch, hx]
    have hheld : RustWatchers.Held { s with
        heap := s.heap.recycle (some w)
        watchers := Function.update s.watchers w.callbacks none
        owned := s.owned.filter (· ≠ w) } := by
      refine ⟨h.sane.recycle hw, fun key y hy => ?_, fun b hb => by simpa using h.listener b hb,
        h.registered, h.remote⟩
      have hne : key ≠ w.callbacks := fun hkey => by simp [hkey] at hy
      rw [handles_recycle]
      exact h.mapped key y ((Function.update_of_ne hne _ _).symm.trans hy)
    rw [hstep]
    exact hheld.releaseListener (by simpa using (h.mapped _ x hx).1)

theorem Held.drop (h : s.Held) {cb : HiSysEventListenerProxy RustHandle} (hcb : cb ∈ s.remote) :
    (s.step (.drop cb)).Held := by
  have hheld : RustWatchers.Held { s with remote := s.remote.filter (· ≠ cb) } :=
    ⟨h.sane, h.mapped, h.listener, h.registered,
      fun cb' hcb' => h.remote cb' (List.mem_filter.1 hcb').1⟩
  exact hheld.releaseBase (h.remote cb hcb)

theorem Held.create (h : s.Held) (cb wrapper cb' wrapper' : Option ℕ) (granted : Bool) :
    (s.step (.create cb wrapper cb' wrapper' granted)).Held := by
  obtain hcreate | ⟨w, haddr, hcreate⟩ :=
    createObject_cases cb wrapper cb' wrapper' granted s.heap
  · simp only [RustWatchers.step, hcreate]
    exact h
  · simp only [RustWatchers.step, hcreate]
    exact ⟨h.sane.create w haddr, h.mapped, h.listener, h.registered, h.remote⟩

/-! ## Runs -/

/-- A step in order, whose addition is single. -/
theorem Held.step (h : s.Held) {a : RustWatcherStep} (hallowed : s.Allowed a)
    (hsingle : s.Single a) : (s.step a).Held := by
  cases a with
  | create cb wrapper cb' wrapper' granted => exact h.create cb wrapper cb' wrapper' granted
  | add w rules ruleSize r => exact (h.add hsingle).1
  | remove w r => exact h.remove hallowed r
  | recycle w => exact h.recycle hallowed
  | deliver cb =>
    rw [RustWatchers.step, touch_eq (h.sane.handlesAlive _ (h.listener _ (h.remote cb hallowed)))]
    exact h
  | drop cb => exact h.drop hallowed

theorem Held.intact (h : s.Held) {a : RustWatcherStep} (hallowed : s.Allowed a)
    (hsingle : s.Single a) : s.Intact a := by
  have hstep := h.step hallowed hsingle
  refine ⟨hstep.sane.noFault, hstep.sane.ownedAlive, hstep.sane.handlesAlive, ?_⟩
  rintro w rules ruleSize r rfl hne
  exact (h.add hsingle).2 hne

theorem intact_run (as : List RustWatcherStep) {s : RustWatchers} :
    s.Held → Each step (fun s a => s.Allowed a ∧ s.Single a) s as → Each step Intact s as :=
  each_of_invariant (fun _ _ h hguard => h.intact hguard.1 hguard.2)
    (fun _ _ h hguard => h.step hguard.1 hguard.2) as

/-! ## The registered stubs -/

/-- An addition adds to the registry, or is rejected. -/
theorem add_registry (w : RustObject) (rules : ℕ → HiSysEventWatchRule) (ruleSize : ℕ)
    (r : ServiceResult) (s : RustWatchers) :
    (s.heap.status w ≠ some .normal ∧
      (s.hiSysEventAddWatcher (some w) rules ruleSize r).2.registry = s.registry) ∨
    s.heap.status w = some .normal ∧ ∃ x : RustHandle, x.object = w ∧
      (s.hiSysEventAddWatcher (some w) rules ruleSize r).2.registry =
        (s.registry.add w.callbacks x (listenerRules rules ruleSize) r).2 := by
  by_cases hstatus : s.heap.status w = some .normal
  · refine Or.inr ⟨hstatus, (s.heap.newHandle w).1, rfl, ?_⟩
    rw [add_eq hstatus]
    split
    · rw [registry_releaseBase, added_registry]
      rfl
    · rw [registry_setWatcher, registry_dropBase, added_registry]
      rfl
  · have htouch : (s.heap.touch w).status w = s.heap.status w := by
      rw [touch]
      split <;> rfl
    refine Or.inl ⟨hstatus, ?_⟩
    simp [hiSysEventAddWatcher, htouch, hstatus]

/-- A removal removes from the registry, or is rejected. -/
theorem remove_registry (w : RustObject) (r : ServiceResult) (s : RustWatchers) :
    ((s.hiSysEventRemoveWatcher (some w) r).1 = errListenerNotExist ∧
      (s.hiSysEventRemoveWatcher (some w) r).2.registry = s.registry) ∨
    (s.hiSysEventRemoveWatcher (some w) r).1 = (s.registry.remove w.callbacks r).1 ∧
      (s.hiSysEventRemoveWatcher (some w) r).2.registry =
        (s.registry.remove w.callbacks r).2 := by
  by_cases hstatus : s.heap.status w = some .normal
  · cases hb : s.registry.watchers w.callbacks with
    | none =>
      rw [remove_rejected (by simp [hstatus]) (Or.inr hb)]
      exact Or.inl ⟨rfl, rfl⟩
    | some b =>
      rw [remove_eq hstatus hb]
      exact Or.inr ⟨rfl, registry_releaseBase _ _⟩
  · have htouch : (s.heap.touch w).status w = s.heap.status w := by
      rw [touch]
      split <;> rfl
    refine Or.inl ?_
    simp [hiSysEventRemoveWatcher, htouch, hstatus]

/-- The other steps leave the registry as it is. -/
theorem step_registry {a : RustWatcherStep}
    (hadd : ∀ w rules ruleSize r, a ≠ .add w rules ruleSize r)
    (hremove : ∀ w r, a ≠ .remove w r) : (s.step a).registry = s.registry := by
  cases a with
  | create cb wrapper cb' wrapper' granted =>
    obtain hcreate | ⟨w, -, hcreate⟩ := createObject_cases cb wrapper cb' wrapper' granted s.heap
    · simp only [RustWatchers.step, hcreate]
    · simp only [RustWatchers.step, hcreate]
  | add w rules ruleSize r => exact absurd rfl (hadd w rules ruleSize r)
  | remove w r => exact absurd rfl (hremove w r)
  | recycle w =>
    simp only [RustWatchers.step, hiSysEventRecycleWatcher]
    split
    · rfl
    · rw [registry_releaseListener]
  | deliver cb => rfl
  | drop cb => exact registry_releaseBase _ _

/-- No registered stub is lost, and none delivers to the callbacks of a watcher that was removed. -/
structure KeepsStubs (s : RustWatchers) (a : RustWatcherStep) : Prop where
  losesNone : (s.step a).registry.LosesNone
  silent : ∀ w r, a = .remove w r → (s.hiSysEventRemoveWatcher (some w) r).1 = ipcCallSucceed →
    (s.step a).registry.Silent (fun x => x.object.callbacks) w.callbacks

/-- The callbacks of a watcher that is in use and answered with success are not in the map. -/
def AddsNew (s : RustWatchers) (a : RustWatcherStep) : Prop :=
  ∀ w rules ruleSize, a = .add w rules ruleSize (.returns ipcCallSucceed) →
    s.heap.status w = some .normal → s.registry.watchers w.callbacks = none

/-- The registry, by the callbacks. -/
abbrev Registered (s : RustWatchers) : Prop :=
  s.registry.Consistent fun x => x.object.callbacks

theorem registered_step (h : s.Registered) {a : RustWatcherStep} (ha : s.AddsNew a) :
    (s.step a).Registered := by
  by_cases hadd : ∃ w rules ruleSize r, a = .add w rules ruleSize r
  · obtain ⟨w, rules, ruleSize, r, rfl⟩ := hadd
    rw [Registered, RustWatchers.step]
    obtain ⟨-, hregistry⟩ | ⟨hstatus, x, rfl, hregistry⟩ := add_registry w rules ruleSize r s
    · rwa [hregistry]
    · rw [hregistry]
      refine h.keep_add rfl _ r ?_
      rintro rfl
      exact ha _ rules ruleSize rfl hstatus
  · by_cases hremove : ∃ w r, a = .remove w r
    · obtain ⟨w, r, rfl⟩ := hremove
      rw [Registered, RustWatchers.step]
      obtain ⟨-, hregistry⟩ | ⟨-, hregistry⟩ := remove_registry w r s
      · rwa [hregistry]
      · rw [hregistry]
        exact h.keep_removed w.callbacks r
    · rw [Registered,
        step_registry (fun w rules ruleSize r heq => hadd ⟨w, rules, ruleSize, r, heq⟩)
          fun w r heq => hremove ⟨w, r, heq⟩]
      exact h

theorem keepsStubs_iff (h : s.Registered) (a : RustWatcherStep) :
    s.KeepsStubs a ↔ s.AddsNew a := by
  have hne : errListenerNotExist ≠ ipcCallSucceed := by decide
  constructor
  · rintro ⟨hloses, -⟩ w rules ruleSize rfl hstatus
    rw [RustWatchers.step] at hloses
    obtain ⟨hrecycled, -⟩ | ⟨-, x, rfl, hregistry⟩ :=
      add_registry w rules ruleSize (.returns ipcCallSucceed) s
    · exact absurd hstatus hrecycled
    · rw [hregistry] at hloses
      exact (h.losesNone_add_iff rfl _ _).1 hloses rfl
  · intro ha
    refine ⟨(registered_step h ha).losesNone, ?_⟩
    rintro w r rfl hsuccess
    rw [RustWatchers.step]
    obtain ⟨hret, -⟩ | ⟨hret, hregistry⟩ := remove_registry w r s
    · exact absurd (hret.symm.trans hsuccess) hne
    · rw [hret] at hsuccess
      rw [hregistry]
      exact h.silent hsuccess

theorem keepsStubs_each_iff (as : List RustWatcherStep) :
    Each step KeepsStubs .init as ↔ Each step AddsNew .init as := by
  refine each_congr (I := Registered) (fun _ a h => keepsStubs_iff h a)
    (fun _ _ h ha => registered_step h ha) as ?_
  exact WatcherRegistry.consistent_init fun x : RustHandle => x.object.callbacks

end RustWatchers

/-! ## The maps and the service -/

/-- In every run of calls of the C watchers, and in every one of the Rust watchers, the registered
stubs are kept exactly if no watcher in the map is added again, where the checks pass and the
service answers success. -/
theorem keepsStubs_run_iff (calls : List WatcherCallC) (watches : List RustWatcherStep) :
    (Each WatcherCallC.step WatcherCallC.KeepsStubs .init calls ↔
      Each WatcherCallC.step WatcherCallC.AddsNew .init calls) ∧
    (Each RustWatchers.step RustWatchers.KeepsStubs .init watches ↔
      Each RustWatchers.step RustWatchers.AddsNew .init watches) :=
  ⟨WatcherCallC.keepsStubs_each_iff calls, RustWatchers.keepsStubs_each_iff watches⟩

/-- A watcher that is added twice and removed once stays registered with its first stub. -/
theorem not_keepsStubs_run :
    let w : HiSysEventWatcher := ⟨some 1, some 2⟩
    let calls : List WatcherCallC := [.add (some w) none 0 (.returns ipcCallSucceed),
      .add (some w) none 0 (.returns ipcCallSucceed),
      .remove (some w) (.returns ipcCallSucceed)]
    let s := exec WatcherCallC.step (WatcherRegistry.init : WatchersC) calls
    s.watchers w = none ∧ s.base.service.callbacks.length = 1 ∧
      ¬Each WatcherCallC.step WatcherCallC.KeepsStubs .init calls := by
  refine ⟨by decide, by decide, fun h => ?_⟩
  exact h.2.2.1.silent ⟨some 1, some 2⟩ _ rfl (by decide) ⟨3, 2, 0, ⟨some 1, some 2⟩⟩ (by decide)
    rfl

/-! ## The life of the objects -/

/-- In a run in order, whose queries succeed and whose additions find the service, each made of an
object that has no handle, every querier and every watcher is intact at every step. -/
theorem rustObjects_intact {queries : List QuerierStep} {watches : List RustWatcherStep}
    (hqueries : Each QuerierState.step (fun s a => s.Allowed a ∧ s.Single a) .init queries)
    (hwatches : Each RustWatchers.step (fun s a => s.Allowed a ∧ s.Single a) .init watches) :
    Each QuerierState.step QuerierState.Intact .init queries ∧
      Each RustWatchers.step RustWatchers.Intact .init watches :=
  ⟨QuerierState.intact_run queries QuerierState.held_init hqueries,
    RustWatchers.intact_run watches RustWatchers.held_init hwatches⟩

/-- One query and one watch, from the creation to the end. -/
theorem rustObjects_intact_once :
    Each QuerierState.step QuerierState.Intact .init
      [.create (some 1) (some 2) (some 3) (some 4) true,
      .query (fun _ => []) none [] ⟨0, (1, 3), (2, 4)⟩ ipcCallSucceed,
      .deliver ⟨1, 0, (1, 3), (2, 4)⟩, .complete ⟨1, 0, (1, 3), (2, 4)⟩,
      .recycle ⟨0, (1, 3), (2, 4)⟩] ∧
    Each RustWatchers.step RustWatchers.Intact .init
      [.create (some 1) (some 2) (some 3) (some 4) true,
      .add ⟨0, (1, 3), (2, 4)⟩
        (fun _ => ⟨CharArray.zero _, CharArray.zero _, CharArray.zero _, 0, 0⟩) 0
        (.returns ipcCallSucceed),
      .remove ⟨0, (1, 3), (2, 4)⟩ (.returns ipcCallSucceed), .recycle ⟨0, (1, 3), (2, 4)⟩,
      .drop ⟨3, 2, 0, 1, 0, (1, 3), (2, 4)⟩] :=
  rustObjects_intact
    ⟨⟨trivial, trivial⟩, ⟨by decide, by decide, Or.inr ⟨rfl, by decide⟩⟩, ⟨by decide, trivial⟩,
      ⟨by decide, trivial⟩, ⟨by decide, trivial⟩, trivial⟩
    ⟨⟨trivial, trivial⟩, ⟨by decide, by decide, by decide, by decide⟩, ⟨by decide, trivial⟩,
      ⟨by decide, trivial⟩, ⟨by decide, trivial⟩, trivial⟩

/-- Two queries one after another give the querier up twice, so recycling it deletes it under the
handle of the second, which touches it. -/
theorem not_rustObjects_intact :
    let q : RustObject := ⟨0, (1, 3), (2, 4)⟩
    let queries : List QuerierStep := [.create (some 1) (some 2) (some 3) (some 4) true,
      .query (fun _ => []) none [] q ipcCallSucceed, .complete ⟨1, q⟩,
      .query (fun _ => []) none [] q ipcCallSucceed, .complete ⟨2, q⟩, .recycle q]
    Each QuerierState.step QuerierState.Allowed .init queries ∧
      (exec QuerierState.step .init queries).heap.fault = true ∧
      ¬Each QuerierState.step QuerierState.Intact .init queries := by
  refine ⟨⟨trivial, by decide, by decide, by decide, by decide, by decide, trivial⟩, by decide,
    fun h => ?_⟩
  exact absurd h.2.2.2.2.2.1.noFault (by decide)

end HiSysEvent
