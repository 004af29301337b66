import HiSysEvent.BaseManager
import HiSysEvent.QueryRule
import HiSysEvent.RustObject

/-!
# Queries from Rust

A query makes a handle of the querier. If it fails the handle is destroyed at once, which gives the
querier up although Rust still uses it. If it succeeds the handle is kept by the proxy that
receives the results, and by the map `g_queriers` under the callbacks of the querier, where it
takes the place of an older one.

In runs whose queries succeed, and which query again only once the handle before is destroyed,
every querier is intact at every step (`QuerierState.intact_run`).
-/

namespace HiSysEvent

open Run RustHeap

/-! ## Arguments and rules -/

/-- The argument of a query. -/
structure HiSysEventQueryArg where
  beginTime : Int64
  endTime : Int64
  maxEvents : Int32

/-- `RuleType::WHOLE_WORD`. -/
abbrev wholeWord : UInt32 := 1

/-- The rule class of the C++ interface. -/
structure QueryRuleCls where
  domain : Bytes
  eventList : List Bytes
  ruleType : UInt32
  eventType : UInt32
  condition : Bytes

/-- The names, as far as they lie in the entries. -/
def HiSysEventQueryRule.events (rule : HiSysEventQueryRule) : List Bytes :=
  (List.finRange maxNumberOfEventList).filterMap fun j =>
    if j.1 < rule.eventListSize then some (cString (rule.eventList j).1) else none

/-- The rule made of an element of `rules`, with the strings at each address. -/
def HiSysEventQueryRule.queryRule (strings : ℕ → Bytes) (rule : HiSysEventQueryRule) :
    Option QueryRuleCls :=
  if (cString rule.domain.1).length = 0 ∨ rule.eventListSize = 0 then none
  else some ⟨cString rule.domain.1, rule.events, wholeWord, 0,
    match rule.condition with
    | none => []
    | some addr => strings addr⟩

/-! ## The state -/

/-- What is in flight for a query : the proxy with its callback, and what was asked. -/
structure HiSysEventQueryProxy where
  querier : RustHandle
  queryArg : HiSysEventQueryArg
  queryRules : List QueryRuleCls

/-- The memory, the map `g_queriers`, the queries in flight and the queriers Rust uses. -/
structure QuerierState where
  heap : RustHeap
  queriers : ℕ × ℕ → Option RustHandle
  proxies : List HiSysEventQueryProxy
  owned : List RustObject

namespace QuerierState

/-- Nothing created and nothing asked. -/
def init : QuerierState :=
  ⟨.init, fun _ => none, [], []⟩

/-- Somebody holds the handle, which is only ever put under the callbacks of its object. -/
def holds (s : QuerierState) (x : RustHandle) : Prop :=
  s.queriers x.object.callbacks = some x ∨ x ∈ s.proxies.map HiSysEventQueryProxy.querier

instance (s : QuerierState) (x : RustHandle) : Decidable (s.holds x) :=
  inferInstanceAs (Decidable (_ ∨ _))

/-- A reference to the handle is dropped. -/
def release (x : RustHandle) (s : QuerierState) : QuerierState :=
  if s.holds x then s else { s with heap := s.heap.destroy x }

/-- `HiSysEventQuery` of the Rust manager. -/
def hiSysEventQuery (strings : ℕ → Bytes) (arg : Option HiSysEventQueryArg)
    (rules : List HiSysEventQueryRule) (querier : Option RustObject) (ret : ℤ)
    (s : QuerierState) : ℤ × QuerierState :=
  match querier with
  | none => (errListenerNotExist, s)
  | some q =>
    let s := { s with heap := s.heap.touch q }
    if s.heap.status q ≠ some .normal then (errListenerNotExist, s)
    else
      match rules.mapM (HiSysEventQueryRule.queryRule strings) with
      | none => (errQueryRuleInvalid, s)
      | some queryRules =>
        let argCls := arg.getD ⟨0, 0, 0⟩
        let (querierRust, heap) := s.heap.newHandle q
        if ret = ipcCallSucceed then
          let old := s.queriers q.callbacks
          let s := { s with
            heap := heap
            queriers := Function.update s.queriers q.callbacks (some querierRust)
            proxies := ⟨querierRust, argCls, queryRules⟩ :: s.proxies }
          match old with
          | none => (ret, s)
          | some x => (ret, s.release x)
        else (ret, { s with heap := heap.destroy querierRust })

/-- `HiSysEventRecycleQuerier`. -/
def hiSysEventRecycleQuerier (querier : Option RustObject) (s : QuerierState) : QuerierState :=
  match querier with
  | none => s
  | some q =>
    let s := { s with heap := s.heap.touch q }
    match s.queriers q.callbacks with
    | none => s
    | some x =>
      let s := { s with heap := s.heap.recycle (some q) }
      let s := { s with queriers := Function.update s.queriers q.callbacks none }
      s.release x

/-! ## Steps -/

end QuerierState

/-- What happens to queriers : Rust creates them, queries and recycles, and the proxies deliver
results and complete. -/
inductive QuerierStep
  | create (onQueryRustCb onQueryWrapperCb onCompleteRustCb onCompleteWrapperCb : Option ℕ)
    (granted : Bool)
  | query (strings : ℕ → Bytes) (arg : Option HiSysEventQueryArg)
    (rules : List HiSysEventQueryRule) (querier : RustObject) (ret : ℤ)
  | deliver (x : RustHandle)
  | complete (x : RustHandle)
  | recycle (querier : RustObject)

namespace QuerierState

/-- One call of the program. -/
def step (s : QuerierState) : QuerierStep → QuerierState
  | .create cb wrapper cb' wrapper' granted =>
    match s.heap.createObject cb wrapper cb' wrapper' granted with
    | (none, heap) => { s with heap := heap }
    | (some q, heap) => { s with heap := heap, owned := q :: s.owned }
  | .query strings arg rules querier ret =>
    (s.hiSysEventQuery strings arg rules (some querier) ret).2
  | .deliver x => { s with heap := s.heap.touch x.object }
  | .complete x => QuerierState.release x
      { s with proxies := s.proxies.filter (·.querier ≠ x) }
  | .recycle querier => { s.hiSysEventRecycleQuerier (some querier) with
      owned := s.owned.filter (· ≠ querier) }

/-- The order that Rust and the proxies keep to. -/
def Allowed (s : QuerierState) : QuerierStep → Prop
  | .create .. => True
  | .query _ _ _ querier _ => querier ∈ s.owned
  | .deliver x => x ∈ s.proxies.map HiSysEventQueryProxy.querier
  | .complete x => x ∈ s.proxies.map HiSysEventQueryProxy.querier
  | .recycle querier => querier ∈ s.owned

instance (s : QuerierState) : DecidablePred s.Allowed
  | .create .. => inferInstanceAs (Decidable True)
  | .query .. | .deliver _ | .complete _ | .recycle _ => inferInstanceAs (Decidable (_ ∈ _))

/-- A query is made with a querier that was not given up. It is rejected for its rules, or it
succeeds and the querier has no handle yet. -/
def Single (s : QuerierState) : QuerierStep → Prop
  | .query strings _ rules querier ret => s.heap.status querier = some .normal ∧
      (rules.mapM (HiSysEventQueryRule.queryRule strings) = none ∨
        ret = ipcCallSucceed ∧ ∀ x ∈ s.heap.handles, x.object ≠ querier)
  | _ => True

/-- After the step no object that somebody refers to is deleted, no deleted object was touched
or deleted again, and a failed query has left its querier as usable as before. -/
structure Intact (s : QuerierState) (a : QuerierStep) : Prop where
  noFault : (s.step a).heap.fault = false
  owned : ∀ q ∈ (s.step a).owned, (s.step a).heap.status q ≠ none
  handles : ∀ x ∈ (s.step a).heap.handles, (s.step a).heap.status x.object ≠ none
  usable : ∀ strings arg rules querier ret, a = .query strings arg rules querier ret →
    (s.hiSysEventQuery strings arg rules (some querier) ret).1 ≠ ipcCallSucceed →
      (s.step a).heap.status querier = some .normal

/-! ## The invariant -/

/-- The memory is sane, and who holds a handle holds one that is not destroyed. -/
structure Held (s : QuerierState) : Prop where
  sane : s.heap.Sane s.owned
  mapped : ∀ key x, s.queriers key = some x → x ∈ s.heap.handles ∧ x.object.callbacks = key
  inFlight : ∀ p ∈ s.proxies, p.querier ∈ s.heap.handles

theorem held_init : init.Held where
  sane := sane_init
  mapped key x h := absurd h (by simp [init])
  inFlight p h := absurd h List.not_mem_nil

variable {s : QuerierState}

/-- What is mapped or in flight is held. -/
theorem holds_of_mapped {x : RustHandle} {key : ℕ × ℕ} (hx : s.queriers key = some x)
    (hkey : x.object.callbacks = key) : s.holds x :=
  Or.inl (by rw [hkey, hx])

/-- Dropping the reference to a handle that is not destroyed. -/
theorem held_release {x : RustHandle} (hsane : s.heap.Sane s.owned) (hx : x ∈ s.heap.handles)
    (hmapped : ∀ key y, s.queriers key = some y → y ∈ s.heap.handles ∧ y.object.callbacks = key)
    (hflight : ∀ p ∈ s.proxies, p.querier ∈ s.heap.handles) : (s.release x).Held := by
  rw [QuerierState.release]
  split
  case isTrue => exact ⟨hsane, hmapped, hflight⟩
  case isFalse hfree =>
    refine ⟨hsane.destroy hx, fun key y hy => ?_, fun p hp => ?_⟩
    · obtain ⟨hmem, hkey⟩ := hmapped key y hy
      refine ⟨mem_handles_destroy hmem ?_, hkey⟩
      rintro rfl
      exact hfree (holds_of_mapped hy hkey)
    · refine mem_handles_destroy (hflight p hp) ?_
      rintro rfl
      exact hfree (Or.inr (List.mem_map_of_mem hp))

theorem release_owned (x : RustHandle) (s : QuerierState) (owned : List RustObject) :
    { s.release x with owned := owned } =
      QuerierState.release x { s with owned := owned } := by
  have hholds : QuerierState.holds { s with owned := owned } x ↔ s.holds x := Iff.rfl
  simp only [QuerierState.release, hholds]
  split <;> rfl

/-! ## A query -/

section Query

variable {strings : ℕ → Bytes} {arg : Option HiSysEventQueryArg}
  {rules : List HiSysEventQueryRule} {q : RustObject}

/-- A query with a rejected rule changes nothing. -/
theorem query_invalid (hstatus : s.heap.status q = some .normal)
    (hrules : rules.mapM (HiSysEventQueryRule.queryRule strings) = none) (ret : ℤ) :
    s.hiSysEventQuery strings arg rules (some q) ret = (errQueryRuleInvalid, s) := by
  have htouch : s.heap.touch q = s.heap := touch_eq (by simp [hstatus])
  simp [hiSysEventQuery, htouch, hstatus, hrules]

/-- What a query that succeeds leads to before it drops the older handle. -/
def queried (s : QuerierState) (q : RustObject) (arg : HiSysEventQueryArg)
    (rules : List QueryRuleCls) : QuerierState :=
  { s with
    heap := (s.heap.newHandle q).2
    queriers := Function.update s.queriers q.callbacks (some (s.heap.newHandle q).1)
    proxies := ⟨(s.heap.newHandle q).1, arg, rules⟩ :: s.proxies }

theorem query_succeeds (hstatus : s.heap.status q = some .normal) {queryRules : List QueryRuleCls}
    (hrules : rules.mapM (HiSysEventQueryRule.queryRule strings) = some queryRules) :
    s.hiSysEventQuery strings arg rules (some q) ipcCallSucceed = (ipcCallSucceed,
      match s.queriers q.callbacks with
      | none => s.queried q (arg.getD ⟨0, 0, 0⟩) queryRules
      | some x => (s.queried q (arg.getD ⟨0, 0, 0⟩) queryRules).release x) := by
  have htouch : s.heap.touch q = s.heap := touch_eq (by simp [hstatus])
  simp only [hiSysEventQuery, htouch, hstatus, hrules, ne_eq, not_true_eq_false, if_false, if_true]
  split <;> rfl

theorem Held.queried (h : s.Held) (hstatus : s.heap.status q = some .normal)
    (hnone : ∀ x ∈ s.heap.handles, x.object ≠ q) (arg : HiSysEventQueryArg)
    (rules : List QueryRuleCls) : (s.queried q arg rules).Held := by
  refine ⟨h.sane.newHandle hstatus hnone, fun key x hx => ?_, fun p hp => ?_⟩
  · by_cases hkey : key = q.callbacks
    · obtain rfl : (s.heap.newHandle q).1 = x := by simpa [QuerierState.queried, hkey] using hx
      exact ⟨List.mem_cons_self, hkey.symm⟩
    · have hx' : s.queriers key = some x := by
        simpa [QuerierState.queried, Function.update_of_ne hkey] using hx
      exact ⟨List.mem_cons_of_mem _ (h.mapped key x hx').1, (h.mapped key x hx').2⟩
  · rcases List.mem_cons.1 hp with rfl | hp
    · exact List.mem_cons_self
    · exact List.mem_cons_of_mem _ (h.inFlight p hp)

/-- A query by a querier that was not given up and has no handle. -/
theorem Held.query (h : s.Held) {ret : ℤ} (hsingle : s.Single (.query strings arg rules q ret)) :
    (s.hiSysEventQuery strings arg rules (some q) ret).2.Held ∧
      ((s.hiSysEventQuery strings arg rules (some q) ret).1 ≠ ipcCallSucceed →
        (s.hiSysEventQuery strings arg rules (some q) ret).2.heap.status q = some .normal) := by
  obtain ⟨hstatus, hcase⟩ := hsingle
  cases hrules : rules.mapM (HiSysEventQueryRule.queryRule strings) with
  | none =>
    rw [query_invalid hstatus hrules]
    exact ⟨h, fun _ => hstatus⟩
  | some queryRules =>
    obtain ⟨rfl, hnone⟩ := hcase.resolve_left (by simp [hrules])
    rw [query_succeeds hstatus hrules]
    refine ⟨?_, fun hne => absurd rfl hne⟩
    have hqueried := h.queried hstatus hnone (arg.getD ⟨0, 0, 0⟩) queryRules
    cases hold : s.queriers q.callbacks with
    | none => exact hqueried
    | some x =>
      exact held_release hqueried.sane (List.mem_cons_of_mem _ (h.mapped _ x hold).1)
        hqueried.mapped hqueried.inFlight

end Query

/-! ## Recycling -/

theorem Held.recycle (h : s.Held) {q : RustObject} (hq : q ∈ s.owned) :
    (s.step (.recycle q)).Held := by
  have htouch : s.heap.touch q = s.heap := touch_eq (h.sane.ownedAlive q hq)
  cases hx : s.queriers q.callbacks with
  | none =>
    have hstep : s.step (.recycle q) = { s with owned := s.owned.filter (· ≠ q) } := by
      simp only [step, hiSysEventRecycleQuerier, htouch, hx]
    rw [hstep]
    exact ⟨h.sane.forget q, h.mapped, h.inFlight⟩
  | some x =>
    have hstep : s.step (.recycle q) = QuerierState.release x ⟨s.heap.recycle (some q),
        Function.update s.queriers q.callbacks none, s.proxies, s.owned.filter (· ≠ q)⟩ := by
      rw [← release_owned x ⟨s.heap.recycle (some q),
        Function.update s.queriers q.callbacks none, s.proxies, s.owned⟩]
      simp only [step, hiSysEventRecycleQuerier, htouch, hx]
    rw [hstep]
    refine held_release (h.sane.recycle hq) (by simpa using (h.mapped _ x hx).1)
      (fun key y hy => ?_) fun p hp => by simpa using h.inFlight p hp
    have hne : key ≠ q.callbacks := fun hkey => by simp [hkey] at hy
    rw [handles_recycle]
    exact h.mapped key y ((Function.update_of_ne hne _ _).symm.trans hy)

/-! ## Runs -/

theorem Held.complete (h : s.Held) {x : RustHandle}
    (hx : x ∈ s.proxies.map HiSysEventQueryProxy.querier) : (s.step (.complete x)).Held := by
  obtain ⟨p, hp, rfl⟩ := List.mem_map.1 hx
  exact held_release h.sane (h.inFlight p hp) h.mapped
    fun p' hp' => h.inFlight p' (List.mem_filter.1 hp').1

theorem Held.create (h : s.Held) (cb wrapper cb' wrapper' : Option ℕ) (granted : Bool) :
    (s.step (.create cb wrapper cb' wrapper' granted)).Held := by
  obtain hcreate | ⟨q, haddr, hcreate⟩ :=
    createObject_cases cb wrapper cb' wrapper' granted s.heap
  · simp only [QuerierState.step, hcreate]
    exact h
  · simp only [QuerierState.step, hcreate]
    exact ⟨h.sane.create q haddr, h.mapped, h.inFlight⟩

/-- A step in order, whose query is single. -/
theorem Held.step (h : s.Held) {a : QuerierStep} (hallowed : s.Allowed a) (hsingle : s.Single a) :
    (s.step a).Held := by
  cases a with
  | create cb wrapper cb' wrapper' granted => exact h.create cb wrapper cb' wrapper' granted
  | query strings arg rules q ret => exact (h.query hsingle).1
  | deliver x =>
    obtain ⟨p, hp, rfl⟩ := List.mem_map.1 hallowed
    rw [QuerierState.step, touch_eq (h.sane.handlesAlive _ (h.inFlight p hp))]
    exact h
  | complete x => exact h.complete hallowed
  | recycle q => exact h.recycle hallowed

theorem Held.intact (h : s.Held) {a : QuerierStep} (hallowed : s.Allowed a)
    (hsingle : s.Single a) : s.Intact a := by
  have hstep := h.step hallowed hsingle
  refine ⟨hstep.sane.noFault, hstep.sane.ownedAlive, hstep.sane.handlesAlive, ?_⟩
  rintro strings arg rules q ret rfl hne
  exact (h.query hsingle).2 hne

theorem intact_run (as : List QuerierStep) {s : QuerierState} :
    s.Held → Each step (fun s a => s.Allowed a ∧ s.Single a) s as → Each step Intact s as :=
  each_of_invariant (fun _ _ h hguard => h.intact hguard.1 hguard.2)
    (fun _ _ h hguard => h.step hguard.1 hguard.2) as

end QuerierState

end HiSysEvent
