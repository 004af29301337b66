import Mathlib.Algebra.BigOperators.Group.List.Basic
import Mathlib.Algebra.GroupWithZero.Nat
import Mathlib.Data.List.Nodup
import Mathlib.Logic.Function.Basic
import HiSysEvent.Run

/-!
# The callback queue of the script interfaces

`JsCallbackManager` and `AniCallbackManager` run the callbacks that are added one after another. A
callback stays at the front of the queue until it was run, and its release function then pops it
and goes on with the next (`ImmediateRun(true)`). `Add` starts the first one if `inCalling` is not
set (`ImmediateRun(false)`), which is stored only later and outside of the lock.

A call is a list of atomic steps (`Activity`), and the steps of all calls interleave in any order.
The work that `RunCallback` schedules is a call of its own, which the event loop takes up
for JS, and the same thread at once for ANI.

If no call of `Add` finds `inCalling` not set while another that found it so has still to store it,
and nothing that `RunCallback` asks for is refused, then the callbacks run one at a time,
once and in order (`serial_run`).
-/

namespace HiSysEvent

open Run

/-- An element of the queue. Contexts are not null, and the release function given to `Add` is, so
that of the element is `ImmediateRun(true)`. -/
structure Task where
  id : ℕ
  context : ℕ
  callback : ℕ
  deriving DecidableEq

/-- Where a call is. The next step of `entering`, `checking` and `chosen` loads `IsReleased`, that
of `locking` and `choosing` is a block under the lock. -/
inductive Activity
  | entering (context callback : ℕ)
  | locking (context callback : ℕ)
  | storing (needPop : Bool)
  | checking (needPop : Bool)
  | choosing (needPop : Bool)
  | chosen (current : Task)
  | running (current : Task)
  | scheduled (context : ℕ)
  deriving DecidableEq

/-- What `RunCallback` asks for : the event loop, memory for the work, and the handle scope when the
work is completed. For ANI it asks for nothing. -/
structure CallbackGrants where
  uvLoop : Bool
  work : Bool
  scope : Bool
  deriving DecidableEq

/-- The members of the manager, the callback in each context, the calls that are going on, and the
tasks that were added and run so far. -/
structure CallbackManager where
  isReleased : Bool
  inCalling : Bool
  callbacks : List Task
  contexts : ℕ → Option Task
  calls : List Activity
  added : List Task
  ran : List Task

/-- A new call of `Add`, or the next step of a call. -/
inductive CallbackStep
  | add (context callback : ℕ)
  | advance (a : Activity) (granted : CallbackGrants)

namespace CallbackManager

/-- A manager that was never used. -/
def init : CallbackManager :=
  ⟨false, false, [], fun _ => none, [], [], []⟩

/-- The block of `Add` under the lock. -/
def emplace (context callback : ℕ) (s : CallbackManager) : Option Activity × CallbackManager :=
  let task : Task := ⟨s.added.length, context, callback⟩
  let s := { s with callbacks := s.callbacks ++ [task], added := s.added ++ [task] }
  if s.inCalling then (none, s) else (some (.storing false), s)

/-- The block of `ImmediateRun` under the lock. -/
def choose (needPop : Bool) (s : CallbackManager) : Option Activity × CallbackManager :=
  let s := if needPop then { s with callbacks := s.callbacks.tail } else s
  match s.callbacks with
  | [] => (none, { s with inCalling := false })
  | current :: _ =>
    if s.isReleased then (none, { s with inCalling := false }) else (some (.chosen current), s)

/-- `RunCallback`, as far as the work. -/
def runCallback (current : Task) (granted : CallbackGrants) (s : CallbackManager) :
    Option Activity × CallbackManager :=
  if !granted.uvLoop then (none, s)
  else
    let s := { s with contexts := Function.update s.contexts current.context (some current) }
    if !granted.work then (none, s) else (some (.scheduled current.context), s)

/-- The work is completed : the callback of the context runs, and then its release function. -/
def complete (context : ℕ) (granted : CallbackGrants) (s : CallbackManager) :
    Option Activity × CallbackManager :=
  if !granted.scope then (none, s)
  else
    match s.contexts context with
    | none => (none, s)
    | some task => (some (.storing true), { s with ran := s.ran ++ [task] })

/-- The next step of a call. -/
def next (granted : CallbackGrants) (s : CallbackManager) :
    Activity → Option Activity × CallbackManager
  | .entering context callback =>
    if s.isReleased then (none, s) else (some (.locking context callback), s)
  | .locking context callback => s.emplace context callback
  | .storing needPop => (some (.checking needPop), { s with inCalling := true })
  | .checking needPop => if s.isReleased then (none, s) else (some (.choosing needPop), s)
  | .choosing needPop => s.choose needPop
  | .chosen current => if s.isReleased then (none, s) else (some (.running current), s)
  | .running current => s.runCallback current granted
  | .scheduled context => s.complete context granted

/-- A new call, or an advance of one. -/
def step (s : CallbackManager) : CallbackStep → CallbackManager
  | .add context callback => { s with calls := .entering context callback :: s.calls }
  | .advance a granted =>
    if a ∈ s.calls then
      { (s.next granted a).2 with calls := (s.next granted a).1.toList ++ s.calls.erase a }
    else s

end CallbackManager

/-! ## Phases -/

namespace Activity

/-- A callback was chosen and is not yet popped. -/
def inHand : Activity → Bool
  | .chosen _ | .running _ | .scheduled _ => true
  | .storing needPop | .checking needPop | .choosing needPop => needPop
  | _ => false

/-- The callback in hand was run. -/
def popping : Activity → Bool
  | .storing needPop | .checking needPop | .choosing needPop => needPop
  | _ => false

/-- The call has stored `inCalling`. -/
def stored : Activity → Bool
  | .storing needPop => needPop
  | .checking _ | .choosing _ | .chosen _ | .running _ | .scheduled _ => true
  | _ => false

/-- The call is behind the emplacing of its task. -/
def started : Activity → Bool
  | .entering _ _ | .locking _ _ => false
  | _ => true

/-- What is left to do, as a weight that every step lowers. -/
def weight : Activity → ℕ
  | .entering _ _ => 17
  | .locking _ _ => 16
  | .storing needPop => if needPop then 3 else 9
  | .checking needPop => if needPop then 2 else 8
  | .choosing needPop => if needPop then 1 else 7
  | .chosen _ => 6
  | .running _ => 5
  | .scheduled _ => 4

end Activity

namespace CallbackManager

variable {s : CallbackManager}

/-! ## Every call comes to an end -/

/-- What is left to do. -/
def work (s : CallbackManager) : ℕ :=
  6 * s.callbacks.length + (s.calls.map Activity.weight).sum

/-- A step of a call lowers the weight of the queue and the call. -/
theorem next_lt (granted : CallbackGrants) (s : CallbackManager) (a : Activity) :
    6 * (s.next granted a).2.callbacks.length +
      ((s.next granted a).1.toList.map Activity.weight).sum <
        6 * s.callbacks.length + a.weight := by
  cases a with
  | entering context callback =>
    simp only [next]
    split <;> simp [Activity.weight]
  | locking context callback =>
    simp only [next, emplace]
    split <;> simp [Activity.weight] <;> omega
  | storing needPop => cases needPop <;> simp [next, Activity.weight]
  | checking needPop =>
    simp only [next]
    split <;> cases needPop <;> simp [Activity.weight]
  | choosing needPop =>
    cases needPop
    · cases hq : s.callbacks with
      | nil => simp [next, choose, hq, Activity.weight]
      | cons t q => cases hr : s.isReleased <;> simp [next, choose, hq, hr, Activity.weight]
    · rcases hq : s.callbacks with _ | ⟨t, _ | ⟨t', q⟩⟩
      · simp [next, choose, hq, Activity.weight]
      · simp [next, choose, hq, Activity.weight]
      · cases hr : s.isReleased <;> simp [next, choose, hq, hr, Activity.weight]
        all_goals omega
  | chosen current =>
    simp only [next]
    split <;> simp [Activity.weight]
  | running current =>
    simp only [next, runCallback]
    split
    · simp [Activity.weight]
    · split <;> simp [Activity.weight]
  | scheduled context =>
    simp only [next, complete]
    split
    · simp [Activity.weight]
    · split <;> simp [Activity.weight]

/-- A step of a call that goes on lowers the work. -/
theorem work_step {a : Activity} (ha : a ∈ s.calls) (granted : CallbackGrants) :
    (s.step (.advance a granted)).work < s.work := by
  have hsum : (s.calls.map Activity.weight).sum =
      a.weight + ((s.calls.erase a).map Activity.weight).sum := by
    rw [((List.perm_cons_erase ha).map Activity.weight).sum_eq, List.map_cons, List.sum_cons]
  have hlt := next_lt granted s a
  rw [step, if_pos ha, work, work, hsum]
  simp only [List.map_append, List.sum_append]
  omega

/-- The step of a call that goes on. -/
def Advances (s : CallbackManager) : CallbackStep → Prop
  | .add _ _ => False
  | .advance a _ => a ∈ s.calls

theorem length_le_work : ∀ (steps : List CallbackStep) {s : CallbackManager},
    Each step Advances s steps → steps.length ≤ s.work
  | [], _, _ => Nat.zero_le _
  | .add _ _ :: _, _, h => h.1.elim
  | .advance a granted :: steps, s, h => by
    have ih := length_le_work steps h.2
    have hlt := work_step h.1 granted
    rw [List.length_cons]
    omega

/-! ## The invariant -/

/-- What the queue holds for a call that has a callback in hand. -/
def Ready (s : CallbackManager) : Activity → Prop
  | .chosen current | .running current => s.callbacks.head? = some current
  | .scheduled context => ∃ task, s.contexts context = some task ∧
      s.callbacks.head? = some task
  | .storing needPop | .checking needPop | .choosing needPop =>
    needPop = true → s.callbacks ≠ []
  | _ => True

/-- At most one call has started, and `inCalling` is set while it is past its gap. What was added is
what was run followed by the queue, without its front once that was run. While a
callback waits, some call goes on to it. -/
structure Serial (s : CallbackManager) : Prop where
  notReleased : s.isReleased = false
  single : s.calls.countP Activity.started ≤ 1
  ready : ∀ a ∈ s.calls, s.Ready a
  idle : (∀ a ∈ s.calls, a.popping = false) → s.added = s.ran ++ s.callbacks
  popping : ∀ a ∈ s.calls, a.popping = true → s.added = s.ran ++ s.callbacks.tail
  calling : s.inCalling = true ↔ ∃ a ∈ s.calls, a.stored = true
  waiting : s.callbacks ≠ [] → ∃ a ∈ s.calls, a.started = true
  ids : s.added.map Task.id = List.range s.added.length

theorem serial_init : init.Serial where
  notReleased := rfl
  single := Nat.zero_le _
  ready a h := absurd h List.not_mem_nil
  idle _ := rfl
  popping a h := absurd h List.not_mem_nil
  calling := by simp [init]
  waiting h := absurd rfl h
  ids := rfl

theorem started_of_popping {a : Activity} (h : a.popping = true) : a.started = true := by
  cases a <;> simp_all [Activity.popping, Activity.started]

theorem started_of_inHand {a : Activity} (h : a.inHand = true) : a.started = true := by
  cases a <;> simp_all [Activity.inHand, Activity.started]

theorem started_of_stored {a : Activity} (h : a.stored = true) : a.started = true := by
  cases a <;> simp_all [Activity.stored, Activity.started]

/-- A call that has started and not stored `inCalling` is in its gap. -/
theorem eq_storing {a : Activity} (hs : a.started = true) (hn : a.stored = false) :
    a = .storing false := by
  cases a <;> simp_all [Activity.started, Activity.stored]

theorem ready_of_not_started {a : Activity} (h : a.started = false) : s.Ready a := by
  cases a <;> simp_all [Activity.started, Ready]

/-- What a call finds in the queue depends on the queue and the contexts. -/
theorem Ready.congr {s' : CallbackManager} {a : Activity} (h : s.Ready a)
    (hq : s'.callbacks = s.callbacks) (hc : s'.contexts = s.contexts) : s'.Ready a := by
  cases a <;> simp_all [Ready]

/-- A task behind the queue changes nothing for a call. -/
theorem Ready.push {s' : CallbackManager} {a : Activity} (h : s.Ready a) {t : Task}
    (hq : s'.callbacks = s.callbacks ++ [t]) (hc : s'.contexts = s.contexts) : s'.Ready a := by
  cases a with
  | entering _ _ | locking _ _ => trivial
  | storing _ | checking _ | choosing _ => exact fun _ => by simp [hq]
  | chosen current | running current =>
    have hhead : s.callbacks.head? = some current := h
    simp [Ready, hq, hhead]
  | scheduled context =>
    obtain ⟨task, hctx, hhead⟩ := h
    exact ⟨task, hc ▸ hctx, by simp [hq, hhead]⟩

/-- A callback that was run is still in the queue. -/
theorem Ready.ne_nil {a : Activity} (h : s.Ready a) (hp : a.popping = true) :
    s.callbacks ≠ [] := by
  cases a <;> simp_all [Ready, Activity.popping]

theorem mem_calls_iff {a b : Activity} (ha : a ∈ s.calls) :
    b ∈ s.calls ↔ b = a ∨ b ∈ s.calls.erase a := by
  rw [(List.perm_cons_erase ha).mem_iff, List.mem_cons]

theorem countP_calls {a : Activity} (ha : a ∈ s.calls) : s.calls.countP Activity.started =
    (s.calls.erase a).countP Activity.started + if a.started then 1 else 0 := by
  rw [(List.perm_cons_erase ha).countP_eq, List.countP_cons]

/-- The others have not started. -/
theorem Serial.others (h : s.Serial) {a : Activity} (ha : a ∈ s.calls) (hs : a.started = true) :
    ∀ b ∈ s.calls.erase a, b.started = false := by
  have hcount := countP_calls ha
  have hsingle := h.single
  rw [if_pos hs] at hcount
  have hzero : (s.calls.erase a).countP Activity.started = 0 := by omega
  exact fun b hb => by simpa using List.countP_eq_zero.1 hzero b hb

/-- While one call has started, what was added is what was run and what it has not popped. -/
theorem Serial.log (h : s.Serial) {a : Activity} (ha : a ∈ s.calls) (hs : a.started = true) :
    s.added = s.ran ++ if a.popping then s.callbacks.tail else s.callbacks := by
  split
  case isTrue hp => exact h.popping a ha hp
  case isFalse hp =>
    refine h.idle fun b hb => ?_
    rcases (mem_calls_iff ha).1 hb with rfl | hb
    · simpa using hp
    · exact Bool.eq_false_iff.2 fun hb' => by
        simpa [started_of_popping hb'] using h.others ha hs b hb

/-- The flag is set once the one call that has started has stored it. -/
theorem Serial.flag (h : s.Serial) {a : Activity} (ha : a ∈ s.calls) (hs : a.started = true) :
    s.inCalling = a.stored := by
  rw [Bool.eq_iff_iff, h.calling]
  refine ⟨?_, fun hstored => ⟨a, ha, hstored⟩⟩
  rintro ⟨b, hb, hstored⟩
  rcases (mem_calls_iff ha).1 hb with rfl | hb
  · exact hstored
  · simpa [started_of_stored hstored] using h.others ha hs b hb

/-- One call has started. -/
theorem serial_cons {a : Activity} {rest : List Activity} (hreleased : s.isReleased = false)
    (hrest : ∀ b ∈ rest, b.started = false) (hs : a.started = true)
    (hflag : s.inCalling = a.stored) (hready : s.Ready a)
    (hlog : s.added = s.ran ++ if a.popping then s.callbacks.tail else s.callbacks)
    (hids : s.added.map Task.id = List.range s.added.length) :
    Serial { s with calls := a :: rest } := by
  have hzero : rest.countP Activity.started = 0 :=
    List.countP_eq_zero.2 fun b hb => by simp [hrest b hb]
  refine ⟨hreleased, ?_, ?_, ?_, ?_, ?_, fun _ => ⟨a, List.mem_cons_self, hs⟩, hids⟩
  · have hone : (a :: rest).countP Activity.started = 0 + 1 := by
      rw [List.countP_cons, hzero, if_pos hs]
    exact Nat.le_of_eq hone
  · intro b hb
    rcases List.mem_cons.1 hb with rfl | hb
    · exact hready.congr rfl rfl
    · exact ready_of_not_started (hrest b hb)
  · intro hnone
    rw [hlog, hnone a List.mem_cons_self]
    rfl
  · intro b hb hpop
    rcases List.mem_cons.1 hb with rfl | hb
    · rw [hlog, if_pos hpop]
    · exact absurd (started_of_popping hpop) (by simp [hrest b hb])
  · show s.inCalling = true ↔ _
    rw [hflag]
    refine ⟨fun hstored => ⟨a, List.mem_cons_self, hstored⟩, ?_⟩
    rintro ⟨b, hb, hstored⟩
    rcases List.mem_cons.1 hb with rfl | hb
    · exact hstored
    · exact absurd (started_of_stored hstored) (by simp [hrest b hb])

/-- The one call that had started ends with the queue empty. -/
theorem serial_end {rest : List Activity} (hreleased : s.isReleased = false)
    (hrest : ∀ b ∈ rest, b.started = false) (hnil : s.callbacks = []) (hlog : s.added = s.ran)
    (hids : s.added.map Task.id = List.range s.added.length) :
    Serial { s with inCalling := false, calls := rest } := by
  refine ⟨hreleased, ?_, fun b hb => ready_of_not_started (hrest b hb), ?_, ?_, ?_, ?_, hids⟩
  · rw [List.countP_eq_zero.2 fun b hb => by simp [hrest b hb]]
    exact Nat.zero_le 1
  · intro _
    rw [hlog, hnil, List.append_nil]
  · intro b hb hpop
    exact absurd (started_of_popping hpop) (by simp [hrest b hb])
  · refine ⟨fun h => absurd h (by simp), ?_⟩
    rintro ⟨b, hb, hstored⟩
    exact absurd (started_of_stored hstored) (by simp [hrest b hb])
  · intro h
    exact absurd hnil h

/-! ## What a step keeps -/

/-- The block of `Add` under the lock does not find `inCalling` not set while another call that
found it so has not stored it. `RunCallback` and the completion of its work get what they ask
for. -/
def Orderly (s : CallbackManager) : CallbackStep → Prop
  | .add _ _ => True
  | .advance (.locking _ _) _ => s.inCalling = false → .storing false ∉ s.calls
  | .advance (.running _) granted => granted.uvLoop = true ∧ granted.work = true
  | .advance (.scheduled _) granted => granted.scope = true
  | .advance _ _ => True

instance (s : CallbackManager) : ∀ l, Decidable (s.Orderly l)
  | .add _ _ => isTrue trivial
  | .advance (.locking _ _) _ =>
    inferInstanceAs (Decidable (s.inCalling = false → .storing false ∉ s.calls))
  | .advance (.running _) granted =>
    inferInstanceAs (Decidable (granted.uvLoop = true ∧ granted.work = true))
  | .advance (.scheduled _) granted => inferInstanceAs (Decidable (granted.scope = true))
  | .advance (.entering _ _) _ | .advance (.storing _) _ | .advance (.checking _) _
  | .advance (.choosing _) _ | .advance (.chosen _) _ => isTrue trivial

/-- Calls that have not started come and go. -/
theorem Serial.congr (h : s.Serial) {calls' : List Activity}
    (hcalls : ∀ b, b.started = true → (b ∈ calls' ↔ b ∈ s.calls))
    (hcount : calls'.countP Activity.started = s.calls.countP Activity.started) :
    Serial { s with calls := calls' } := by
  refine ⟨h.notReleased, hcount ▸ h.single, fun b hb => ?_, fun hnone => ?_,
    fun b hb hp => ?_, ?_, fun hne => ?_, h.ids⟩
  · by_cases hs : b.started = true
    · exact (h.ready b ((hcalls b hs).1 hb)).congr rfl rfl
    · exact ready_of_not_started (by simpa using hs)
  · refine h.idle fun b hb => Bool.eq_false_iff.2 fun hp => ?_
    simp [hnone b ((hcalls b (started_of_popping hp)).2 hb)] at hp
  · exact h.popping b ((hcalls b (started_of_popping hp)).1 hb) hp
  · refine h.calling.trans (exists_congr fun b => and_congr_left fun hstored => ?_)
    exact (hcalls b (started_of_stored hstored)).symm
  · obtain ⟨b, hb, hs⟩ := h.waiting hne
    exact ⟨b, (hcalls b hs).2 hb, hs⟩

/-- A call of `Add` begins. -/
theorem Serial.add (h : s.Serial) (context callback : ℕ) :
    (s.step (.add context callback)).Serial := by
  refine h.congr (fun b hs => ?_) (by simp [Activity.started])
  rw [List.mem_cons]
  refine or_iff_right ?_
  rintro rfl
  simp [Activity.started] at hs

/-- A call that has not started is gone. -/
theorem Serial.erase (h : s.Serial) {a : Activity} (ha : a ∈ s.calls) (hs : a.started = false) :
    Serial { s with calls := s.calls.erase a } := by
  refine h.congr (fun b hb => ?_) ?_
  · rw [mem_calls_iff ha]
    refine (or_iff_right ?_).symm
    rintro rfl
    simp [hs] at hb
  · rw [countP_calls ha, hs, if_neg Bool.false_ne_true, add_zero]

/-- A call of `Add` goes on to the lock. -/
theorem Serial.enter (h : s.Serial) {context callback : ℕ}
    (ha : .entering context callback ∈ s.calls) : Serial { s with
      calls := .locking context callback :: s.calls.erase (.entering context callback) } := by
  refine (h.erase ha rfl).congr (fun b hs => ?_) (by simp [Activity.started])
  rw [List.mem_cons]
  refine or_iff_right ?_
  rintro rfl
  simp [Activity.started] at hs

/-- A task is put behind the queue while another call goes on. -/
theorem Serial.enqueue (h : s.Serial) (hset : s.inCalling = true) {t : Task}
    (hid : t.id = s.added.length) :
    Serial { s with callbacks := s.callbacks ++ [t], added := s.added ++ [t] } := by
  obtain ⟨a, ha, hstored⟩ := h.calling.1 hset
  refine ⟨h.notReleased, h.single, fun b hb => (h.ready b hb).push rfl rfl, fun hnone => ?_,
    fun b hb hp => ?_, h.calling, fun _ => ⟨a, ha, started_of_stored hstored⟩, ?_⟩
  · rw [h.idle hnone, List.append_assoc]
  · rw [List.tail_append_of_ne_nil ((h.ready b hb).ne_nil hp), ← List.append_assoc,
      ← h.popping b hb hp]
  · rw [List.map_append, h.ids, List.length_append, List.length_singleton, List.range_succ,
      List.map_singleton, hid]

/-- The task of the first call that finds `inCalling` not set is the only one. -/
theorem Serial.first (h : s.Serial) (hnot : s.inCalling = false)
    (hgap : .storing false ∉ s.calls) :
    (∀ a ∈ s.calls, a.started = false) ∧ s.callbacks = [] ∧ s.added = s.ran := by
  have hnone : ∀ a ∈ s.calls, a.started = false := fun a ha =>
    Bool.eq_false_iff.2 fun hs => by
      have hstored : a.stored = false := Bool.eq_false_iff.2 fun hstored => by
        simp [h.calling.2 ⟨a, ha, hstored⟩] at hnot
      exact hgap (eq_storing hs hstored ▸ ha)
  have hnil : s.callbacks = [] := by
    by_contra hne
    obtain ⟨a, ha, hs⟩ := h.waiting hne
    simp [hnone a ha] at hs
  refine ⟨hnone, hnil, ?_⟩
  rw [h.idle fun a ha => Bool.eq_false_iff.2 fun hp => by
    simpa [started_of_popping hp] using hnone a ha, hnil, List.append_nil]

/-- The block of `Add` under the lock. -/
theorem Serial.emplace (h : s.Serial) {context callback : ℕ}
    (ha : .locking context callback ∈ s.calls)
    (hgap : s.inCalling = false → .storing false ∉ s.calls) :
    Serial { (s.emplace context callback).2 with
      calls := (s.emplace context callback).1.toList ++
        s.calls.erase (.locking context callback) } := by
  by_cases hset : s.inCalling = true
  · simp only [CallbackManager.emplace, if_pos hset, Option.toList_none, List.nil_append]
    exact (h.erase ha rfl).enqueue hset rfl
  · have hnot : s.inCalling = false := by simpa using hset
    obtain ⟨hnone, hnil, hlog⟩ := h.first hnot (hgap hnot)
    simp only [CallbackManager.emplace, if_neg hset, Option.toList_some, List.singleton_append]
    refine serial_cons (a := .storing false) (s := { s with
      callbacks := s.callbacks ++ [⟨s.added.length, context, callback⟩]
      added := s.added ++ [⟨s.added.length, context, callback⟩] }) h.notReleased
      (fun b hb => hnone b (List.mem_of_mem_erase hb)) rfl hnot (fun hfalse => by simp at hfalse)
      ?_ ?_
    · simp [Activity.popping, hlog, hnil]
    · rw [List.map_append, h.ids, List.length_append, List.length_singleton, List.range_succ,
        List.map_singleton]

/-- The call that has started goes on, with the same callback in hand. -/
theorem Serial.go (h : s.Serial) {a : Activity} (ha : a ∈ s.calls) (a' : Activity)
    (hs : a.started = true) (hs' : a'.started = true) (hpop : a'.popping = a.popping)
    (hstored : a'.stored = a.stored) (hready : s.Ready a') :
    Serial { s with calls := a' :: s.calls.erase a } :=
  serial_cons h.notReleased (h.others ha hs) hs' ((h.flag ha hs).trans hstored.symm) hready
    (hpop ▸ h.log ha hs) h.ids

/-- The call that has started stores `inCalling`. -/
theorem Serial.store (h : s.Serial) {needPop : Bool} (ha : .storing needPop ∈ s.calls) :
    Serial { s with
      inCalling := true
      calls := .checking needPop :: s.calls.erase (.storing needPop) } :=
  have hlog : s.added = s.ran ++ if needPop then s.callbacks.tail else s.callbacks := h.log ha rfl
  serial_cons (s := { s with inCalling := true }) h.notReleased (h.others ha rfl) rfl rfl
    (h.ready (.storing needPop) ha) hlog h.ids

/-- The front is taken, and what was run is popped before. -/
theorem Serial.choose (h : s.Serial) {needPop : Bool} (ha : .choosing needPop ∈ s.calls) :
    Serial { (s.choose needPop).2 with
      calls := (s.choose needPop).1.toList ++ s.calls.erase (.choosing needPop) } := by
  have hrest := h.others ha rfl
  have hset : s.inCalling = true := h.flag ha rfl
  have hlog : s.added = s.ran ++ if needPop then s.callbacks.tail else s.callbacks := h.log ha rfl
  have hqueue : (if needPop then { s with callbacks := s.callbacks.tail } else s) =
      { s with callbacks := if needPop then s.callbacks.tail else s.callbacks } := by
    cases needPop <;> rfl
  rw [CallbackManager.choose, hqueue]
  generalize (if needPop then s.callbacks.tail else s.callbacks) = queue at hlog
  cases queue with
  | nil =>
    exact serial_end (s := { s with callbacks := [] }) h.notReleased hrest rfl
      (hlog.trans (List.append_nil _)) h.ids
  | cons t queue =>
    have hreleased : ¬s.isReleased = true := by simp [h.notReleased]
    simp only [if_neg hreleased]
    exact serial_cons (s := { s with callbacks := t :: queue }) (a := .chosen t) h.notReleased
      hrest rfl hset rfl hlog h.ids

/-- The callback goes to its context. -/
theorem Serial.runCallback (h : s.Serial) {t : Task} (ha : .running t ∈ s.calls) :
    Serial { s with
      contexts := Function.update s.contexts t.context (some t)
      calls := .scheduled t.context :: s.calls.erase (.running t) } :=
  have hset : s.inCalling = true := h.flag ha rfl
  have hlog : s.added = s.ran ++ s.callbacks := h.log ha rfl
  serial_cons (s := { s with contexts := Function.update s.contexts t.context (some t) })
    h.notReleased (h.others ha rfl) rfl hset
    ⟨t, Function.update_self _ _ _, h.ready (.running t) ha⟩ hlog h.ids

/-- The front is run. -/
theorem Serial.complete (h : s.Serial) {context : ℕ} (ha : .scheduled context ∈ s.calls)
    {granted : CallbackGrants} (hscope : granted.scope = true) :
    Serial { (s.complete context granted).2 with
      calls := (s.complete context granted).1.toList ++ s.calls.erase (.scheduled context) } := by
  obtain ⟨t, hctx, ht⟩ := h.ready (.scheduled context) ha
  obtain ⟨queue, hqueue⟩ := List.head?_eq_some_iff.1 ht
  have hset : s.inCalling = true := h.flag ha rfl
  have hlog : s.added = s.ran ++ s.callbacks := h.log ha rfl
  simp only [CallbackManager.complete, hscope, hctx, Bool.not_true, Bool.false_eq_true, if_false]
  refine serial_cons (s := { s with ran := s.ran ++ [t] }) (a := .storing true) h.notReleased
    (h.others ha rfl) rfl hset ?_ ?_ h.ids
  · exact fun _ => by simp [hqueue]
  · simp [hlog, hqueue, Activity.popping]

theorem Serial.advance (h : s.Serial) {a : Activity} (ha : a ∈ s.calls) {granted : CallbackGrants}
    (horderly : s.Orderly (.advance a granted)) :
    Serial { (s.next granted a).2 with
      calls := (s.next granted a).1.toList ++ s.calls.erase a } := by
  have hreleased : ¬s.isReleased = true := by simp [h.notReleased]
  cases a with
  | entering context callback =>
    simp only [next, if_neg hreleased]
    exact h.enter ha
  | locking context callback => exact h.emplace ha horderly
  | storing needPop => exact h.store ha
  | checking needPop =>
    simp only [next, if_neg hreleased]
    exact h.go ha (.choosing needPop) rfl rfl rfl rfl (h.ready (.checking needPop) ha)
  | choosing needPop => exact h.choose ha
  | chosen current =>
    simp only [next, if_neg hreleased]
    exact h.go ha (.running current) rfl rfl rfl rfl (h.ready (.chosen current) ha)
  | running current =>
    obtain ⟨huvLoop, hwork⟩ := horderly
    simp only [next, CallbackManager.runCallback, huvLoop, hwork, Bool.not_true,
      Bool.false_eq_true, if_false]
    exact h.runCallback ha
  | scheduled context => exact h.complete ha horderly

theorem Serial.step (h : s.Serial) {l : CallbackStep} (hl : s.Orderly l) : (s.step l).Serial := by
  cases l with
  | add context callback => exact h.add context callback
  | advance a granted =>
    by_cases ha : a ∈ s.calls
    · rw [CallbackManager.step, if_pos ha]
      exact h.advance ha hl
    · rw [CallbackManager.step, if_neg ha]
      exact h

/-! ## Runs -/

/-- One callback at a time is in hand, and what was run was run once and in the order it was added.
When no call is going on, everything was run, and the queue is empty and not in use. -/
structure InOrder (s : CallbackManager) : Prop where
  single : s.calls.countP Activity.inHand ≤ 1
  ordered : s.ran <+: s.added
  once : s.added.Nodup
  quiescent : s.calls = [] → s.ran = s.added ∧ s.callbacks = [] ∧ s.inCalling = false

theorem Serial.inOrder (h : s.Serial) : s.InOrder := by
  refine ⟨?_, ?_, ?_, fun hcalls => ?_⟩
  · exact Nat.le_trans (List.countP_mono_left fun a _ => started_of_inHand) h.single
  · by_cases hpop : ∃ a ∈ s.calls, a.popping = true
    · obtain ⟨a, ha, hp⟩ := hpop
      exact ⟨_, (h.popping a ha hp).symm⟩
    · refine ⟨_, (h.idle fun a ha => ?_).symm⟩
      exact Bool.eq_false_iff.2 fun hp => hpop ⟨a, ha, hp⟩
  · exact List.Nodup.of_map Task.id (by rw [h.ids]; exact List.nodup_range)
  · have hnil : s.callbacks = [] := by
      by_contra hne
      obtain ⟨a, ha, -⟩ := h.waiting hne
      simp [hcalls] at ha
    refine ⟨?_, hnil, Bool.eq_false_iff.2 fun hset => ?_⟩
    · rw [h.idle (by simp [hcalls]), hnil, List.append_nil]
    · obtain ⟨a, ha, -⟩ := h.calling.1 hset
      simp [hcalls] at ha

/-- In every run in which no call finds `inCalling` not set while another has still to store it, and
nothing is refused, the callbacks run one at a time, once and in order, and the calls
come to an end. -/
theorem serial_run {steps : List CallbackStep} (h : Each step Orderly .init steps) :
    Each step (fun s l => (s.step l).InOrder) .init steps ∧
      ∀ more, Each step Advances (exec step .init steps) more →
        more.length ≤ (exec step .init steps).work := by
  have hrun : Each step (fun s l => (s.step l).InOrder) .init steps :=
    each_of_invariant (fun _ _ hs hl => (hs.step hl).inOrder) (fun _ _ hs hl => hs.step hl) steps
      serial_init h
  exact ⟨hrun, fun more => length_le_work more⟩

/-- Two callbacks, the second of which is added while the first is scheduled, until both were run
and no call is left. -/
theorem serial_run_two :
    let all : CallbackGrants := ⟨true, true, true⟩
    let steps : List CallbackStep := [.add 1 5, .advance (.entering 1 5) all,
      .advance (.locking 1 5) all, .advance (.storing false) all, .advance (.checking false) all,
      .advance (.choosing false) all, .advance (.chosen ⟨0, 1, 5⟩) all,
      .advance (.running ⟨0, 1, 5⟩) all, .add 2 6, .advance (.entering 2 6) all,
      .advance (.locking 2 6) all, .advance (.scheduled 1) all, .advance (.storing true) all,
      .advance (.checking true) all, .advance (.choosing true) all,
      .advance (.chosen ⟨1, 2, 6⟩) all, .advance (.running ⟨1, 2, 6⟩) all,
      .advance (.scheduled 2) all, .advance (.storing true) all, .advance (.checking true) all,
      .advance (.choosing true) all]
    ((exec step .init steps).ran = [⟨0, 1, 5⟩, ⟨1, 2, 6⟩] ∧ (exec step .init steps).calls = []) ∧
      Each step (fun s l => (s.step l).InOrder) .init steps ∧
      ∀ more, Each step Advances (exec step .init steps) more →
        more.length ≤ (exec step .init steps).work :=
  ⟨by decide, serial_run (by decide)⟩

/-- Two calls of `Add` that both find `inCalling` not set take the same front, which is run
twice. -/
theorem not_serial_run :
    let all : CallbackGrants := ⟨true, true, true⟩
    let both (a : Activity) : List CallbackStep := [.advance a all, .advance a all]
    let s := exec step .init ([.add 1 5, .add 2 6, .advance (.entering 1 5) all,
      .advance (.entering 2 6) all, .advance (.locking 1 5) all, .advance (.locking 2 6) all] ++
      both (.storing false) ++ both (.checking false) ++ both (.choosing false) ++
      both (.chosen ⟨0, 1, 5⟩) ++ both (.running ⟨0, 1, 5⟩) ++ both (.scheduled 1))
    s.ran = [⟨0, 1, 5⟩, ⟨0, 1, 5⟩] ∧ s.added = [⟨0, 1, 5⟩, ⟨1, 2, 6⟩] ∧ ¬s.InOrder := by
  refine ⟨by decide, by decide, fun h => ?_⟩
  exact absurd h.single (by decide)

end CallbackManager

end HiSysEvent
