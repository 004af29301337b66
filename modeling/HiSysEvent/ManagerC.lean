import HiSysEvent.QueryRule
import HiSysEvent.WatcherRegistry

/-!
# The C watchers

`OH_HiSysEvent_Add_Watcher` registers a new listener for the two callbacks of the watcher and
puts it into the map `watchers`, `OH_HiSysEvent_Remove_Watcher` removes the one that is
in the map. After the checks both are the operations of the registry
(`ohAddWatcher_checked`, `ohRemoveWatcher_cases`).
-/

set_option linter.unusedSectionVars false

namespace HiSysEvent

open Run

abbrev maxLengthOfEventTag : ℕ := 85
abbrev maxWatchRuleCnt : ℕ := 20

/-! ## Rules -/

/-- `HiSysEventWatchRule`, with the C strings in arrays of fixed length. -/
structure HiSysEventWatchRule where
  domain : CharArray maxLengthOfEventDomain
  name : CharArray maxLengthOfEventName
  tag : CharArray maxLengthOfEventTag
  ruleType : Int32
  eventType : Int32

/-- The rule made of an element of `rules`. -/
def HiSysEventWatchRule.listenerRule (rule : HiSysEventWatchRule) : ListenerRule :=
  ⟨cString rule.domain.1, cString rule.name.1, cString rule.tag.1, rule.ruleType.toUInt32,
    rule.eventType.toUInt32⟩

/-- The first `ruleSize` elements behind a pointer. -/
def listenerRules (rules : ℕ → HiSysEventWatchRule) (ruleSize : ℕ) : List ListenerRule :=
  (List.range ruleSize).map fun i => (rules i).listenerRule

/-! ## Watchers -/

/-- The two functions of a watcher, which may be null. -/
structure HiSysEventWatcher where
  onEvent : Option ℕ
  onServiceDied : Option ℕ
  deriving DecidableEq

/-- A listener has the two functions as well, and they are the key in the map. -/
abbrev HiSysEventListenerC := HiSysEventWatcher

/-- The map `watchers` with what is registered for it. -/
abbrev WatchersC := WatcherRegistry HiSysEventListenerC HiSysEventWatcher

/-- `HiSysEventAddWatcher`, which checks the number of rules and the pointer before it adds. -/
def hiSysEventAddWatcher (watcher : HiSysEventWatcher)
    (rules : Option (ℕ → HiSysEventWatchRule)) (ruleSize : ℕ) (r : ServiceResult)
    (s : WatchersC) : ℤ × WatchersC :=
  if ruleSize > maxWatchRuleCnt then (errTooManyWatchRules, s)
  else
    match rules with
    | none =>
      if ruleSize > 0 then (errInvalidRules, s)
      else s.add watcher watcher [] r
    | some rules => s.add watcher watcher (listenerRules rules ruleSize) r

/-- `HiSysEventRemoveWatcher`. -/
def hiSysEventRemoveWatcher (watcher : HiSysEventWatcher) (r : ServiceResult) (s : WatchersC) :
    ℤ × WatchersC :=
  s.remove watcher r

/-- `OH_HiSysEvent_Add_Watcher`. -/
def ohAddWatcher (watcher : Option HiSysEventWatcher)
    (rules : Option (ℕ → HiSysEventWatchRule)) (ruleSize : ℕ) (r : ServiceResult)
    (s : WatchersC) : ℤ × WatchersC :=
  match watcher with
  | none => (errListenerNotExist, s)
  | some w =>
    if w.onEvent = none ∨ w.onServiceDied = none then (errListenerNotExist, s)
    else hiSysEventAddWatcher w rules ruleSize r s

/-- `OH_HiSysEvent_Remove_Watcher`. -/
def ohRemoveWatcher (watcher : Option HiSysEventWatcher) (r : ServiceResult) (s : WatchersC) :
    ℤ × WatchersC :=
  match watcher with
  | none => (errListenerNotExist, s)
  | some w =>
    if w.onEvent = none ∨ w.onServiceDied = none then (errListenerNotExist, s)
    else hiSysEventRemoveWatcher w r s

/-! ## What the calls do -/

/-- The watcher has both functions, and there are no more than 20 rules and as many as it says. -/
structure HiSysEventWatcher.Checked (w : HiSysEventWatcher)
    (rules : Option (ℕ → HiSysEventWatchRule)) (ruleSize : ℕ) : Prop where
  onEvent : w.onEvent ≠ none
  onServiceDied : w.onServiceDied ≠ none
  ruleSize_le : ruleSize ≤ maxWatchRuleCnt
  rules : rules = none → ruleSize = 0

/-- A watcher that is checked is added to the registry. -/
theorem ohAddWatcher_checked {w : HiSysEventWatcher} {rules : Option (ℕ → HiSysEventWatchRule)}
    {ruleSize : ℕ} (h : w.Checked rules ruleSize) (r : ServiceResult) (s : WatchersC) :
    ∃ listenerRules, ohAddWatcher (some w) rules ruleSize r s = s.add w w listenerRules r := by
  have hfunctions : ohAddWatcher (some w) rules ruleSize r s =
      hiSysEventAddWatcher w rules ruleSize r s := if_neg (not_or.2 ⟨h.onEvent, h.onServiceDied⟩)
  rw [hfunctions]
  unfold hiSysEventAddWatcher
  rw [if_neg (not_lt.2 h.ruleSize_le)]
  cases rules with
  | none => exact ⟨[], if_neg (Nat.not_lt.2 (h.rules rfl).le)⟩
  | some rules => exact ⟨listenerRules rules ruleSize, rfl⟩

/-- Another one is rejected. -/
theorem ohAddWatcher_rejected {watcher : Option HiSysEventWatcher}
    {rules : Option (ℕ → HiSysEventWatchRule)} {ruleSize : ℕ}
    (h : ∀ w, watcher = some w → ¬w.Checked rules ruleSize) (r : ServiceResult) (s : WatchersC) :
    ∃ ret, ret ≠ ipcCallSucceed ∧ ohAddWatcher watcher rules ruleSize r s = (ret, s) := by
  cases watcher with
  | none => exact ⟨errListenerNotExist, by decide, rfl⟩
  | some w =>
    by_cases hnull : w.onEvent = none ∨ w.onServiceDied = none
    · exact ⟨errListenerNotExist, by decide, if_pos hnull⟩
    · obtain ⟨hevent, hdied⟩ := not_or.1 hnull
      have hfunctions : ohAddWatcher (some w) rules ruleSize r s =
          hiSysEventAddWatcher w rules ruleSize r s := if_neg hnull
      rw [hfunctions]
      unfold hiSysEventAddWatcher
      by_cases hmany : ruleSize > maxWatchRuleCnt
      · exact ⟨errTooManyWatchRules, by decide, if_pos hmany⟩
      · rw [if_neg hmany]
        cases rules with
        | none =>
          refine ⟨errInvalidRules, by decide, if_pos (Nat.pos_of_ne_zero fun hsize => ?_)⟩
          exact h w rfl ⟨hevent, hdied, not_lt.1 hmany, fun _ => hsize⟩
        | some rules => exact absurd ⟨hevent, hdied, not_lt.1 hmany, nofun⟩ (h w rfl)

theorem ohRemoveWatcher_cases (watcher : Option HiSysEventWatcher) (r : ServiceResult)
    (s : WatchersC) :
    (∃ ret, ret ≠ ipcCallSucceed ∧ ohRemoveWatcher watcher r s = (ret, s)) ∨
      ∃ w, watcher = some w ∧ ohRemoveWatcher watcher r s = s.remove w r := by
  cases watcher with
  | none => exact Or.inl ⟨errListenerNotExist, by decide, rfl⟩
  | some w =>
    by_cases hnull : w.onEvent = none ∨ w.onServiceDied = none
    · exact Or.inl ⟨errListenerNotExist, by decide, if_pos hnull⟩
    · exact Or.inr ⟨w, rfl, if_neg hnull⟩

/-! ## Runs -/

/-- A call with what the service answers. -/
inductive WatcherCallC
  | add (watcher : Option HiSysEventWatcher) (rules : Option (ℕ → HiSysEventWatchRule))
    (ruleSize : ℕ) (r : ServiceResult)
  | remove (watcher : Option HiSysEventWatcher) (r : ServiceResult)

namespace WatcherCallC

/-- The call run, with its code. -/
def call (s : WatchersC) : WatcherCallC → ℤ × WatchersC
  | .add watcher rules ruleSize r => ohAddWatcher watcher rules ruleSize r s
  | .remove watcher r => ohRemoveWatcher watcher r s

/-- The watchers after the call. -/
def step (s : WatchersC) (c : WatcherCallC) : WatchersC :=
  (c.call s).2

/-- No registered stub is lost, and none delivers to a watcher that was removed. -/
structure KeepsStubs (s : WatchersC) (c : WatcherCallC) : Prop where
  losesNone : (step s c).LosesNone
  silent : ∀ w r, c = .remove (some w) r → (c.call s).1 = ipcCallSucceed →
    (step s c).Silent id w

/-- A watcher that passes the checks and is answered with success is not in the map. -/
def AddsNew (s : WatchersC) (c : WatcherCallC) : Prop :=
  ∀ w rules ruleSize, c = .add (some w) rules ruleSize (.returns ipcCallSucceed) →
    w.Checked rules ruleSize → s.watchers w = none

variable {s : WatchersC}

theorem step_consistent (h : s.Consistent id) {c : WatcherCallC} (hc : AddsNew s c) :
    (step s c).Consistent id := by
  cases c with
  | add watcher rules ruleSize r =>
    by_cases hchecked : ∃ w, watcher = some w ∧ w.Checked rules ruleSize
    · obtain ⟨w, rfl, hchecked⟩ := hchecked
      obtain ⟨listenerRules, hcall⟩ := ohAddWatcher_checked hchecked r s
      rw [step, call, hcall]
      refine h.keep_add rfl listenerRules r ?_
      rintro rfl
      exact hc w rules ruleSize rfl hchecked
    · obtain ⟨ret, -, hcall⟩ := ohAddWatcher_rejected
        (fun w hw hw' => hchecked ⟨w, hw, hw'⟩) r s
      rw [step, call, hcall]
      exact h
  | remove watcher r =>
    obtain ⟨ret, -, hcall⟩ | ⟨w, rfl, hcall⟩ := ohRemoveWatcher_cases watcher r s
    · rw [step, call, hcall]
      exact h
    · rw [step, call, hcall]
      exact h.keep_removed w r

theorem keepsStubs_iff (h : s.Consistent id) (c : WatcherCallC) :
    KeepsStubs s c ↔ AddsNew s c := by
  constructor
  · rintro ⟨hloses, -⟩ w rules ruleSize rfl hchecked
    obtain ⟨listenerRules, hcall⟩ := ohAddWatcher_checked hchecked (.returns ipcCallSucceed) s
    rw [step, call, hcall] at hloses
    exact (h.losesNone_add_iff rfl listenerRules _).1 hloses rfl
  · intro hc
    refine ⟨(step_consistent h hc).losesNone, ?_⟩
    rintro w r rfl hret
    obtain ⟨ret, hne, hcall⟩ | ⟨w', hw, hcall⟩ := ohRemoveWatcher_cases (some w) r s
    · rw [call, hcall] at hret
      exact absurd hret hne
    · obtain rfl := Option.some.inj hw
      rw [call, hcall] at hret
      rw [step, call, hcall]
      exact h.silent hret

theorem keepsStubs_each_iff (calls : List WatcherCallC) :
    Each step KeepsStubs .init calls ↔ Each step AddsNew .init calls := by
  refine each_congr (I := fun s : WatchersC => s.Consistent id)
    (fun _ c h => keepsStubs_iff h c) (fun _ _ h hc => step_consistent h hc) calls ?_
  exact WatcherRegistry.consistent_init id

end WatcherCallC

end HiSysEvent
