import Mathlib.Data.List.Basic

/-!
# Runs

A run feeds a list of inputs to a step function, one after another. `exec` is the state
it ends in, `Each P` says that `P` holds of every step's state and input. What every step
keeps holds at the end (`exec_of_invariant`). What a guard gives wherever an invariant holds
that the guarded steps keep, it gives over runs (`each_of_invariant`), so two properties that
agree there agree over runs (`each_congr`).
-/

namespace Run

variable {σ α : Type} {step : σ → α → σ}

/-- The state after the inputs. -/
def exec (step : σ → α → σ) : σ → List α → σ
  | s, [] => s
  | s, a :: as => exec step (step s a) as

theorem exec_append : ∀ (pre post : List α) (s : σ),
    exec step s (pre ++ post) = exec step (exec step s pre) post
  | [], _, _ => rfl
  | a :: pre, post, s => exec_append pre post (step s a)

/-- `P` holds of the state and the input of every step. -/
def Each (step : σ → α → σ) (P : σ → α → Prop) : σ → List α → Prop
  | _, [] => True
  | s, a :: as => P s a ∧ Each step P (step s a) as

instance decidableEach (P : σ → α → Prop) [∀ s a, Decidable (P s a)] :
    ∀ (as : List α) (s : σ), Decidable (Each step P s as)
  | [], _ => isTrue trivial
  | a :: as, s =>
    have := decidableEach P as (step s a)
    inferInstanceAs (Decidable (P s a ∧ Each step P (step s a) as))

/-- What every step keeps holds at the end. -/
theorem exec_of_invariant {I : σ → Prop} (hstep : ∀ s a, I s → I (step s a)) :
    ∀ (as : List α) {s : σ}, I s → I (exec step s as)
  | [], _, hs => hs
  | a :: as, s, hs => exec_of_invariant hstep as (hstep s a hs)

/-- What the guard gives wherever the invariant holds, it gives over runs. -/
theorem each_of_invariant {P Q : σ → α → Prop} {I : σ → Prop} (h : ∀ s a, I s → P s a → Q s a)
    (hstep : ∀ s a, I s → P s a → I (step s a)) :
    ∀ (as : List α) {s : σ}, I s → Each step P s as → Each step Q s as
  | [], _, _, _ => trivial
  | a :: as, s, hs, hrun =>
    ⟨h s a hs hrun.1, each_of_invariant h hstep as (hstep s a hs hrun.1) hrun.2⟩

/-- Properties that agree wherever the invariant holds agree over runs. -/
theorem each_congr {P Q : σ → α → Prop} {I : σ → Prop} (h : ∀ s a, I s → (P s a ↔ Q s a))
    (hstep : ∀ s a, I s → Q s a → I (step s a)) (as : List α) {s : σ} (hs : I s) :
    Each step P s as ↔ Each step Q s as :=
  ⟨each_of_invariant (fun s a hs => (h s a hs).1)
      (fun s a hs hP => hstep s a hs ((h s a hs).1 hP)) as hs,
    each_of_invariant (fun s a hs => (h s a hs).2) hstep as hs⟩

end Run
