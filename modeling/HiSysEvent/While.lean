import Mathlib.Logic.Basic
import Mathlib.Order.Basic

/-!
# Programs with loops

A program works on a state and returns a value. A loop runs its body until the body is
done, and is given a number of rounds : a program that uses them up has no result.

`Ends m s Q` is total correctness. From `s` the program `m` has a result, and `Q` holds of
the value and the state it ends in. There is one rule for each way to build a program ;
the rule for loops (`Ends.loop`) takes an invariant and a measure that each round lowers,
and needs more rounds than the measure at the start.
-/

namespace While

variable {σ α β ρ : Type}

/-- A program on states `σ`. -/
abbrev Program (σ α : Type) :=
  StateT σ Option α

/-- How a round of a loop ends : with the locals of the next round, or with the result. -/
inductive Flow (α β : Type)
  | next (x : α)
  | done (b : β)

/-- A loop with its locals, of at most `fuel` rounds. -/
def loop (body : α → Program σ (Flow α β)) : ℕ → α → Program σ β
  | 0, _ => fun _ => none
  | fuel + 1, x => do
    match ← body x with
    | .next x => loop body fuel x
    | .done b => pure b

/-! ## Total correctness -/

/-- From `s` the program ends, with `Q` of its value and its state. -/
def Ends (m : Program σ α) (s : σ) (Q : α → σ → Prop) : Prop :=
  ∃ a s', m.run s = some (a, s') ∧ Q a s'

namespace Ends

variable {m : Program σ α} {s : σ} {Q : α → σ → Prop}

theorem mono {Q' : α → σ → Prop} (h : Ends m s Q) (hQ : ∀ a s', Q a s' → Q' a s') :
    Ends m s Q' := by
  obtain ⟨a, s', hm, hq⟩ := h
  exact ⟨a, s', hm, hQ a s' hq⟩

theorem pure {a : α} (h : Q a s) : Ends (pure a : Program σ α) s Q :=
  ⟨a, s, rfl, h⟩

theorem bind {m : Program σ β} {f : β → Program σ α} (h : Ends m s fun b s' => Ends (f b) s' Q) :
    Ends (m >>= f) s Q := by
  obtain ⟨b, s', hm, a, s'', hf, hq⟩ := h
  exact ⟨a, s'', by rw [StateT.run_bind, hm]; exact hf, hq⟩

theorem map {m : Program σ β} {f : β → α} (h : Ends m s fun b s' => Q (f b) s') :
    Ends (f <$> m) s Q := by
  obtain ⟨b, s', hm, hq⟩ := h
  exact ⟨f b, s', by rw [StateT.run_map, hm]; rfl, hq⟩

theorem get {Q : σ → σ → Prop} (h : Q s s) : Ends (get : Program σ σ) s Q :=
  ⟨s, s, rfl, h⟩

theorem modify {f : σ → σ} {Q : Unit → σ → Prop} (h : Q () (f s)) :
    Ends (modify f : Program σ Unit) s Q :=
  ⟨(), f s, rfl, h⟩

theorem ite {c : Prop} [Decidable c] {m₁ m₂ : Program σ α} (h₁ : c → Ends m₁ s Q)
    (h₂ : ¬c → Ends m₂ s Q) : Ends (if c then m₁ else m₂) s Q := by
  split_ifs with hc
  · exact h₁ hc
  · exact h₂ hc

/-- A loop ends if every round keeps the invariant and lowers the measure, or is done. -/
theorem loop {body : α → Program σ (Flow α β)} {Q : β → σ → Prop} (I : α → σ → Prop)
    (μ : α → σ → ℕ)
    (hbody : ∀ x s, I x s → Ends (body x) s fun r s' =>
      match r with
      | .next x' => I x' s' ∧ μ x' s' < μ x s
      | .done b => Q b s') :
    ∀ (fuel : ℕ) {x : α} {s : σ}, I x s → μ x s < fuel → Ends (loop body fuel x) s Q
  | 0, _, _, _, h => absurd h (Nat.not_lt_zero _)
  | fuel + 1, x, s, hI, hμ => by
    refine bind ((hbody x s hI).mono ?_)
    intro r s' hr
    cases r with
    | next x' => exact loop I μ hbody fuel hr.1 (Nat.lt_of_lt_of_le hr.2 (Nat.lt_succ_iff.1 hμ))
    | done b => exact pure hr

end Ends

end While
