import Mathlib.Logic.Basic
import Mathlib.Data.Prod.Basic

/-!
# Programs on a queue of fields

A writer puts fields at the back of a queue and a reader takes them off the front. A program
can fail, and has then done to the queue what it did before.

`Writes m fs` says that `m` appends `fs` to any queue. `Reads m fs` says that `m` has the
result `a` exactly on the queues that begin with `fs a`, and takes that off : each result has one
representation. Both are kept by sequences, and by the repetition over a list.
-/

namespace Queue

variable {φ α β : Type}

/-- A program on a queue of fields `φ`. -/
abbrev Program (φ α : Type) :=
  OptionT (StateM (List φ)) α

/-- The result, if there is one, and the queue that is left. -/
def exec (m : Program φ α) (q : List φ) : Option α × List φ :=
  m.run.run q

/-- Put a field at the back. -/
def push (f : φ) : Program φ Unit :=
  OptionT.mk fun q => (some (), q ++ [f])

/-- Take the field off the front if it is of the kind that is read. -/
def pop (get : φ → Option α) : Program φ α :=
  OptionT.mk fun q =>
    match q with
    | [] => (none, [])
    | f :: rest =>
      match get f with
      | none => (none, f :: rest)
      | some a => (some a, rest)

theorem exec_pure (a : α) (q : List φ) : exec (pure a : Program φ α) q = (some a, q) :=
  rfl

theorem exec_failure (q : List φ) : exec (failure : Program φ α) q = (none, q) :=
  rfl

theorem exec_bind (x : Program φ α) (f : α → Program φ β) (q : List φ) :
    exec (x >>= f) q =
      match exec x q with
      | (none, q') => (none, q')
      | (some a, q') => exec (f a) q' := by
  have hrun : exec (x >>= f) q =
      StateT.run (OptionT.run x >>= fun o => o.elim (pure none) fun a => (f a).run) q := by
    rw [exec, OptionT.run_bind]
    rfl
  rw [hrun, StateT.run_bind]
  rcases hx : exec x q with ⟨_ | a, q'⟩
  · have hx' : StateT.run (OptionT.run x) q = (none, q') := hx
    rw [hx']
    rfl
  · have hx' : StateT.run (OptionT.run x) q = (some a, q') := hx
    rw [hx']
    rfl

/-! ## Writers -/

/-- `m` appends `fs`. -/
def Writes (m : Program φ Unit) (fs : List φ) : Prop :=
  ∀ q, exec m q = (some (), q ++ fs)

theorem Writes.pure : Writes (pure () : Program φ Unit) [] := fun q => by
  rw [exec_pure, List.append_nil]

theorem Writes.push (f : φ) : Writes (push f) [f] := fun _ => rfl

theorem Writes.seq {m m' : Program φ Unit} {fs fs' : List φ} (h : Writes m fs)
    (h' : Writes m' fs') : Writes (do m; m') (fs ++ fs') := fun q => by
  rw [exec_bind, h q]
  dsimp only
  rw [h', List.append_assoc]

theorem Writes.forM {m : α → Program φ Unit} {fs : α → List φ} (h : ∀ a, Writes (m a) (fs a)) :
    ∀ l : List α, Writes (l.forM m) (l.flatMap fs)
  | [] => Writes.pure
  | a :: l => by
    rw [List.flatMap_cons]
    exact (h a).seq (Writes.forM h l)

/-! ## Readers -/

/-- `m` reads `a` off the queues that begin with `fs a`, and off no other. -/
def Reads (m : Program φ α) (fs : α → List φ) : Prop :=
  ∀ q a rest, exec m q = (some a, rest) ↔ q = fs a ++ rest

theorem Reads.pop {get : φ → Option α} {field : α → φ}
    (h : ∀ f a, get f = some a ↔ f = field a) : Reads (pop get) fun a => [field a] := by
  intro q a rest
  rcases q with _ | ⟨f, q⟩
  · have hexec : exec (Queue.pop get) [] = (none, []) := rfl
    rw [hexec]
    simp
  · have hexec : exec (Queue.pop get) (f :: q) = match get f with
        | none => (none, f :: q)
        | some a => (some a, q) := rfl
    rw [hexec, List.singleton_append, List.cons.injEq, ← h f a]
    rcases get f with _ | b
    · simp
    · simp

/-- A sequence begins with what its first reader takes off. -/
theorem Reads.bind {x : Program φ α} {fs : α → List φ} (h : Reads x fs) (f : α → Program φ β)
    (q : List φ) (b : β) (rest : List φ) :
    exec (x >>= f) q = (some b, rest) ↔
      ∃ a q', q = fs a ++ q' ∧ exec (f a) q' = (some b, rest) := by
  rw [exec_bind]
  constructor
  · intro hexec
    rcases hx : exec x q with ⟨_ | a, q'⟩
    · rw [hx] at hexec
      exact nomatch hexec
    · rw [hx] at hexec
      exact ⟨a, q', (h q a q').1 hx, hexec⟩
  · rintro ⟨a, q', hq, hexec⟩
    rw [(h q a q').2 hq]
    exact hexec

end Queue
