/-
  Actions on a state.

  An action either answers or refuses, and leaves a state behind in both cases: a refusal does not
  undo what was done before it.  Whoever wants that says so (`WeightedMarket.Market.Transaction`).
-/
import WeightedMarket.Failure

namespace WeightedMarket

/-- What takes a state to an answer or a refusal, and to the state it leaves. -/
def Action (σ α : Type) : Type := σ → Except Failure α × σ

namespace Action

variable {σ α β : Type}

/-- Answers and leaves the state alone. -/
def answer (a : α) : Action σ α := fun s => (.ok a, s)

/-- Does one action and then the next, unless the first refuses. -/
def andThen (x : Action σ α) (f : α → Action σ β) : Action σ β := fun s =>
  match x s with
  | (.ok a, s') => f a s'
  | (.error e, s') => (.error e, s')

instance : Monad (Action σ) where
  pure := answer
  bind := andThen

@[simp] theorem pure_apply (a : α) (s : σ) : (pure a : Action σ α) s = (.ok a, s) := rfl

@[simp] theorem bind_apply (x : Action σ α) (f : α → Action σ β) (s : σ) :
    (x >>= f) s = match x s with
      | (.ok a, s') => f a s'
      | (.error e, s') => (.error e, s') := rfl

/-- An action that answered went through an answer of its first part. -/
theorem bind_eq_ok {x : Action σ α} {f : α → Action σ β} {s s₂ : σ} {b : β} :
    (x >>= f) s = (.ok b, s₂) ↔ ∃ a s₁, x s = (.ok a, s₁) ∧ f a s₁ = (.ok b, s₂) := by
  rw [bind_apply]
  rcases x s with ⟨_ | a, s₁⟩
  · simp
  · exact ⟨fun h => ⟨a, s₁, rfl, h⟩, fun ⟨_, _, h, h'⟩ => by cases h; exact h'⟩

/-- The state as it is. -/
def look : Action σ σ := fun s => (.ok s, s)

/-- Changes the state. -/
def change (f : σ → σ) : Action σ Unit := fun s => (.ok (), f s)

/-- Refuses for a cause whose message has been settled. -/
def fail (f : Failure) : Action σ α := fun s => (.error f, s)

/-- A decision that does not touch the state. -/
def decide (x : Except Failure α) : Action σ α := fun s => (x, s)

/-- The outcome of an action, as an answer. -/
def outcome (x : Action σ α) : Action σ (Except Failure α) := fun s =>
  let (r, s') := x s
  (.ok r, s')

end Action

end WeightedMarket
