import RowStore.Fault

/-! Actions on a state. What an action does is seen by its outcome: a result or a failure, and the
state that it leaves in either case. -/
namespace RowStore

variable {σ ε δ α β : Type}

/-- An action on a state; a failing action leaves the state that it reached. -/
abbrev Action (σ ε : Type) := ExceptT (Failure ε) (StateM σ)

namespace Action

/-- A computation that reads nothing, as an action. -/
def lift (r : Except (Failure ε) α) : Action σ ε α := ExceptT.mk (pure r)

def fail (e : ε) : Action σ ε α := lift (.error (.error e))

/-- The action with its errors passed through `f`. -/
def mapError (f : ε → δ) (x : Action σ ε α) : Action σ δ α :=
  ExceptT.mk do
    let r ← x.run
    pure (r.mapError (Failure.map f))

/-- The result of an action from a state, with the state that it leaves. -/
def outcome (x : Action σ ε α) (s : σ) : Except (Failure ε) α × σ := x.run.run s

@[simp] theorem outcome_pure (a : α) (s : σ) :
    outcome (pure a : Action σ ε α) s = (.ok a, s) := rfl

/-- An action goes on from the state that the one before it left, unless that one failed. -/
@[simp] theorem outcome_bind (x : Action σ ε α) (f : α → Action σ ε β) (s : σ) :
    outcome (x >>= f) s = match outcome x s with
      | (.ok a, t) => outcome (f a) t
      | (.error e, t) => (.error e, t) := by
  change (match x s with
    | (r, t) => (ExceptT.bindCont f r : StateM σ _) t) = _
  simp only [outcome, ExceptT.run, StateT.run]
  rcases x s with ⟨_ | _, t⟩ <;> rfl

@[simp] theorem outcome_get (s : σ) : outcome (get : Action σ ε σ) s = (.ok s, s) := rfl

@[simp] theorem outcome_set (s t : σ) : outcome (set t : Action σ ε PUnit) s = (.ok ⟨⟩, t) := rfl

@[simp] theorem outcome_modify (f : σ → σ) (s : σ) :
    outcome (modify f : Action σ ε PUnit) s = (.ok ⟨⟩, f s) := rfl

@[simp] theorem outcome_throw (e : Failure ε) (s : σ) :
    outcome (throw e : Action σ ε α) s = (.error e, s) := rfl

@[simp] theorem outcome_lift (r : Except (Failure ε) α) (s : σ) :
    outcome (lift r : Action σ ε α) s = (r, s) := rfl

@[simp] theorem outcome_fail (e : ε) (s : σ) :
    outcome (fail e : Action σ ε α) s = (.error (.error e), s) := rfl

@[simp] theorem outcome_mapError (f : ε → δ) (x : Action σ ε α) (s : σ) :
    outcome (mapError f x) s =
      ((outcome x s).1.mapError (Failure.map f), (outcome x s).2) := rfl

end Action
end RowStore
