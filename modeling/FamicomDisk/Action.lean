import FamicomDisk.Fault

/-!
# Actions on a state

An action changes a state and gives a result or a fault. What it did before a fault stays done.

* `Action` and `Action.perform`: an action, and what it makes of a state.
* `Action.perform_pure`, `Action.perform_throw`, `Action.perform_bind`, `Action.perform_tryCatch`: the
  laws of performing.
-/

namespace FamicomDisk

/-- An action on states of `σ` with results of `α`. -/
abbrev Action (σ α : Type) := ExceptT Fault (StateM σ) α

namespace Action

variable {σ α β : Type}

/-- The result of an action, or its fault, and the state it leaves. -/
def perform (x : Action σ α) (s : σ) : Except Fault α × σ := x.run.run s

/-- A result, or a fault, that leaves the state alone. -/
def ofExcept (e : Except Fault α) : Action σ α := ExceptT.mk (pure e)

instance : MonadLift (Except Fault) (ExceptT Fault (StateM σ)) := ⟨ofExcept⟩

theorem perform_pure (a : α) (s : σ) : (pure a : Action σ α).perform s = (.ok a, s) := rfl

theorem perform_throw (f : Fault) (s : σ) : (throw f : Action σ α).perform s = (.error f, s) := rfl

theorem perform_ofExcept (e : Except Fault α) (s : σ) :
    (ofExcept e : Action σ α).perform s = (e, s) := rfl

theorem perform_liftM (e : Except Fault α) (s : σ) : (liftM e : Action σ α).perform s = (e, s) := rfl

theorem perform_bind (x : Action σ α) (f : α → Action σ β) (s : σ) :
    (x >>= f).perform s =
      match x.perform s with
      | (.ok a, s') => (f a).perform s'
      | (.error e, s') => (.error e, s') := by
  simp only [perform, ExceptT.run_bind, StateT.run_bind]
  cases h : x.run.run s with
  | mk r s' => cases r <;> rfl

section

variable {x : Action σ α} {s s' : σ}

theorem perform_bind_ok {a : α} (h : x.perform s = (.ok a, s')) (f : α → Action σ β) :
    (x >>= f).perform s = (f a).perform s' := by
  rw [perform_bind, h]

theorem perform_bind_error {e : Fault} (h : x.perform s = (.error e, s')) (f : α → Action σ β) :
    (x >>= f).perform s = (.error e, s') := by
  rw [perform_bind, h]

/-- Actions in sequence have a result only if each of them has one. -/
theorem exists_of_perform_bind_eq_ok {f : α → Action σ β} {b : β}
    (h : (x >>= f).perform s = (.ok b, s')) :
    ∃ a s₁, x.perform s = (.ok a, s₁) ∧ (f a).perform s₁ = (.ok b, s') := by
  rw [perform_bind] at h
  split at h
  · next a s₁ hx => exact ⟨a, s₁, hx, h⟩
  · cases (Prod.mk.inj h).1

end

theorem perform_get (s : σ) : (get : Action σ σ).perform s = (.ok s, s) := rfl

theorem perform_tryCatch (x : Action σ α) (handle : Fault → Action σ α) (s : σ) :
    (tryCatch x handle).perform s =
      match x.perform s with
      | (.ok a, s') => (.ok a, s')
      | (.error e, s') => (handle e).perform s' := by
  simp only [perform, ExceptT.run_tryCatch, StateT.run_bind]
  cases h : x.run.run s with
  | mk r s' => cases r <;> rfl

end Action

end FamicomDisk
