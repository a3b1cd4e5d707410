/-!
What the results of a computation that may fail are made of, and of one that changes a state on its
way.
-/

namespace Secant

section

variable {ε α β : Type} {x : Except ε α}

theorem bind_eq_ok_iff {f : α → Except ε β} {b : β} :
    x >>= f = .ok b ↔ ∃ a, x = .ok a ∧ f a = .ok b := by
  cases x with
  | ok a => simp [bind, Except.bind]
  | error error => simp [bind, Except.bind]

theorem bind_eq_error_iff {f : α → Except ε β} {error : ε} :
    x >>= f = .error error ↔ x = .error error ∨ ∃ a, x = .ok a ∧ f a = .error error := by
  cases x with
  | ok a => simp [bind, Except.bind]
  | error other => simp [bind, Except.bind]

theorem map_eq_ok_iff {f : α → β} {b : β} : x.map f = .ok b ↔ ∃ a, x = .ok a ∧ f a = b := by
  cases x with
  | ok a => simp [Except.map]
  | error error => simp [Except.map]

theorem map_eq_error_iff {f : α → β} {error : ε} : x.map f = .error error ↔ x = .error error := by
  cases x with
  | ok a => simp [Except.map]
  | error error => simp [Except.map]

end

section

variable {ε σ α β : Type} {x : EStateM ε σ α} {f : α → EStateM ε σ β} {state state' : σ}

theorem run_bind_of_error {error : ε} (h : x state = .error error state') :
    (x >>= f) state = .error error state' := by
  change EStateM.bind x f state = _
  rw [EStateM.bind, h]

theorem run_bind_of_ok {a : α} (h : x state = .ok a state') : (x >>= f) state = f a state' := by
  change EStateM.bind x f state = _
  rw [EStateM.bind, h]

end

end Secant
