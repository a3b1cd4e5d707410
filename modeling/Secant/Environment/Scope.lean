import Secant.Environment

/-!
Computations on an environment, and scopes that lend out a name: however a scope ends, the name is
afterwards bound as it was before, and other names keep what the scope made of them.
-/

namespace Secant.Environment

/-- A computation that may fail; a failure leaves the environment as it was when it happened. -/
abbrev Evaluation (α : Type) :=
  EStateM EvalError Environment α

/-- Runs `body` and then binds `name` as it was bound before, or unbinds it if it was not. -/
def lending {α : Type} (name : String) (body : Evaluation α) : Evaluation α := fun env =>
  match body env with
  | .ok value after => .ok value (after.restore name (env.lookup name))
  | .error error after => .error error (after.restore name (env.lookup name))

def fetch (name : String) : Evaluation Float := fun env =>
  match env.get name with
  | .ok value => .ok value env
  | .error error => .error error env

def assign (name : String) (value : Float) : Evaluation Unit :=
  modify (·.define name value)

end Secant.Environment
