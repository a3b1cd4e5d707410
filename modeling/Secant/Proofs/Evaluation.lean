import Secant.Proofs.Except
import Secant.Proofs.Value

/-!
Evaluation on an environment that is written to, against values under valuations that are not. An
expression comes to its value under the look-up of the environment, and leaves the environment as it
was: a derivative binds its variable twice, and a scope that ends, however it ends, binds the name
as before. So whatever an expression is evaluated on next is what it would have been anyway.
-/

namespace Secant.Environment

variable {α β : Type}

namespace Evaluation

/-- What the computation comes to. -/
def outcome (x : Evaluation α) (env : Environment) : Except EvalError α :=
  match x env with
  | .ok a _ => .ok a
  | .error error _ => .error error

def after (x : Evaluation α) (env : Environment) : Environment :=
  match x env with
  | .ok _ env' => env'
  | .error _ env' => env'

end Evaluation

/-- The computation comes to `result` and leaves the environment as it was. -/
def Keeps (x : Evaluation α) (env : Environment) (result : Except EvalError α) : Prop :=
  x env = (ofExcept result : Evaluation α) env

theorem keeps_ofExcept (result : Except EvalError α) (env : Environment) :
    Keeps (ofExcept result) env result :=
  rfl

theorem keeps_pure (a : α) (env : Environment) : Keeps (pure a) env (.ok a) :=
  rfl

theorem keeps_throw (error : EvalError) (env : Environment) :
    Keeps (throw error : Evaluation α) env (.error error) :=
  rfl

theorem Keeps.outcome_eq {x : Evaluation α} {env : Environment} {result : Except EvalError α}
    (h : Keeps x env result) : Evaluation.outcome x env = result := by
  unfold Evaluation.outcome
  rw [h]
  cases result <;> rfl

theorem Keeps.after_eq {x : Evaluation α} {env : Environment} {result : Except EvalError α}
    (h : Keeps x env result) : Evaluation.after x env = env := by
  unfold Evaluation.after
  rw [h]
  cases result <;> rfl

theorem Keeps.bind {x : Evaluation α} {f : α → Evaluation β} {env : Environment}
    {result : Except EvalError α} {g : α → Except EvalError β} (hx : Keeps x env result)
    (hf : ∀ a, Keeps (f a) env (g a)) : Keeps (x >>= f) env (result >>= g) := by
  cases result with
  | ok a =>
      have hrun : x env = .ok a env := hx
      rw [Keeps, run_bind_of_ok hrun]
      exact hf a
  | error error => exact run_bind_of_error hx

theorem keeps_fetch (name : String) (env : Environment) :
    Keeps (fetch name) env
      (match env.lookup name with
        | some x => .ok x
        | none => .error (.undefinedVariable name)) := by
  unfold Keeps fetch get
  cases env.lookup name <;> rfl

/-- To bind a name as it was bound before is to undo what bound it since. -/
theorem restore_define (env : Environment) (name : String) (x : Float) :
    (env.define name x).restore name (env.lookup name) = env := by
  apply ext_lookup
  intro other
  by_cases h : other = name
  · simp [h]
  · simp [h]

theorem define_define (env : Environment) (name : String) (x y : Float) :
    (env.define name x).define name y = env.define name y := by
  apply ext_lookup
  intro other
  by_cases h : other = name
  · simp [h]
  · simp [h]

theorem lookup_define_eq_rebind (env : Environment) (name : String) (x : Float) :
    (env.define name x).lookup = Valuation.rebind env.lookup name x := by
  funext other
  rw [lookup_define, Valuation.rebind]

/-- Where the body of a scope has done no more than bind its name, nothing is left of it. -/
theorem keeps_lending {name : String} {body : Evaluation α} {env : Environment} {x : Float}
    {result : Except EvalError α}
    (h : body env = (ofExcept result : Evaluation α) (env.define name x)) :
    Keeps (lending name body) env result := by
  unfold Keeps lending
  rw [h]
  cases result with
  | ok a => exact congrArg (EStateM.Result.ok a) (restore_define env name x)
  | error error => exact congrArg (EStateM.Result.error error) (restore_define env name x)

theorem run_assign (name : String) (x : Float) (env : Environment) :
    assign name x env = .ok () (env.define name x) :=
  rfl

theorem exists_run_twice {name : String} {x y : Float} {body : Evaluation α} {env : Environment}
    {first second : Except EvalError α} (hfirst : Keeps body (env.define name x) first)
    (hsecond : Keeps body (env.define name y) second) :
    ∃ last,
      (do
        assign name x
        let a ← body
        assign name y
        let b ← body
        return (a, b) : Evaluation (α × α)) env =
        (ofExcept (do
          let a ← first
          let b ← second
          return (a, b)) : Evaluation (α × α)) (env.define name last) := by
  rw [run_bind_of_ok (run_assign name x env)]
  cases first with
  | error error => exact ⟨x, run_bind_of_error hfirst⟩
  | ok a =>
      -- The second binding takes the place of the first, as if that had never been.
      refine ⟨y, ?_⟩
      rw [run_bind_of_ok hfirst, run_bind_of_ok (run_assign name y _), define_define]
      exact hsecond.bind fun b => keeps_pure (a, b) _

end Secant.Environment

namespace Secant.Expr

open Environment

/-- A derivative of something that comes to its value under the look-up wherever it is evaluated. -/
theorem keeps_centralDifference (name : String) (p h : Float) {body : Evaluation Float}
    {f : Valuation → Except EvalError Float}
    (hbody : ∀ env : Environment, Keeps body env (f env.lookup)) (env : Environment) :
    Keeps (centralDifference name p h body) env
      (quotient (fun y => f (Valuation.rebind env.lookup name y)) p h) := by
  have habove := hbody (env.define name (p + h))
  have hbelow := hbody (env.define name (p - h))
  rw [lookup_define_eq_rebind] at habove hbelow
  obtain ⟨last, hrun⟩ := exists_run_twice habove hbelow
  have hlent := (keeps_lending hrun).bind fun pair => keeps_pure ((pair.1 - pair.2) / (2 * h)) env
  simp only [bind_assoc, pure_bind] at hlent
  exact hlent

/-- Counting the numbers beforehand changes nothing: a function counts what it is given. -/
theorem checkCount_bind_apply (function : Builtin) (name : String) (xs : List Float) :
    (do
      function.checkCount name xs.length
      function.apply name xs) = function.apply name xs := by
  unfold Builtin.checkCount
  split
  · rfl
  · rename_i hcount
    unfold Builtin.apply
    split
    · rename_i f x haction
      rw [haction] at hcount
      exact absurd List.mem_cons_self hcount
    · rename_i f x y haction
      rw [haction] at hcount
      exact absurd List.mem_cons_self hcount
    · rfl

mutual

/-- Every expression comes to its value under the look-up and leaves the environment as it was. -/
theorem keeps_eval (config : EvalConfig) :
    ∀ (e : Expr) (env : Environment), Keeps (e.eval config) env (e.value config env.lookup)
  | number x, env => by
      rw [eval, value]
      exact keeps_pure x env
  | var name, env => by
      rw [eval, value]
      exact keeps_fetch name env
  | neg operand, env => by
      have hoperand := keeps_eval config operand env
      rw [eval, value]
      exact hoperand.bind fun x => keeps_pure (-x) env
  | binary op left right, env => by
      have hleft := keeps_eval config left env
      have hright := keeps_eval config right env
      rw [eval, value]
      refine hleft.bind fun x => hright.bind fun y => ?_
      exact keeps_ofExcept (op.apply config x y) env
  | call name canonical args, env => by
      have hargs := keeps_evalList config args env
      have hderivative := keeps_evalDerivative config name args env
      rw [eval, value]
      cases Builtin.find? canonical with
      | none => exact keeps_throw _ env
      | some function =>
          have hnumbers := hargs.bind fun xs => keeps_ofExcept (function.apply name xs) env
          simp only [checkCount_bind_apply]
          cases function.action with
          | unary f => exact hnumbers
          | binary f => exact hnumbers
          | derivative => exact hderivative

theorem keeps_evalList (config : EvalConfig) :
    ∀ (args : List Expr) (env : Environment),
      Keeps (evalList config args) env (valueList config args env.lookup)
  | [], env => by
      rw [evalList, valueList]
      exact keeps_pure [] env
  | first :: rest, env => by
      have hfirst := keeps_eval config first env
      have hrest := keeps_evalList config rest env
      rw [evalList, valueList]
      exact hfirst.bind fun x => hrest.bind fun xs => keeps_pure (x :: xs) env

theorem keeps_evalDerivative (config : EvalConfig) (name : String) :
    ∀ (args : List Expr) (env : Environment),
      Keeps (evalDerivative config name args) env (valueDerivative config name args env.lookup)
  | [body, bound, point], env => by
      -- The body runs where its variable is bound, so what is known of it has to hold everywhere.
      have hbody := keeps_eval config body
      have hpoint := keeps_eval config point env
      rw [evalDerivative, valueDerivative]
      cases bound.asVar? with
      | none => exact keeps_throw _ env
      | some x =>
          refine hpoint.bind fun p => ?_
          exact keeps_centralDifference x p (stepAt config p) hbody env
  | [body, bound, point, step], env => by
      have hbody := keeps_eval config body
      have hpoint := keeps_eval config point env
      have hstep := keeps_eval config step env
      rw [evalDerivative, valueDerivative]
      cases bound.asVar? with
      | none => exact keeps_throw _ env
      | some x =>
          refine hpoint.bind fun p => hstep.bind fun asked => ?_
          exact keeps_centralDifference x p (stepFor config asked) hbody env
  | [], env => keeps_throw _ env
  | [_], env => keeps_throw _ env
  | [_, _], env => keeps_throw _ env
  | _ :: _ :: _ :: _ :: _ :: _, env => keeps_throw _ env

end

/-- Evaluation on an environment that is written to comes to the value without a state, or to the
error in its place. -/
theorem outcome_eval (config : EvalConfig) (e : Expr) (env : Environment) :
    Evaluation.outcome (e.eval config) env = e.value config env.lookup :=
  (keeps_eval config e env).outcome_eq

/-- After an evaluation, whether it came to a value or failed, the same names are bound, each to the
very number that it was bound to. -/
theorem after_eval (config : EvalConfig) (e : Expr) (env : Environment) :
    (Evaluation.after (e.eval config) env).names = env.names ∧
      ∀ name, (Evaluation.after (e.eval config) env).lookup name = env.lookup name := by
  have hafter := (keeps_eval config e env).after_eq
  rw [hafter]
  exact ⟨rfl, fun _ => rfl⟩

end Secant.Expr
