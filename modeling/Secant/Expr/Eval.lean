import Secant.Builtin
import Secant.Environment.Scope
import Secant.Expr.Parser

/-!
The value of an expression. Operands and arguments are evaluated from left to right and the first
error ends the evaluation. A derivative is a central difference: its variable is lent out, bound
once to either side of the point, and then bound as before.
-/

namespace Secant

structure EvalConfig where
  /-- A divisor of smaller magnitude counts as zero. -/
  divisionEpsilon : Float
  /-- The step of a central difference at points of magnitude up to one. -/
  defaultStep : Float

def EvalConfig.default : EvalConfig where
  divisionEpsilon := 1e-12
  defaultStep := 1e-5

namespace Op

def apply (config : EvalConfig) : Op → Float → Float → Except EvalError Float
  | add, x, y => .ok (x + y)
  | sub, x, y => .ok (x - y)
  | mul, x, y => .ok (x * y)
  | div, x, y => if y.abs < config.divisionEpsilon then .error .divisionByZero else .ok (x / y)
  | pow, x, y => .ok (x.pow y)

end Op

namespace Expr

open Environment (Evaluation lending fetch assign)

/-- The step at a point: the default one, in proportion where the point is beyond one. -/
def stepAt (config : EvalConfig) (point : Float) : Float :=
  config.defaultStep * (if 1 < point.abs then point.abs else 1)

/-- The step asked for, taken without its sign; zero asks for the default one. -/
def stepFor (config : EvalConfig) (asked : Float) : Float :=
  if asked.abs == 0 then config.defaultStep else asked.abs

/-- The difference quotient of `body` in the variable `name`. -/
def centralDifference (name : String) (point step : Float) (body : Evaluation Float) :
    Evaluation Float := do
  let (above, below) ← lending name do
    assign name (point + step)
    let above ← body
    assign name (point - step)
    let below ← body
    return (above, below)
  return (above - below) / (2 * step)

mutual

def eval (config : EvalConfig) : Expr → Evaluation Float
  | number value => return value
  | var name => fetch name
  | neg operand => return -(← operand.eval config)
  | binary op left right => do
      let x ← left.eval config
      let y ← right.eval config
      ofExcept (op.apply config x y)
  | call name canonical args =>
      match Builtin.find? canonical with
      | none => throw (.unknownFunction name)
      | some function =>
          if function.action.isDerivative then evalDerivative config name args
          else do
            let values ← evalList config args
            ofExcept (function.apply name values)

def evalList (config : EvalConfig) : List Expr → Evaluation (List Float)
  | [] => return []
  | first :: rest => return (← first.eval config) :: (← evalList config rest)

def evalDerivative (config : EvalConfig) (name : String) : List Expr → Evaluation Float
  | [body, bound, point] =>
      match bound.asVar? with
      | none => throw .derivativeVariable
      | some x => do
          let p ← point.eval config
          centralDifference x p (stepAt config p) (body.eval config)
  | [body, bound, point, step] =>
      match bound.asVar? with
      | none => throw .derivativeVariable
      | some x => do
          let p ← point.eval config
          let asked ← step.eval config
          centralDifference x p (stepFor config asked) (body.eval config)
  | args => throw (.argumentCount name Action.derivative.countsText args.length)

end

end Expr

def evalText (text : String) (env : Environment) : Except CalcError Float × Environment :=
  match Expr.ofText text with
  | .error error => (.error (.parse error), env)
  | .ok e =>
      match e.eval .default env with
      | .ok value after => (.ok value, after)
      | .error error after => (.error (.eval error), after)

end Secant
