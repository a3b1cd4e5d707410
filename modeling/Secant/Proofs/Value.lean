import Secant.Expr.Eval

/-!
The value of an expression without a state. A valuation says what names are bound to; to bind a name
is to go on with another valuation, while the old one is still there for whatever is evaluated next.
So there is nothing to give back, and each rule says on its own which parts are evaluated, in which
order and under which valuation.
-/

namespace Secant

/-- What each name is bound to, if it is bound. -/
abbrev Valuation :=
  String → Option Float

def Valuation.rebind (valuation : Valuation) (name : String) (value : Float) : Valuation :=
  fun other => if other = name then some value else valuation other

namespace Expr

/-- The difference quotient of `f` around `p`, the value above asked for first. -/
def quotient (f : Float → Except EvalError Float) (p h : Float) : Except EvalError Float := do
  let above ← f (p + h)
  let below ← f (p - h)
  return (above - below) / (2 * h)

mutual

def value (config : EvalConfig) : Expr → Valuation → Except EvalError Float
  | number x, _ => .ok x
  | var name, valuation =>
      match valuation name with
      | some x => .ok x
      | none => .error (.undefinedVariable name)
  | neg operand, valuation => do
      let x ← operand.value config valuation
      return -x
  | binary op left right, valuation => do
      let x ← left.value config valuation
      let y ← right.value config valuation
      op.apply config x y
  | call name canonical args, valuation =>
      match Builtin.find? canonical with
      | none => .error (.unknownFunction name)
      | some function =>
          match function.action with
          | .derivative => valueDerivative config name args valuation
          | _ => do
              let xs ← valueList config args valuation
              function.checkCount name xs.length
              function.apply name xs

def valueList (config : EvalConfig) : List Expr → Valuation → Except EvalError (List Float)
  | [], _ => .ok []
  | first :: rest, valuation => do
      let x ← first.value config valuation
      let xs ← valueList config rest valuation
      return x :: xs

/-- The derivative that was called `name`. Its point and its step are evaluated where it stands, and
only the expression it is taken of sees the variable bound. -/
def valueDerivative (config : EvalConfig) (name : String) :
    List Expr → Valuation → Except EvalError Float
  | [body, bound, point], valuation =>
      match bound.asVar? with
      | none => .error .derivativeVariable
      | some x => do
          let p ← point.value config valuation
          let h := config.defaultStep * (if 1 < p.abs then p.abs else 1)
          quotient (fun y => body.value config (valuation.rebind x y)) p h
  | [body, bound, point, step], valuation =>
      match bound.asVar? with
      | none => .error .derivativeVariable
      | some x => do
          let p ← point.value config valuation
          let s ← step.value config valuation
          let h := if s.abs == 0 then config.defaultStep else s.abs
          quotient (fun y => body.value config (valuation.rebind x y)) p h
  | args, _ => .error (.argumentCount name "3 or 4" args.length)

end

end Expr

end Secant
