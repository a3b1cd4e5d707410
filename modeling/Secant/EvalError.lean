import Secant.ParseError

/-!
Why an expression has no value.
-/

namespace Secant

inductive EvalError
  | undefinedVariable (name : String)
  | divisionByZero
  | domain (function details : String)
  | argumentCount (function expected : String) (found : Nat)
  | derivativeVariable
  | unknownFunction (name : String)
deriving DecidableEq, Repr

def EvalError.message : EvalError → String
  | undefinedVariable name => s!"Variable '{name}' is not defined"
  | divisionByZero => "Division by zero"
  | domain function details => s!"{function}: {details}"
  | argumentCount function expected found =>
      s!"Function '{function}' expects {expected} argument(s), got {found}"
  | derivativeVariable => "The second argument of diff must be a variable name"
  | unknownFunction name => s!"Function '{name}' is not implemented"

/-- Why a text has no value: it is no expression, or the expression has none. -/
inductive CalcError
  | parse (error : ParseError)
  | eval (error : EvalError)
deriving DecidableEq, Repr

def CalcError.message : CalcError → String
  | parse error => error.message
  | eval error => error.message

end Secant
