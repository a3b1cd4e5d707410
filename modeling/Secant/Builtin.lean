import Secant.EvalError
import Secant.Expr

/-!
The functions and constants that every expression may use. What a function does also says how many
arguments it takes.
-/

namespace Secant

inductive Action
  | unary (apply : Float → Except EvalError Float)
  | binary (apply : Float → Float → Except EvalError Float)
  /-- Takes expressions rather than their values: what to differentiate, by which variable, where,
  and, if given, with which step. -/
  | derivative

namespace Action

def counts : Action → List Nat
  | unary _ => [1]
  | binary _ => [2]
  | derivative => [3, 4]

def countsText (action : Action) : String :=
  " or ".intercalate (action.counts.map toString)

def isDerivative : Action → Bool
  | derivative => true
  | _ => false

end Action

structure Builtin where
  name : String
  category : String
  signature : String
  description : String
  action : Action

namespace Builtin

/-- Refuses a wrong number of arguments under the name by which the function was called. -/
def checkCount (function : Builtin) (shown : String) (found : Nat) : Except EvalError Unit :=
  if found ∈ function.action.counts then .ok ()
  else .error (.argumentCount shown function.action.countsText found)

/-- The value of a function of numbers. A derivative has none, since it needs expressions. -/
def apply (function : Builtin) (shown : String) (values : List Float) : Except EvalError Float :=
  match function.action, values with
  | .unary f, [x] => f x
  | .binary f, [x, y] => f x y
  | _, _ => .error (.argumentCount shown function.action.countsText values.length)

def squareRoot (x : Float) : Except EvalError Float :=
  if x < 0 then .error (.domain "sqrt" "negative argument") else .ok x.sqrt

def derivative : Builtin :=
  ⟨derivativeName, "Calculus", "diff(expr, var, point[, step])",
    "Central-difference derivative of expr with respect to var at point", .derivative⟩

/-- All functions by category, and within one by name. -/
def all : List Builtin :=
  [⟨"abs", "Arithmetic", "abs(x)", "Absolute value", .unary fun x => .ok x.abs⟩,
    ⟨"sqrt", "Arithmetic", "sqrt(x)", "Square root; x must not be negative", .unary squareRoot⟩,
    derivative,
    ⟨"exp", "Exponential", "exp(x)", "e raised to x", .unary fun x => .ok x.exp⟩,
    ⟨"ln", "Exponential", "ln(x)", "Natural logarithm", .unary fun x => .ok x.log⟩,
    ⟨"log10", "Exponential", "log10(x)", "Base-10 logarithm", .unary fun x => .ok x.log10⟩,
    ⟨"pow", "Exponential", "pow(base, exponent)", "base raised to exponent",
      .binary fun x y => .ok (x.pow y)⟩,
    ⟨"cos", "Trigonometry", "cos(x)", "Cosine of x (radians)", .unary fun x => .ok x.cos⟩,
    ⟨"sin", "Trigonometry", "sin(x)", "Sine of x (radians)", .unary fun x => .ok x.sin⟩,
    ⟨"tan", "Trigonometry", "tan(x)", "Tangent of x (radians)", .unary fun x => .ok x.tan⟩]

def find? (canonical : String) : Option Builtin :=
  all.find? fun function => function.name == canonical

def isFunction (canonical : String) : Bool :=
  (find? canonical).isSome

end Builtin

structure Constant where
  name : String
  value : Float
  description : String

namespace Constant

def all : List Constant :=
  [⟨"e", Float.ofBits 0x4005BF0A8B145769, "Base of the natural logarithm"⟩,
    ⟨"pi", Float.ofBits 0x400921FB54442D18, "Ratio of a circle's circumference to its diameter"⟩]

def value? (canonical : String) : Option Float :=
  (all.find? fun constant => constant.name == canonical).map (·.value)

end Constant

end Secant
