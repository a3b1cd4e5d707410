import Secant.Decimal.Layout
import Secant.Names
import Secant.Op
import Secant.Text.LowerCase

/-!
Expressions, their text, and the names that have to be given a value before they have one.
-/

namespace Secant

inductive Expr
  | number (value : Float)
  | var (name : String)
  | neg (operand : Expr)
  | binary (op : Op) (left right : Expr)
  /-- A call keeps the name as it was typed; the canonical name says what is called. -/
  | call (name canonical : String) (args : List Expr)

/-- The canonical name of the operator that takes a derivative. It binds a variable. -/
def derivativeName : String :=
  "diff"

/-- Numbers in an expression are written without an exponent, and whole ones without a point. -/
def exprNumber : Decimal.Layout where
  positional _ := true
  wholeTail := []

namespace Expr

def callNamed (name : String) (args : List Expr) : Expr :=
  .call name (Text.lower name) args

def asVar? : Expr → Option String
  | var name => some name
  | _ => none

mutual

def chars : Expr → List Char
  | number value => exprNumber.chars value
  | var name => name.toList
  | neg operand => '(' :: '-' :: operand.chars ++ [')']
  | binary op left right =>
      '(' :: left.chars ++ ' ' :: op.symbol :: ' ' :: right.chars ++ [')']
  | call name _ args => name.toList ++ '(' :: charsList args ++ [')']

def charsList : List Expr → List Char
  | [] => []
  | [last] => last.chars
  | first :: rest => first.chars ++ ',' :: ' ' :: charsList rest

end

/-- Every operator in parentheses, arguments apart by a comma and a blank. -/
def text (e : Expr) : String :=
  String.ofList e.chars

mutual

/-- The free variables in ascending order. A derivative binds its variable in the expression it is
taken of, and in that alone; the place where the variable is named counts for nothing. -/
def free : Expr → List String
  | number _ => []
  | var name => [name]
  | neg operand => operand.free
  | binary _ left right => Names.union left.free right.free
  | call _ canonical args =>
      if canonical = derivativeName then freeUnder args else freeList args

def freeList : List Expr → List String
  | [] => []
  | first :: rest => Names.union first.free (freeList rest)

def freeUnder : List Expr → List String
  | [] => []
  | [body] => body.free
  | body :: bound :: rest =>
      let inner :=
        match bound.asVar? with
        | some name => Names.erase name body.free
        | none => body.free
      Names.union inner (freeList rest)

end

mutual

/-- Equality as of numbers, so the two zeros are equal and what is no number equals nothing. -/
def same : Expr → Expr → Bool
  | number x, number y => x == y
  | var name, var other => name == other
  | neg operand, neg other => operand.same other
  | binary op left right, binary op' left' right' =>
      op == op' && left.same left' && right.same right'
  | call name canonical args, call name' canonical' args' =>
      name == name' && canonical == canonical' && sameList args args'
  | _, _ => false

def sameList : List Expr → List Expr → Bool
  | [], [] => true
  | first :: rest, first' :: rest' => first.same first' && sameList rest rest'
  | _, _ => false

end

end Expr

end Secant
