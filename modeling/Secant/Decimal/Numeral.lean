import Secant.Decimal.Basic
import Secant.Text.Digit

/-!
Reading a number: an optional sign, digits with an optional point among or beside them, and an
optional exponent of any size. The words for infinity and for no number are read in any case.
-/

namespace Secant.Decimal

open Text (isDigit)

def digitsValue (cs : List Char) : Nat :=
  cs.foldl (fun value c => 10 * value + (c.toNat - '0'.toNat)) 0

/-- Splits off a sign; the flag is set for a minus. -/
def splitSign : List Char → Bool × List Char
  | '-' :: cs => (true, cs)
  | '+' :: cs => (false, cs)
  | cs => (false, cs)

def exponent? : List Char → Option Int
  | [] => some 0
  | mark :: cs =>
      let (minus, digits) := splitSign cs
      if (mark = 'e' ∨ mark = 'E') ∧ digits ≠ [] ∧ digits.all isDigit then
        some (if minus then -(digitsValue digits : Int) else digitsValue digits)
      else none

def splitFraction : List Char → List Char × List Char
  | '.' :: cs => (cs.takeWhile isDigit, cs.dropWhile isDigit)
  | cs => ([], cs)

/-- A decimal without a sign: at least one digit before or behind the point. -/
def unsigned? (cs : List Char) : Option Decimal :=
  let whole := cs.takeWhile isDigit
  let (fraction, rest) := splitFraction (cs.dropWhile isDigit)
  if whole = [] ∧ fraction = [] then none
  else (exponent? rest).map fun exponent =>
    ⟨digitsValue (whole ++ fraction), exponent - fraction.length⟩

def magnitude? (cs : List Char) : Option Float :=
  let word := String.ofList (cs.map Char.toLower)
  if word = "inf" ∨ word = "infinity" then some (Binary64.ofMagnitude Binary64.infinity)
  else if word = "nan" then some (0.0 / 0.0)
  else (unsigned? cs).map toFloat

def number? (text : String) : Option Float :=
  let (minus, cs) := splitSign text.toList
  (magnitude? cs).map fun x => if minus then -x else x

end Secant.Decimal
