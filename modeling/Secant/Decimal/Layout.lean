import Secant.Decimal.Shortest

/-!
How a number is laid out as text: where the point stands, whether an exponent is written, and what
stands for the values that are no numbers.
-/

namespace Secant.Decimal

/-- Where the digits of a number go. -/
structure Layout where
  /-- Whether a number is written without an exponent if its leading digit counts this power of
  ten. -/
  positional : Int → Bool
  /-- What follows a whole number written without an exponent. -/
  wholeTail : List Char

def zeros (count : Int) : List Char :=
  List.replicate count.toNat '0'

/-- Decimal digits with the point set `places` digits from their end. -/
def pointed (wholeTail : List Char) (digits : List Char) (exponent : Int) : List Char :=
  let ahead := (digits.length : Int) + exponent
  if 0 ≤ exponent then digits ++ zeros exponent ++ wholeTail
  else if 0 < ahead then digits.take ahead.toNat ++ '.' :: digits.drop ahead.toNat
  else '0' :: '.' :: zeros (-ahead) ++ digits

/-- Decimal digits with the point behind the first, and an exponent. -/
def scaled (digits : List Char) (leading : Int) : List Char :=
  let fraction := digits.drop 1
  digits.take 1 ++ (if fraction.isEmpty then [] else '.' :: fraction) ++
    'e' :: (if leading < 0 then ['-'] else []) ++ Nat.toDigits 10 leading.natAbs

def Layout.digits (layout : Layout) (d : Decimal) : List Char :=
  let digits := Nat.toDigits 10 d.digits
  let leading := (digits.length : Int) + d.exponent - 1
  if layout.positional leading then pointed layout.wholeTail digits d.exponent
  else scaled digits leading

def Layout.magnitude (layout : Layout) (bits : Nat) : List Char :=
  if bits = 0 then '0' :: layout.wholeTail
  else if bits = Binary64.infinity then ['i', 'n', 'f']
  else layout.digits (shortest (Binary64.Parts.ofMagnitude bits))

def Layout.chars (layout : Layout) (x : Float) : List Char :=
  if x.isNaN then ['N', 'a', 'N']
  else (if Binary64.isNegative x then ['-'] else []) ++ layout.magnitude (Binary64.magnitude x)

def Layout.text (layout : Layout) (x : Float) : String :=
  String.ofList (layout.chars x)

end Secant.Decimal
