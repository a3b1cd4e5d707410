import Secant.Decimal.Binary64

/-!
Decimals `digits * 10 ^ exponent`, and the double-precision number nearest to one.
-/

namespace Secant

structure Decimal where
  digits : Nat
  exponent : Int
deriving DecidableEq, Repr

namespace Decimal

/-- What is above `10 ^ 310` is infinite and what is below `10 ^ -330` is zero, so a power of ten is
only formed for exponents between the two. -/
def magnitude (d : Decimal) : Nat :=
  if d.digits = 0 ∨ d.exponent + d.digits.log2 + 1 < -330 then 0
  else if 310 < d.exponent then Binary64.infinity
  else Binary64.nearest (d.digits * Nat.pow 10 d.exponent.toNat) (Nat.pow 10 (-d.exponent).toNat)

def toFloat (d : Decimal) : Float :=
  Binary64.ofMagnitude d.magnitude

end Decimal

end Secant
