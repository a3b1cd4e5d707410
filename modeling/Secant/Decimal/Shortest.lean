import Secant.Decimal.Basic

/-!
The shortest decimal that reads back as a given number. The decimals that do so fill an interval
around it, closed exactly when the significand is even. Grids of decimals are tried from coarse to
fine; on each only the two neighbours of the number can lie in the interval, and of two that do the
nearer is taken, the upper one on a tie.
-/

namespace Secant.Decimal

open Binary64 (Parts)

/-- Whether `d` is at most, or where `strict` is set less than, `num * 2 ^ scale`. -/
def below (strict : Bool) (d : Decimal) (num : Nat) (scale : Int) : Bool :=
  let left := d.digits * Nat.pow 10 d.exponent.toNat * Nat.pow 2 (-scale).toNat
  let right := num * Nat.pow 2 scale.toNat * Nat.pow 10 (-d.exponent).toNat
  if strict then left < right else left ≤ right

def above (strict : Bool) (d : Decimal) (num : Nat) (scale : Int) : Bool :=
  !below (!strict) d num scale

/-- Whether `x` is the number nearest to `d`. The ends of the interval lie half a gap away, which is
counted here in quarters of the unit of `x`. -/
def readsBack (x : Parts) (d : Decimal) : Bool :=
  let strict := x.significand % 2 == 1
  let low := 4 * x.significand - if x.narrowBelow then 1 else 2
  let high := 4 * x.significand + 2
  above strict d low (x.scale - 2) && below strict d high (x.scale - 2)

/-- The multiple of `10 ^ exponent` at or just under `x`. -/
def floorOn (exponent : Int) (x : Parts) : Decimal :=
  ⟨x.significand * Nat.pow 2 x.scale.toNat * Nat.pow 10 (-exponent).toNat /
    (Nat.pow 2 (-x.scale).toNat * Nat.pow 10 exponent.toNat), exponent⟩

def pastMiddle (d : Decimal) (x : Parts) : Bool :=
  below false ⟨2 * d.digits + 1, d.exponent⟩ (2 * x.significand) x.scale

/-- The multiple of `10 ^ exponent` that reads back as `x`, if there is one. -/
def onGrid? (x : Parts) (exponent : Int) : Option Decimal :=
  let lower := floorOn exponent x
  let upper : Decimal := ⟨lower.digits + 1, exponent⟩
  match readsBack x lower, readsBack x upper with
  | true, true => some (if pastMiddle lower x then upper else lower)
  | true, false => some lower
  | false, true => some upper
  | false, false => none

/-- All digits of `x`, should no shorter decimal be found. -/
def exact (x : Parts) : Decimal :=
  if 0 ≤ x.scale then ⟨x.significand * Nat.pow 2 x.scale.toNat, 0⟩
  else ⟨x.significand * Nat.pow 5 (-x.scale).toNat, x.scale⟩

/-- An exponent of ten at or above that of the leading digit of `x`. The factor is a little more
than the decimal logarithm of two. -/
def ceiling (x : Parts) : Int :=
  ((x.significand.log2 : Int) + 1 + x.scale) * 30103 / 100000 + 1

def shortest (x : Parts) : Decimal :=
  ((List.range 20).findSome? fun places => onGrid? x (ceiling x - (places : Nat))).getD (exact x)

end Secant.Decimal
