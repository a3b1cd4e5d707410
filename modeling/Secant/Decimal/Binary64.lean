/-!
Double-precision numbers as exact fractions. Apart from its sign, a finite number is
`significand * 2 ^ scale`, and the bits that hold it count the numbers upwards from zero. The bits
of the number nearest to a fraction are therefore found with one division and one rounding, and a
carry out of the significand lands in the exponent where it belongs.
-/

namespace Secant.Binary64

/-- The bits of a number without its sign. -/
def magnitude (x : Float) : Nat :=
  x.toBits.toNat % Nat.pow 2 63

def isNegative (x : Float) : Bool :=
  Nat.pow 2 63 ≤ x.toBits.toNat

def ofMagnitude (bits : Nat) : Float :=
  Float.ofBits (UInt64.ofNat bits)

/-- The magnitude of infinity; every finite magnitude is below it. -/
def infinity : Nat :=
  0x7FF * Nat.pow 2 52

theorem infinity_eq : infinity = 0x7FF0000000000000 := by decide

/-- The number `significand * 2 ^ scale`. -/
structure Parts where
  significand : Nat
  scale : Int

def Parts.ofMagnitude (bits : Nat) : Parts :=
  if bits < Nat.pow 2 52 then ⟨bits, -1074⟩
  else ⟨Nat.pow 2 52 + bits % Nat.pow 2 52, (bits / Nat.pow 2 52 : Nat) - 1075⟩

/-- At a power of two the gap to the number below is half the gap to the number above. -/
def Parts.narrowBelow (x : Parts) : Bool :=
  x.significand == Nat.pow 2 52 && decide (-1074 < x.scale)

def roundHalfEven (num den : Nat) : Nat :=
  let quotient := num / den
  let rest := num % den
  if 2 * rest < den then quotient
  else if den < 2 * rest then quotient + 1
  else quotient + quotient % 2

/-- The largest `e` with `2 ^ e ≤ num / den`, for positive `num` and `den`. -/
def floorLog2 (num den : Nat) : Int :=
  let guess : Int := (num.log2 : Int) - den.log2
  if den * Nat.pow 2 guess.toNat ≤ num * Nat.pow 2 (-guess).toNat then guess else guess - 1

/-- The magnitude nearest to `num / den`; a tie goes to the even one. -/
def nearest (num den : Nat) : Nat :=
  if num = 0 then 0
  else
    let scale := max (floorLog2 num den - 52) (-1074)
    let significand :=
      roundHalfEven (num * Nat.pow 2 (-scale).toNat) (den * Nat.pow 2 scale.toNat)
    min ((scale + 1074).toNat * Nat.pow 2 52 + significand) infinity

end Secant.Binary64
