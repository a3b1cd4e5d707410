import Mathlib.Algebra.Order.Field.Power
import Mathlib.Algebra.Order.Field.Rat
import Mathlib.Tactic.FieldSimp
import Mathlib.Tactic.Linarith
import Mathlib.Tactic.Positivity
import Mathlib.Tactic.Ring
import Secant.Decimal.Binary64

/-!
The number nearest to a fraction. A finite number above zero covers an interval of fractions: those
that are at most half a unit away from it, or a quarter of one where the gap below is half as wide,
and the ends only if the significand is even. The bits of a number are the answer for every fraction
that it covers.
-/

namespace Secant.Binary64

theorem zpow_eq_div (b : ℚ) (z : ℤ) : b ^ z = b ^ z.toNat / b ^ (-z).toNat := by
  rcases Int.le_total 0 z with hz | hz
  · lift z to ℕ using hz
    simp
  · obtain ⟨n, rfl⟩ : ∃ n : ℕ, z = -n := ⟨z.natAbs, by omega⟩
    simp

theorem two_zpow_pos (z : ℤ) : (0 : ℚ) < 2 ^ z := by positivity

section

variable {v : ℚ} {z : ℤ} (n : ℕ)

theorem zpow_add_le_iff : (2 : ℚ) ^ (z + n) ≤ v ↔ 2 ^ n ≤ v / 2 ^ z := by
  rw [le_div_iff₀ (two_zpow_pos z), zpow_add₀ two_ne_zero, mul_comm, zpow_natCast]

theorem lt_zpow_add_iff : v < (2 : ℚ) ^ (z + n) ↔ v / 2 ^ z < 2 ^ n := by
  rw [div_lt_iff₀ (two_zpow_pos z), zpow_add₀ two_ne_zero, mul_comm, zpow_natCast]

end

/-! ### Rounding -/

/-- Half a unit away at most, and a tie only at an even number. -/
structure RoundsTo (w : ℚ) (k : ℕ) : Prop where
  low : k - 1 / 2 ≤ w
  high : w ≤ k + 1 / 2
  inside : k % 2 = 1 → k - 1 / 2 < w ∧ w < k + 1 / 2

theorem roundHalfEven_eq {num den k : ℕ} (hden : 0 < den) (h : RoundsTo (num / den) k) :
    roundHalfEven num den = k := by
  have hpos : (0 : ℚ) < den := by exact_mod_cast hden
  have hlow : 2 * k * den ≤ 2 * num + den := by
    have := (le_div_iff₀ hpos).1 h.low
    have : (2 * k * den : ℚ) ≤ 2 * num + den := by linarith
    exact_mod_cast this
  have hhigh : 2 * num ≤ 2 * k * den + den := by
    have := (div_le_iff₀ hpos).1 h.high
    have : (2 * num : ℚ) ≤ 2 * k * den + den := by linarith
    exact_mod_cast this
  have hinside : k % 2 = 1 → 2 * k * den < 2 * num + den ∧ 2 * num < 2 * k * den + den := by
    intro hodd
    obtain ⟨hlow, hhigh⟩ := h.inside hodd
    have := (lt_div_iff₀ hpos).1 hlow
    have := (div_lt_iff₀ hpos).1 hhigh
    have hlow : (2 * k * den : ℚ) < 2 * num + den := by linarith
    have hhigh : (2 * num : ℚ) < 2 * k * den + den := by linarith
    exact ⟨by exact_mod_cast hlow, by exact_mod_cast hhigh⟩
  have hdivide := Nat.div_add_mod num den
  have hrest := Nat.mod_lt num hden
  simp only [roundHalfEven]
  generalize num / den = quotient at *
  generalize num % den = rest at *
  -- The quotient is the number asked for, or the one below it.
  have hle : 2 * k < 2 * quotient + 3 := by
    apply Nat.lt_of_mul_lt_mul_right (a := den)
    linarith
  have hge : 2 * quotient ≤ 2 * k + 1 := by
    apply Nat.le_of_mul_le_mul_right _ hden
    linarith
  obtain rfl | rfl : k = quotient ∨ k = quotient + 1 := by omega
  · have hproduct : 2 * k * den = 2 * (den * k) := by ring
    rw [hproduct] at hhigh hinside
    split_ifs <;> omega
  · have hproduct : 2 * (quotient + 1) * den = 2 * (den * quotient) + 2 * den := by ring
    rw [hproduct] at hlow hinside
    split_ifs <;> omega

/-! ### The binary logarithm -/

theorem log2_spec {n : ℕ} (hn : 0 < n) :
    (2 : ℚ) ^ (n.log2 : ℤ) ≤ n ∧ (n : ℚ) < 2 ^ (n.log2 + 1 : ℤ) := by
  constructor
  · exact_mod_cast Nat.log2_self_le hn.ne'
  · exact_mod_cast Nat.lt_log2_self

theorem pow_le_div_iff {b den : ℕ} (hb : 0 < b) (hden : 0 < den) (num : ℕ) (z : ℤ) :
    (b : ℚ) ^ z ≤ num / den ↔ den * b ^ z.toNat ≤ num * b ^ (-z).toNat := by
  have hpos : (0 : ℚ) < den := by exact_mod_cast hden
  have hpow : (0 : ℚ) < b ^ (-z).toNat := by positivity
  rw [zpow_eq_div, div_le_div_iff₀ hpow hpos, mul_comm]
  exact_mod_cast Iff.rfl

theorem floorLog2_spec {num den : ℕ} (hnum : 0 < num) (hden : 0 < den) :
    (2 : ℚ) ^ floorLog2 num den ≤ num / den ∧ (num / den : ℚ) < 2 ^ (floorLog2 num den + 1) := by
  have hpos : (0 : ℚ) < den := by exact_mod_cast hden
  obtain ⟨hnumLow, hnumHigh⟩ := log2_spec hnum
  obtain ⟨hdenLow, hdenHigh⟩ := log2_spec hden
  have hcond := pow_le_div_iff Nat.two_pos hden num (num.log2 - den.log2)
  have hhigh : (num / den : ℚ) < 2 ^ ((num.log2 - den.log2 : ℤ) + 1) := by
    have := two_zpow_pos den.log2
    calc (num / den : ℚ) < 2 ^ (num.log2 + 1 : ℤ) / 2 ^ (den.log2 : ℤ) := by gcongr
      _ = 2 ^ ((num.log2 - den.log2 : ℤ) + 1) := by
        rw [← zpow_sub₀ two_ne_zero]
        ring_nf
  have hlow : 2 ^ ((num.log2 - den.log2 : ℤ) - 1) ≤ (num / den : ℚ) := by
    calc (2 : ℚ) ^ ((num.log2 - den.log2 : ℤ) - 1)
        = 2 ^ (num.log2 : ℤ) / 2 ^ (den.log2 + 1 : ℤ) := by
          rw [← zpow_sub₀ two_ne_zero]
          ring_nf
      _ ≤ num / den := by gcongr
  unfold floorLog2
  simp only [Nat.pow_eq]
  split
  · rename_i h
    exact ⟨hcond.2 h, hhigh⟩
  · rename_i h
    rw [sub_add_cancel]
    exact ⟨hlow, not_le.1 (mt hcond.1 h)⟩

theorem floorLog2_lt {num den : ℕ} (hnum : 0 < num) (hden : 0 < den) {scale : ℤ} {n : ℕ}
    (h : (num / den / 2 ^ scale : ℚ) < 2 ^ n) : floorLog2 num den < scale + n := by
  have hfloor := (floorLog2_spec hnum hden).1
  exact (zpow_lt_zpow_iff_right₀ one_lt_two).1 (hfloor.trans_lt ((lt_zpow_add_iff n).2 h))

theorem floorLog2_eq {num den : ℕ} (hnum : 0 < num) (hden : 0 < den) {scale : ℤ} {n : ℕ}
    (hlow : (2 : ℚ) ^ n ≤ num / den / 2 ^ scale)
    (hhigh : (num / den / 2 ^ scale : ℚ) < 2 ^ (n + 1)) : floorLog2 num den = scale + n := by
  have hceil := (floorLog2_spec hnum hden).2
  have hle := (zpow_lt_zpow_iff_right₀ one_lt_two).1 (((zpow_add_le_iff n).2 hlow).trans_lt hceil)
  have hlt := floorLog2_lt hnum hden hhigh
  omega

/-! ### Magnitudes -/

/-- The parts of the number with these bits: the first number of a binade comes right behind the
last one of the binade before it, so bits count the numbers. -/
structure Parts.Holds (x : Parts) (bits : ℕ) : Prop where
  bits_eq : (x.scale + 1074).toNat * 2 ^ 52 + x.significand = bits
  scale_ge : -1074 ≤ x.scale
  significand_lt : x.significand < 2 ^ 53
  scale_eq : x.significand < 2 ^ 52 → x.scale = -1074

theorem Parts.holds_ofMagnitude (bits : ℕ) : (ofMagnitude bits).Holds bits := by
  unfold ofMagnitude
  simp only [Nat.pow_eq]
  split
  · constructor <;> dsimp only <;> omega
  · constructor <;> dsimp only <;> omega

theorem Parts.Holds.significand_pos {x : Parts} {bits : ℕ} (h : x.Holds bits) (hpos : 0 < bits) :
    0 < x.significand := by
  have := h.bits_eq
  have := h.scale_eq
  omega

def Parts.value (x : Parts) : ℚ :=
  x.significand * 2 ^ x.scale

/-- The fractions for which `x` is the nearest number. -/
structure Parts.Covers (x : Parts) (v : ℚ) : Prop where
  rounds : RoundsTo (v / 2 ^ x.scale) x.significand
  narrow : x.narrowBelow = true → x.significand - 1 / 4 ≤ v / 2 ^ x.scale

theorem Parts.covers_value (x : Parts) : x.Covers x.value := by
  have hvalue : x.value / 2 ^ x.scale = x.significand :=
    mul_div_cancel_right₀ _ (two_zpow_pos x.scale).ne'
  constructor
  · rw [hvalue]
    exact ⟨by linarith, by linarith, fun _ => ⟨by linarith, by linarith⟩⟩
  · intro _
    rw [hvalue]
    linarith

theorem nearest_eq_of_roundsTo {num den significand : ℕ} {scale : ℤ} (hnum : 0 < num)
    (hden : 0 < den) (hscale : max (floorLog2 num den - 52) (-1074) = scale)
    (h : RoundsTo (num / den / 2 ^ scale) significand) :
    nearest num den = min ((scale + 1074).toNat * 2 ^ 52 + significand) infinity := by
  have hfraction : (num / den / 2 ^ scale : ℚ) =
      (num * 2 ^ (-scale).toNat : ℕ) / (den * 2 ^ scale.toNat : ℕ) := by
    rw [zpow_eq_div]
    push_cast
    field_simp
  rw [hfraction] at h
  have hround := roundHalfEven_eq (Nat.mul_pos hden (Nat.two_pow_pos _)) h
  simp only [nearest, if_neg hnum.ne', hscale, Nat.pow_eq, hround]

theorem div_two_zpow_sub_one (v : ℚ) (scale : ℤ) :
    v / 2 ^ (scale - 1) = 2 * (v / 2 ^ scale) := by
  rw [zpow_sub_one₀ two_ne_zero]
  field_simp

/-- Just below a power of two the unit is half as large, and a fraction no more than a quarter of
the larger unit away is rounded up to the power. -/
theorem roundsTo_narrow {w : ℚ} (hlow : 2 ^ 52 - 1 / 4 ≤ w) (hhigh : w < 2 ^ 52) :
    RoundsTo (2 * w) (2 ^ 53) := by
  constructor
  · push_cast
    linarith
  · push_cast
    linarith
  · intro hodd
    omega

/-- A fraction has the magnitude of the number that covers it. -/
theorem nearest_eq {x : Parts} {bits num den : ℕ} (hx : x.Holds bits) (hbits : bits < infinity)
    (hnum : 0 < num) (hden : 0 < den) (h : x.Covers (num / den)) : nearest num den = bits := by
  have hscale := hx.scale_ge
  by_cases hbinade : (2 : ℚ) ^ 52 ≤ num / den / 2 ^ x.scale
  · -- The fraction lies in the binade of the number, so both have the same unit.
    have hlt : (num / den / 2 ^ x.scale : ℚ) < 2 ^ (52 + 1) := by
      have hsignificand : (x.significand + 1 : ℚ) ≤ 2 ^ 53 := by exact_mod_cast hx.significand_lt
      linarith [h.rounds.high]
    have hlog := floorLog2_eq hnum hden hbinade hlt
    rw [nearest_eq_of_roundsTo hnum hden (by omega) h.rounds, hx.bits_eq,
      Nat.min_eq_left hbits.le]
  · have hbelow := not_le.1 hbinade
    have hlog := floorLog2_lt hnum hden hbelow
    by_cases hsmallest : x.scale = -1074
    · rw [nearest_eq_of_roundsTo hnum hden (by omega) h.rounds, hx.bits_eq,
        Nat.min_eq_left hbits.le]
    · -- The number is the first of its binade, and the fraction belongs to the one before.
      have hfirst : x.significand = 2 ^ 52 := by
        have hge : 2 ^ 52 ≤ x.significand := not_lt.1 (mt hx.scale_eq hsmallest)
        have hlt : (x.significand : ℚ) < 2 ^ 52 + 1 := by linarith [h.rounds.low]
        have hlt : x.significand < 2 ^ 52 + 1 := by exact_mod_cast hlt
        omega
      have hlow : (2 : ℚ) ^ 52 - 1 / 4 ≤ num / den / 2 ^ x.scale := by
        have hlt : -1074 < x.scale := by omega
        have hnarrow := h.narrow (by simp [Parts.narrowBelow, hfirst, hlt])
        rw [hfirst] at hnarrow
        exact_mod_cast hnarrow
      have hdouble := div_two_zpow_sub_one (num / den) x.scale
      have hlog : floorLog2 num den = x.scale - 1 + (52 : ℕ) := by
        apply floorLog2_eq hnum hden
        · rw [hdouble]
          linarith
        · rw [hdouble]
          linarith
      have hrounds := roundsTo_narrow hlow hbelow
      rw [← hdouble] at hrounds
      have hbits_eq := hx.bits_eq
      rw [hfirst] at hbits_eq
      rw [nearest_eq_of_roundsTo hnum hden (by omega) hrounds]
      omega

end Secant.Binary64
