import Secant.Decimal.Shortest
import Secant.Proofs.Decimal.Nearest

/-!
The decimal found for a number reads back as that number. The decimal that is shown for it is among
the fractions that the number covers, and a decimal has the magnitude of the number that covers it.
-/

namespace Secant

open Binary64

namespace Decimal

def value (d : Decimal) : ℚ :=
  d.digits * 10 ^ d.exponent

theorem value_eq_div (d : Decimal) :
    d.value = (d.digits * 10 ^ d.exponent.toNat : ℕ) / (10 ^ (-d.exponent).toNat : ℕ) := by
  rw [value, zpow_eq_div]
  push_cast
  ring

/-! ### Comparisons -/

section

variable (d : Decimal) (num : ℕ) (scale : ℤ)

theorem below_eq_true_iff :
    below false d num scale = true ↔ d.value ≤ num * 2 ^ scale := by
  rw [value_eq_div, zpow_eq_div, mul_div_assoc', div_le_div_iff₀ (by positivity) (by positivity)]
  simp only [below, Nat.pow_eq]
  exact_mod_cast decide_eq_true_iff

theorem below_strict_eq_true_iff :
    below true d num scale = true ↔ d.value < num * 2 ^ scale := by
  rw [value_eq_div, zpow_eq_div, mul_div_assoc', div_lt_div_iff₀ (by positivity) (by positivity)]
  simp only [below, Nat.pow_eq]
  exact_mod_cast decide_eq_true_iff

theorem above_eq_true_iff :
    above false d num scale = true ↔ num * 2 ^ scale ≤ d.value := by
  rw [← not_lt, ← below_strict_eq_true_iff]
  simp [above]

theorem above_strict_eq_true_iff :
    above true d num scale = true ↔ num * 2 ^ scale < d.value := by
  rw [← not_le, ← below_eq_true_iff]
  simp [above]

variable {d num scale}

theorem le_of_below {strict : Bool} (h : below strict d num scale = true) :
    d.value ≤ num * 2 ^ scale := by
  cases strict with
  | false => exact (below_eq_true_iff d num scale).1 h
  | true => exact ((below_strict_eq_true_iff d num scale).1 h).le

theorem le_of_above {strict : Bool} (h : above strict d num scale = true) :
    num * 2 ^ scale ≤ d.value := by
  cases strict with
  | false => exact (above_eq_true_iff d num scale).1 h
  | true => exact ((above_strict_eq_true_iff d num scale).1 h).le

end

/-! ### What is shown for a number -/

/-- The ends of the interval are counted in quarters of a unit. -/
theorem mul_two_zpow_sub_two (num : ℚ) (scale : ℤ) :
    num * 2 ^ (scale - 2) = num / 4 * 2 ^ scale := by
  rw [zpow_sub₀ two_ne_zero]
  ring

theorem covers_of_readsBack {x : Parts} {d : Decimal} (h : readsBack x d = true) :
    x.Covers d.value := by
  have hunit := two_zpow_pos x.scale
  simp only [readsBack, Bool.and_eq_true] at h
  obtain ⟨habove, hbelow⟩ := h
  -- The lower end is a quarter of the unit away where the gap below is narrow, and else a half.
  set quarters : ℕ := if x.narrowBelow then 1 else 2 with hquarters
  have hle : quarters ≤ 2 := by
    rw [hquarters]
    split <;> omega
  have hlow : (4 * x.significand : ℚ) ≤ (4 * x.significand - quarters : ℕ) + quarters := by
    exact_mod_cast le_tsub_add
  have hcast : (quarters : ℚ) ≤ 2 := by exact_mod_cast hle
  constructor
  · have hfrom := le_of_above habove
    have hto := le_of_below hbelow
    rw [mul_two_zpow_sub_two, ← le_div_iff₀ hunit] at hfrom
    rw [mul_two_zpow_sub_two, ← div_le_iff₀ hunit] at hto
    push_cast at hto
    refine ⟨by linarith, by linarith, fun hodd => ?_⟩
    simp only [hodd, beq_self_eq_true] at habove hbelow
    rw [above_strict_eq_true_iff, mul_two_zpow_sub_two, ← lt_div_iff₀ hunit] at habove
    rw [below_strict_eq_true_iff, mul_two_zpow_sub_two, ← div_lt_iff₀ hunit] at hbelow
    push_cast at hbelow
    exact ⟨by linarith, by linarith⟩
  · intro hnarrow
    have hone : quarters = 1 := if_pos hnarrow
    have hfrom := le_of_above habove
    rw [mul_two_zpow_sub_two, ← le_div_iff₀ hunit] at hfrom
    rw [hone] at hlow hfrom
    push_cast at hlow
    linarith

theorem readsBack_of_onGrid? {x : Parts} {exponent : ℤ} {d : Decimal}
    (h : onGrid? x exponent = some d) : readsBack x d = true := by
  unfold onGrid? at h
  dsimp only at h
  split at h
  · rename_i hlower hupper
    cases h
    split
    · exact hupper
    · exact hlower
  · rename_i hlower _
    cases h
    exact hlower
  · rename_i _ hupper
    cases h
    exact hupper
  · cases h

theorem value_exact (x : Parts) : (exact x).value = x.value := by
  unfold exact
  split
  · rename_i hscale
    obtain ⟨n, hn⟩ := Int.eq_ofNat_of_zero_le hscale
    simp [value, Parts.value, hn]
  · rename_i hscale
    obtain ⟨n, hn⟩ : ∃ n : ℕ, x.scale = -n := ⟨x.scale.natAbs, by omega⟩
    have hten : (10 : ℚ) ^ n = 5 ^ n * 2 ^ n := by
      rw [← mul_pow]
      norm_num
    simp only [value, Parts.value, hn, zpow_neg, zpow_natCast, neg_neg, Int.toNat_natCast,
      Nat.pow_eq]
    push_cast
    rw [hten]
    field_simp

/-- The number covers the decimal that is shown for it. -/
theorem covers_shortest (x : Parts) : x.Covers (shortest x).value := by
  unfold shortest
  cases hfound : (List.range 20).findSome? fun places => onGrid? x (ceiling x - (places : Nat)) with
  | none =>
      rw [Option.getD_none, value_exact]
      exact x.covers_value
  | some d =>
      obtain ⟨places, -, hgrid⟩ := List.exists_of_findSome?_eq_some hfound
      exact covers_of_readsBack (readsBack_of_onGrid? hgrid)

/-! ### The magnitude of a decimal -/

theorem two_zpow_le_of_covers {x : Parts} {bits : ℕ} (hx : x.Holds bits) (hpos : 0 < bits) {v : ℚ}
    (h : x.Covers v) : 2 ^ (-1075 : ℤ) ≤ v := by
  have hsignificand : (1 : ℚ) ≤ x.significand := by exact_mod_cast hx.significand_pos hpos
  have hhalf : (1 / 2 : ℚ) ≤ v / 2 ^ x.scale := by linarith [h.rounds.low]
  calc (2 : ℚ) ^ (-1075 : ℤ) = 1 / 2 * 2 ^ (-1074 : ℤ) := by
        rw [show (-1075 : ℤ) = -1074 - 1 by norm_num, zpow_sub_one₀ two_ne_zero]
        ring
    _ ≤ 1 / 2 * 2 ^ x.scale := by
      have := zpow_le_zpow_right₀ (one_le_two (α := ℚ)) hx.scale_ge
      linarith
    _ ≤ v := (le_div_iff₀ (two_zpow_pos x.scale)).1 hhalf

theorem lt_two_zpow_of_covers {x : Parts} {bits : ℕ} (hx : x.Holds bits) (hbits : bits < infinity)
    {v : ℚ} (h : x.Covers v) : v < 2 ^ (1025 : ℤ) := by
  have hsignificand : (x.significand + 1 : ℚ) ≤ 2 ^ 53 := by exact_mod_cast hx.significand_lt
  have hscale : x.scale + 53 ≤ 1025 := by
    have := hx.bits_eq
    rw [infinity_eq] at hbits
    omega
  have hlt : v < 2 ^ (x.scale + 53) :=
    (lt_zpow_add_iff 53).2 (by linarith [h.rounds.high])
  exact hlt.trans_le (zpow_le_zpow_right₀ one_le_two hscale)

/-- A decimal is less than the power of ten that is at hand without counting its digits. -/
theorem value_lt (d : Decimal) :
    d.value < 10 ^ (d.exponent + d.digits.log2 + 1) := by
  have hpow : d.digits < 10 ^ (d.digits.log2 + 1) :=
    Nat.lt_log2_self.trans_le (Nat.pow_le_pow_left (by decide) _)
  have hpow : (d.digits : ℚ) < 10 ^ (d.digits.log2 + 1) := by exact_mod_cast hpow
  calc d.value < 10 ^ (d.digits.log2 + 1) * 10 ^ d.exponent := by
        rw [value]
        gcongr
    _ = 10 ^ (d.exponent + d.digits.log2 + 1) := by
        rw [← zpow_natCast, ← zpow_add₀ (by norm_num)]
        push_cast
        ring_nf

theorem ten_zpow_le_value (d : Decimal) (hdigits : d.digits ≠ 0) : 10 ^ d.exponent ≤ d.value := by
  have hone : (1 : ℚ) ≤ d.digits := by exact_mod_cast Nat.pos_of_ne_zero hdigits
  exact le_mul_of_one_le_left (by positivity) hone

/-! The powers of ten at which a magnitude is cut off lie beyond what a number covers. -/

theorem ten_zpow_lt_two_zpow : (10 : ℚ) ^ (-331 : ℤ) < 2 ^ (-1075 : ℤ) := by
  have hpow : 2 ^ 1075 < 10 ^ 331 := by decide +kernel
  rw [zpow_neg, zpow_neg]
  exact inv_strictAnti₀ (by positivity) (by exact_mod_cast hpow)

theorem two_zpow_lt_ten_zpow : (2 : ℚ) ^ (1025 : ℤ) < 10 ^ (311 : ℤ) := by
  have hpow : 2 ^ 1025 < 10 ^ 311 := by decide +kernel
  exact_mod_cast hpow

/-- A decimal has the magnitude of the number that covers it. -/
theorem magnitude_eq {d : Decimal} {x : Parts} {bits : ℕ} (hx : x.Holds bits) (hpos : 0 < bits)
    (hbits : bits < infinity) (h : x.Covers d.value) : d.magnitude = bits := by
  have hsmall := two_zpow_le_of_covers hx hpos h
  have hlarge := lt_two_zpow_of_covers hx hbits h
  have hdigits : d.digits ≠ 0 := by
    intro hzero
    have := two_zpow_pos (-1075)
    simp only [value, hzero, Nat.cast_zero, zero_mul] at hsmall
    linarith
  -- What a number covers is well between the two powers of ten at which magnitudes are cut off.
  have hlow : ¬d.exponent + d.digits.log2 + 1 < -330 := by
    intro hlt
    have hvalue := d.value_lt.trans_le
      (zpow_le_zpow_right₀ (by norm_num) (show _ ≤ (-331 : ℤ) by omega))
    exact lt_irrefl _ (hvalue.trans (ten_zpow_lt_two_zpow.trans_le hsmall))
  have hhigh : ¬310 < d.exponent := by
    intro hlt
    have hvalue := (zpow_le_zpow_right₀ (by norm_num) (show (311 : ℤ) ≤ _ by omega)).trans
      (d.ten_zpow_le_value hdigits)
    exact lt_irrefl _ (hlarge.trans (two_zpow_lt_ten_zpow.trans_le hvalue))
  rw [magnitude, if_neg (not_or.2 ⟨hdigits, hlow⟩), if_neg hhigh]
  simp only [Nat.pow_eq]
  rw [value_eq_div] at h
  exact nearest_eq hx hbits (by positivity) (by positivity) h

/-- Nothing is above infinity. -/
theorem magnitude_le_infinity (d : Decimal) : d.magnitude ≤ infinity := by
  unfold magnitude nearest
  split_ifs
  · exact Nat.zero_le _
  · exact Nat.le_refl _
  · exact Nat.zero_le _
  · exact Nat.min_le_right _ _

end Decimal

end Secant
