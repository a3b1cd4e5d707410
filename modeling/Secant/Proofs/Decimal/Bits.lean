import Mathlib
import Secant.Decimal.Binary64

/-!
Numbers and their bits. A number is its bits, so one that is not negative is told by its magnitude,
and taking the sign away leaves the number that the magnitude tells.
-/

namespace Secant.Binary64

open Float.Model Float.Model.UnpackedFloat

/-! ### Patterns of bits -/

section

variable {b b' : BitVec Format.binary64.numBits}

theorem toNat_unpackMantissa : (unpackMantissa b).toNat = b.toNat % 2 ^ 52 := by
  simp [unpackMantissa]

theorem toNat_unpackExponent : (unpackExponent b).toNat = b.toNat / 2 ^ 52 % 2 ^ 11 := by
  simp [unpackExponent, Nat.shiftRight_eq_div_pow]

theorem toNat_unpackSign : (unpackSign b).toNat = b.toNat / 2 ^ 63 := by
  have hlt : b.toNat < 2 ^ 64 := b.isLt
  simp [unpackSign, Nat.shiftRight_eq_div_pow]
  omega

theorem unpackExponent_ne_iff : unpackExponent b ≠ -1#11 ↔ b.toNat % 2 ^ 63 < infinity := by
  have hones : unpackExponent b = -1#11 ↔ (unpackExponent b).toNat = 2 ^ 11 - 1 :=
    ⟨congrArg BitVec.toNat, fun h => BitVec.eq_of_toNat_eq h⟩
  rw [Ne, hones, toNat_unpackExponent, infinity_eq]
  omega

/-- What is no number lies beyond infinity. -/
theorem isNaNBits_iff : isNaNBits b = true ↔ infinity < b.toNat % 2 ^ 63 := by
  have hzero : unpackMantissa b = 0#52 ↔ b.toNat % 2 ^ 52 = 0 := by
    rw [← toNat_unpackMantissa]
    exact ⟨congrArg BitVec.toNat, fun h => BitVec.eq_of_toNat_eq h⟩
  have hfinite := @unpackExponent_ne_iff b
  rw [isNaNBits, decide_eq_true_iff, ← not_ne_iff]
  refine Iff.trans (and_congr (not_congr hfinite) (not_congr hzero)) ?_
  rw [infinity_eq]
  omega

theorem isNaN_unpack : (UnpackedFloat.unpack .binary64 b).isNaN = isNaNBits b := by
  rw [isNaNBits]
  unfold UnpackedFloat.unpack
  dsimp only
  split_ifs with hones hmantissa
  · exact (decide_eq_false fun h => h.2 hmantissa).symm
  · exact (decide_eq_true ⟨hones, hmantissa⟩).symm
  all_goals exact (decide_eq_false fun h => hones h.1).symm

theorem isNaNBits_eq_false (h : b.toNat % 2 ^ 63 ≤ infinity) : isNaNBits b = false := by
  rw [Bool.eq_false_iff, Ne, isNaNBits_iff]
  exact Nat.not_lt.2 h

theorem isFinite_unpack_iff :
    (UnpackedFloat.unpack .binary64 b).isFinite = true ↔ b.toNat % 2 ^ 63 < infinity := by
  rw [← unpackExponent_ne_iff]
  unfold UnpackedFloat.unpack
  dsimp only
  split_ifs with h <;> simpa [UnpackedFloat.isFinite] using h

theorem abs_unpack (hexponent : unpackExponent b = unpackExponent b')
    (hmantissa : unpackMantissa b = unpackMantissa b') (hsign : unpackSign b' = 0#1) :
    (UnpackedFloat.unpack .binary64 b).abs = UnpackedFloat.unpack .binary64 b' := by
  have hpositive : Sign.ofBitVec 0#1 = .positive := rfl
  simp only [UnpackedFloat.unpack, hexponent, hmantissa, hsign, hpositive]
  split_ifs <;> rfl

theorem neg_unpack (hexponent : unpackExponent b = unpackExponent b')
    (hmantissa : unpackMantissa b = unpackMantissa b') (hsign : unpackSign b = 1#1)
    (hsign' : unpackSign b' = 0#1) :
    (UnpackedFloat.unpack .binary64 b').neg = UnpackedFloat.unpack .binary64 b := by
  have hnegative : Sign.ofBitVec 1#1 = .negative := rfl
  have hpositive : Sign.ofBitVec 0#1 = .positive := rfl
  simp only [UnpackedFloat.unpack, hexponent, hmantissa, hsign, hsign', hpositive, hnegative]
  split_ifs <;> rfl

end

/-! ### Numbers and their magnitude -/

/-- The magnitudes up to infinity are those of their numbers. -/
theorem toNat_toBits_ofMagnitude {bits : Nat} (h : bits ≤ infinity) :
    (ofMagnitude bits).toBits.toNat = bits := by
  let b : BitVec Format.binary64.numBits := BitVec.ofNat 64 bits
  have hbits : b.toNat = bits :=
    (BitVec.toNat_ofNat _ _).trans (Nat.mod_eq_of_lt (Nat.lt_of_le_of_lt h (by decide)))
  have hnumber : isNaNBits b = false := by
    apply isNaNBits_eq_false
    rw [hbits]
    exact Nat.le_trans (Nat.mod_le _ _) h
  have hpack : (ofMagnitude bits).toBits.toBitVec = b :=
    (pack_unpack b).trans (if_neg (ne_true_of_eq_false hnumber))
  rw [← UInt64.toNat_toBitVec, hpack, hbits]

theorem isNegative_ofMagnitude {bits : Nat} (h : bits ≤ infinity) :
    isNegative (ofMagnitude bits) = false := by
  have hlt : bits < Nat.pow 2 63 := Nat.lt_of_le_of_lt h (by decide)
  rw [isNegative, toNat_toBits_ofMagnitude h, decide_eq_false (Nat.not_le.2 hlt)]

theorem isNaN_ofMagnitude {bits : Nat} (h : bits ≤ infinity) :
    (ofMagnitude bits).isNaN = false := by
  have hle : (ofMagnitude bits).toBits.toNat % 2 ^ 63 ≤ infinity := by
    rw [toNat_toBits_ofMagnitude h]
    exact Nat.le_trans (Nat.mod_le _ _) h
  exact isNaN_unpack.trans (isNaNBits_eq_false hle)

theorem isFinite_iff {x : Float} : x.isFinite = true ↔ magnitude x < infinity :=
  isFinite_unpack_iff

theorem isNaN_eq_false {x : Float} (h : x.isFinite = true) : x.isNaN = false := by
  have hnumber : ∀ u : UnpackedFloat, u.isFinite = true → u.isNaN = false := by
    rintro (_ | _ | _ | _) hfinite
    · cases hfinite
    · cases hfinite
    · rfl
    · rfl
  exact hnumber _ h

theorem ofMagnitude_magnitude {x : Float} (h : isNegative x = false) :
    ofMagnitude (magnitude x) = x := by
  have hmagnitude : magnitude x = x.toBits.toNat :=
    Nat.mod_eq_of_lt (Nat.not_le.1 (of_decide_eq_false h))
  rw [ofMagnitude, hmagnitude, UInt64.ofNat_toNat, Float.ofBits_toBits]

/-- The magnitude has the exponent and the mantissa of the number, and no sign. -/
theorem unpack_magnitude (x : Float) {b bits : BitVec Format.binary64.numBits}
    (hb : b = x.toBits.toBitVec) (hbits : bits = BitVec.ofNat 64 (magnitude x)) :
    unpackExponent b = unpackExponent bits ∧ unpackMantissa b = unpackMantissa bits ∧
      unpackSign bits = 0#1 := by
  have hmod : bits.toNat = b.toNat % 2 ^ 63 := by
    rw [hbits, hb]
    refine (BitVec.toNat_ofNat _ _).trans (Nat.mod_eq_of_lt ?_)
    exact Nat.lt_trans (Nat.mod_lt _ (by decide)) (by decide)
  refine ⟨?_, ?_, ?_⟩
  · apply BitVec.eq_of_toNat_eq
    rw [toNat_unpackExponent, toNat_unpackExponent, hmod]
    omega
  · apply BitVec.eq_of_toNat_eq
    rw [toNat_unpackMantissa, toNat_unpackMantissa, hmod]
    omega
  · apply BitVec.eq_of_toNat_eq
    rw [toNat_unpackSign, hmod]
    exact Nat.div_eq_of_lt (Nat.mod_lt _ (by decide))

theorem abs_eq_ofMagnitude (x : Float) : x.abs = ofMagnitude (magnitude x) := by
  obtain ⟨hexponent, hmantissa, hsign⟩ := unpack_magnitude x rfl rfl
  exact congrArg (fun u => Float.ofModel (Float.Model.pack u))
    (abs_unpack hexponent hmantissa hsign)

theorem isNaN_iff {x : Float} : x.isNaN = true ↔ infinity < magnitude x := by
  rw [show x.isNaN = _ from isNaN_unpack]
  exact isNaNBits_iff

theorem unpackSign_of_isNegative {x : Float} (h : isNegative x = true)
    {b : BitVec Format.binary64.numBits} (hb : b = x.toBits.toBitVec) : unpackSign b = 1#1 := by
  apply BitVec.eq_of_toNat_eq
  have hlt : b.toNat < 2 ^ 64 := b.isLt
  have hge : 2 ^ 63 ≤ b.toNat := by
    rw [hb]
    exact of_decide_eq_true h
  have hone : b.toNat / 2 ^ 63 = 1 := by omega
  rw [toNat_unpackSign, hone]
  rfl

/-- A number of negative sign is its magnitude negated. -/
theorem neg_ofMagnitude_magnitude {x : Float} (hnumber : x.isNaN = false)
    (h : isNegative x = true) : -ofMagnitude (magnitude x) = x := by
  have hle : magnitude x ≤ infinity := by
    rw [Bool.eq_false_iff, Ne, isNaN_iff] at hnumber
    exact Nat.not_lt.1 hnumber
  obtain ⟨hexponent, hmantissa, hsign⟩ := unpack_magnitude x rfl rfl
  have hnegative := unpackSign_of_isNegative h rfl
  have hmagnitude : (ofMagnitude (magnitude x)).toBits.toBitVec =
      BitVec.ofNat 64 (magnitude x) := by
    apply BitVec.eq_of_toNat_eq
    rw [UInt64.toNat_toBitVec, toNat_toBits_ofMagnitude hle, BitVec.toNat_ofNat]
    exact (Nat.mod_eq_of_lt (Nat.lt_of_le_of_lt hle (by decide))).symm
  calc -ofMagnitude (magnitude x)
      = Float.ofModel (Float.Model.pack
          (UnpackedFloat.unpack .binary64 (ofMagnitude (magnitude x)).toBits.toBitVec).neg) := rfl
    _ = Float.ofBits x.toBits := by
      rw [hmagnitude, neg_unpack hexponent hmantissa hnegative hsign]
      rfl
    _ = x := Float.ofBits_toBits x

end Secant.Binary64
