import Mathlib.Data.Prod.Lex
import Mathlib.Order.Compare
import Mathlib.Algebra.Order.Ring.Int

/-!
Numbers in order. Every number has a rank among all numbers, and one number is less than another
where its rank is, as long as neither of them is what is no number. So comparisons can be chained.
-/

namespace Secant.Binary64

open Float.Model

/-- The kind of a number, from minus infinity to infinity, then its exponent and then its mantissa.
On the negative side these count downwards. -/
def rank : UnpackedFloat → ℤ ×ₗ ℤ ×ₗ ℤ
  | .infinity .negative => toLex (-2, toLex (0, 0))
  | .finite .negative mantissa exponent _ => toLex (-1, toLex (-exponent, -mantissa))
  | .zero _ => toLex (0, toLex (0, 0))
  | .finite .positive mantissa exponent _ => toLex (1, toLex (exponent, mantissa))
  | .infinity .positive => toLex (2, toLex (0, 0))
  | .notANumber => toLex (3, toLex (0, 0))

theorem rank_negative {m : ℕ} (e : ℤ) (h : 0 < m) :
    rank (.finite .negative m e h) = toLex ((-1 : ℤ), toLex (-e, -(m : ℤ))) :=
  rfl

theorem rank_positive {m : ℕ} (e : ℤ) (h : 0 < m) :
    rank (.finite .positive m e h) = toLex ((1 : ℤ), toLex (e, (m : ℤ))) :=
  rfl

theorem compare_toLex {α β : Type} [LinearOrder α] [LinearOrder β] (a a' : α) (b b' : β) :
    compare (toLex (a, b)) (toLex (a', b')) = (compare a a').then (compare b b') := by
  rw [Prod.Lex.compare_def]
  rfl

theorem compare_neg_neg (a b : ℤ) : compare (-a) (-b) = (compare a b).swap := by
  have hneg : StrictAnti fun a : ℤ => -a := fun _ _ h => neg_lt_neg h
  rw [← cmp_eq_compare, ← cmp_eq_compare, cmp_swap, hneg.cmp_map_eq]

theorem compare_natCast (m n : ℕ) : compare (m : ℤ) n = compare m n := by
  have hcast : StrictMono fun n : ℕ => (n : ℤ) := fun _ _ h => Int.ofNat_lt.2 h
  rw [← cmp_eq_compare, ← cmp_eq_compare, hcast.cmp_map_eq]

variable {x y : UnpackedFloat}

/-- Numbers compare as their ranks do. -/
theorem compare_eq_compare_rank (hx : x ≠ .notANumber) (hy : y ≠ .notANumber) :
    x.compare y = some (compare (rank x) (rank y)) := by
  rcases x with (_ | _) | _ | _ | ⟨_ | _, m, e, _⟩ <;>
    rcases y with (_ | _) | _ | _ | ⟨_ | _, m', e', _⟩
  case finite.negative.finite.negative =>
    rw [rank_negative, rank_negative, compare_toLex, compare_toLex, compare_neg_neg e,
      compare_neg_neg (m : ℤ), compare_natCast, ← Ordering.swap_then]
    rfl
  case finite.positive.finite.positive =>
    rw [rank_positive, rank_positive, compare_toLex, compare_toLex, compare_natCast]
    rfl
  all_goals first | rfl | exact absurd rfl hx | exact absurd rfl hy

theorem ne_notANumber_of_compare {o : Ordering} (h : x.compare y = some o) :
    x ≠ .notANumber ∧ y ≠ .notANumber := by
  constructor
  · rintro rfl
    cases h
  · rintro rfl
    cases x <;> cases h

theorem lt_iff_rank :
    x.lt y = true ↔ x ≠ .notANumber ∧ y ≠ .notANumber ∧ rank x < rank y := by
  rw [UnpackedFloat.lt, beq_iff_eq]
  constructor
  · intro h
    obtain ⟨hx, hy⟩ := ne_notANumber_of_compare h
    rw [compare_eq_compare_rank hx hy, Option.some.injEq] at h
    exact ⟨hx, hy, compare_lt_iff_lt.1 h⟩
  · rintro ⟨hx, hy, h⟩
    rw [compare_eq_compare_rank hx hy, compare_lt_iff_lt.2 h]

theorem le_iff_rank :
    x.le y = true ↔ x ≠ .notANumber ∧ y ≠ .notANumber ∧ rank x ≤ rank y := by
  rw [UnpackedFloat.le, Option.any_eq_true]
  constructor
  · rintro ⟨o, h, hle⟩
    obtain ⟨hx, hy⟩ := ne_notANumber_of_compare h
    rw [compare_eq_compare_rank hx hy, Option.some.injEq] at h
    subst h
    exact ⟨hx, hy, compare_le_iff_le.1 (Ordering.isLE_iff_ne_gt.1 hle)⟩
  · rintro ⟨hx, hy, h⟩
    exact ⟨_, compare_eq_compare_rank hx hy, Ordering.isLE_iff_ne_gt.2 (compare_le_iff_le.2 h)⟩

theorem lt_of_lt_le {a b c : Float} (hab : a < b) (hbc : b ≤ c) : a < c := by
  obtain ⟨ha, -, hlt⟩ := lt_iff_rank.1 (of_decide_eq_true hab)
  obtain ⟨-, hc, hle⟩ := le_iff_rank.1 (of_decide_eq_true hbc)
  exact decide_eq_true (lt_iff_rank.2 ⟨ha, hc, hlt.trans_le hle⟩)

end Secant.Binary64
