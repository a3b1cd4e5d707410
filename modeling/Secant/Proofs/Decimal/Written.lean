import Secant.Expr
import Secant.Proofs.Decimal.Plain
import Secant.Report

/-!
Numbers written out in digits, perhaps with an exponent behind them. This is how the magnitude of a
finite number is shown, as a result as well as in an expression, and what is shown reads back.
-/

namespace Secant.Decimal

open Text (isDigit)

def power (minus : Bool) (digits : List Char) : ℤ :=
  if minus then -(digitsValue digits : ℤ) else digitsValue digits

/-- Plain digits, and perhaps an exponent, with the decimal that they write. -/
inductive Written : List Char → Decimal → Prop
  | plain {cs : List Char} {d : Decimal} : Plain cs d → Written cs d
  | scaled {cs digits : List Char} {d : Decimal} (minus : Bool) :
      Plain cs d → digits ≠ [] → (∀ c ∈ digits, isDigit c = true) →
        Written (cs ++ 'e' :: (if minus then ['-'] else []) ++ digits)
          ⟨d.digits, d.exponent + power minus digits⟩

/-! ### Reading -/

theorem exponent?_eq {digits : List Char} (minus : Bool) (hne : digits ≠ [])
    (hdigits : ∀ c ∈ digits, isDigit c = true) :
    exponent? ('e' :: (if minus then ['-'] else []) ++ digits) = some (power minus digits) := by
  have hsplit : splitSign ((if minus then ['-'] else []) ++ digits) = (minus, digits) := by
    cases minus with
    | true => rfl
    | false =>
        obtain ⟨first, rest, rfl⟩ := List.exists_cons_of_ne_nil hne
        exact splitSign_of_startsNumber rest (.inl (hdigits first List.mem_cons_self))
  have hall : digits.all isDigit = true := List.all_eq_true.2 hdigits
  rw [List.cons_append, exponent?]
  simp [hsplit, hall, hne, power]

theorem unsigned?_of_written {cs : List Char} {d : Decimal} (h : Written cs d) :
    unsigned? cs = some d := by
  cases h with
  | plain hplain => exact unsigned?_of_plain hplain
  | scaled minus hplain hne hdigits =>
      rw [List.append_assoc, unsigned?_plain_append hplain (by simp [isDigit]),
        exponent?_eq minus hne hdigits]
      rfl

theorem Written.exists_cons {cs : List Char} {d : Decimal} (h : Written cs d) :
    ∃ first rest, cs = first :: rest ∧ isDigit first = true := by
  cases h with
  | plain hplain => exact hplain.exists_cons
  | scaled minus hplain _ _ =>
      obtain ⟨first, rest, rfl, hfirst⟩ := hplain.exists_cons
      exact ⟨first, _, rfl, hfirst⟩

/-- What is written is read as the decimal that is written. -/
theorem number?_of_written {cs : List Char} {d : Decimal} (h : Written cs d) :
    number? (String.ofList cs) = some d.toFloat := by
  obtain ⟨first, rest, rfl, hfirst⟩ := h.exists_cons
  rw [number?_of_startsNumber rest (.inl hfirst), unsigned?_of_written h]
  rfl

/-! ### Writing -/

theorem exists_plain_shown (d : Decimal) :
    ∃ d', Plain (pointed ['.', '0'] (Nat.toDigits 10 d.digits) d.exponent) d' ∧
      d'.value = d.value := by
  by_cases hwhole : 0 ≤ d.exponent
  · obtain ⟨n, hn⟩ := Int.eq_ofNat_of_zero_le hwhole
    have hne : Nat.toDigits 10 d.digits ++ zeros d.exponent ≠ [] :=
      List.append_ne_nil_of_left_ne_nil Nat.toDigits_ne_nil _
    have hdigits : ∀ c ∈ Nat.toDigits 10 d.digits ++ zeros d.exponent, isDigit c = true := by
      simp only [List.mem_append]
      rintro c (hmem | hmem)
      · exact isDigit_of_mem_toDigits hmem
      · exact isDigit_of_mem_zeros hmem
    have hzero (digits : List Char) : digitsValue (digits ++ ['0']) = 10 ^ 1 * digitsValue digits :=
      digitsValue_append_zeros digits 1
    rw [pointed, if_pos hwhole]
    have htail : ∀ c ∈ ['0'], isDigit c = true := by simp [isDigit]
    refine ⟨_, .pointed hne hdigits htail, ?_⟩
    rw [hzero, digitsValue_append_zeros, digitsValue_toDigits, value, value, hn]
    norm_num
    ring
  · have htail : pointed ['.', '0'] (Nat.toDigits 10 d.digits) d.exponent =
        pointed [] (Nat.toDigits 10 d.digits) d.exponent := by
      simp only [pointed, if_neg hwhole]
    rw [htail]
    exact exists_plain_pointed d

theorem power_toDigits (leading : ℤ) :
    power (decide (leading < 0)) (Nat.toDigits 10 leading.natAbs) = leading := by
  rw [power, digitsValue_toDigits]
  split
  · rename_i hlt
    have := of_decide_eq_true hlt
    omega
  · rename_i hge
    have := of_decide_eq_false (Bool.eq_false_iff.2 hge)
    omega

/-- With the point put behind the first of them and an exponent that makes up for it, digits write
the decimal that they are. -/
theorem exists_written_scaled (d : Decimal) {digits : List Char}
    (hdigits : digits = Nat.toDigits 10 d.digits) :
    ∃ d', Written (scaled digits (digits.length + d.exponent - 1)) d' ∧ d'.value = d.value := by
  have hvalue : digitsValue digits = d.digits := by rw [hdigits, digitsValue_toDigits]
  have hall : ∀ c ∈ digits, isDigit c = true := by
    rw [hdigits]
    exact fun c hmem => isDigit_of_mem_toDigits hmem
  have hne : digits ≠ [] := by
    rw [hdigits]
    exact Nat.toDigits_ne_nil
  obtain ⟨first, fraction, rfl⟩ := List.exists_cons_of_ne_nil hne
  obtain ⟨hfirst, hfraction⟩ := List.forall_mem_cons.1 hall
  have hplain : Plain (first :: if fraction.isEmpty then [] else '.' :: fraction)
      ⟨d.digits, -fraction.length⟩ := by
    rw [← hvalue]
    cases fraction with
    | nil => exact .whole hne hall
    | cons second more =>
        exact Plain.pointed (List.cons_ne_nil first []) (by simpa using hfirst) hfraction
  have hleading (leading : ℤ) : Written (scaled (first :: fraction) leading)
      ⟨d.digits, -fraction.length + leading⟩ := by
    have hwritten := Written.scaled (decide (leading < 0)) hplain Nat.toDigits_ne_nil
      fun c hmem => isDigit_of_mem_toDigits (n := leading.natAbs) hmem
    rw [power_toDigits] at hwritten
    simpa [scaled] using hwritten
  -- The places behind the point and the exponent make up the exponent of the decimal.
  refine ⟨_, hleading _, congrArg (d.digits * (10 : ℚ) ^ ·) ?_⟩
  rw [List.length_cons]
  push_cast
  omega

theorem exists_written_digits (d : Decimal) :
    ∃ d', Written (resultNumber.digits d) d' ∧ d'.value = d.value := by
  simp only [Layout.digits]
  split
  · obtain ⟨d', hplain, hvalue⟩ := exists_plain_shown d
    exact ⟨d', .plain hplain, hvalue⟩
  · exact exists_written_scaled d rfl

/-- The layout writes the magnitudes of finite numbers so that they are read back. -/
def Layout.Readable (layout : Layout) : Prop :=
  ∀ bits < Binary64.infinity, ∃ d : Decimal, Written (layout.magnitude bits) d ∧ d.magnitude = bits

/-- The shortest digits of a number lie so near to it that they are read as no other. -/
theorem Layout.readable_of_digits {layout : Layout} {d : Decimal}
    (hzero : Written ('0' :: layout.wholeTail) d)
    (hmagnitude : d.magnitude = 0)
    (hdigits : ∀ d : Decimal, ∃ d', Written (layout.digits d) d' ∧ d'.value = d.value) :
    layout.Readable := by
  intro bits h
  unfold Layout.magnitude
  split
  · rename_i hbits
    exact ⟨d, hzero, hmagnitude.trans hbits.symm⟩
  · rename_i hnonzero
    rw [if_neg h.ne]
    obtain ⟨d, hwritten, hvalue⟩ := hdigits (shortest (.ofMagnitude bits))
    have hcovers : (Binary64.Parts.ofMagnitude bits).Covers d.value := by
      rw [hvalue]
      exact covers_shortest _
    exact ⟨d, hwritten, magnitude_eq (Binary64.Parts.holds_ofMagnitude bits)
      (Nat.pos_of_ne_zero hnonzero) h hcovers⟩

theorem readable_exprNumber : exprNumber.Readable := by
  have hzero : Plain ['0'] ⟨0, 0⟩ := Plain.whole (List.cons_ne_nil '0' []) (by simp [isDigit])
  refine Layout.readable_of_digits (.plain hzero) rfl fun d => ?_
  obtain ⟨d', hplain, hvalue⟩ := exists_plain_pointed d
  exact ⟨d', .plain hplain, hvalue⟩

theorem readable_resultNumber : resultNumber.Readable := by
  have hzero : Plain ['0', '.', '0'] ⟨0, -1⟩ :=
    Plain.pointed (List.cons_ne_nil '0' []) (by simp [isDigit]) (by simp [isDigit])
  exact Layout.readable_of_digits (.plain hzero) rfl exists_written_digits

end Secant.Decimal
