import Secant.Decimal.Layout
import Secant.Decimal.Numeral
import Secant.Proofs.Decimal.ReadBack

/-!
Numbers written out in digits, without a sign and without an exponent. With the point put where it
belongs the digits write a decimal, and what is read is that decimal.
-/

namespace Secant.Decimal

open Text (isDigit)

/-- Digits, and perhaps a point and more digits behind it, with the decimal that they write. -/
inductive Plain : List Char → Decimal → Prop
  | whole {digits : List Char} :
      digits ≠ [] → (∀ c ∈ digits, isDigit c = true) → Plain digits ⟨digitsValue digits, 0⟩
  | pointed {digits fraction : List Char} :
      digits ≠ [] → (∀ c ∈ digits, isDigit c = true) → (∀ c ∈ fraction, isDigit c = true) →
        Plain (digits ++ '.' :: fraction) ⟨digitsValue (digits ++ fraction), -fraction.length⟩

/-! ### Digits -/

theorem isDigit_of_mem_toDigits {n : ℕ} {c : Char} (h : c ∈ Nat.toDigits 10 n) :
    isDigit c = true :=
  Nat.isDigit_of_mem_toDigits (by decide) (by decide) h

theorem digitsValue_toDigits (n : ℕ) : digitsValue (Nat.toDigits 10 n) = n :=
  Nat.ofDigitChars_toDigits (by decide) (by decide)

theorem isDigit_of_mem_zeros {count : ℤ} {c : Char} (h : c ∈ zeros count) : isDigit c = true := by
  rw [List.eq_of_mem_replicate h]
  rfl

theorem digitsValue_append_zeros (digits : List Char) (count : ℤ) :
    digitsValue (digits ++ zeros count) = 10 ^ count.toNat * digitsValue digits :=
  (Nat.ofDigitChars_append 0).trans Nat.ofDigitChars_replicate_zero

theorem digitsValue_zeros_append (count : ℤ) (digits : List Char) :
    digitsValue ('0' :: (zeros count ++ digits)) = digitsValue digits := by
  calc digitsValue ('0' :: (zeros count ++ digits))
      = Nat.ofDigitChars 10 digits (Nat.ofDigitChars 10 (zeros count) 0) :=
        Nat.ofDigitChars_append 0
    _ = digitsValue digits := by rw [zeros, Nat.ofDigitChars_replicate_zero, Nat.mul_zero]; rfl

/-! ### Writing -/

/-- With the point put where it belongs, digits write the decimal that they are. -/
theorem exists_plain_pointed (d : Decimal) :
    ∃ d', Plain (Decimal.pointed [] (Nat.toDigits 10 d.digits) d.exponent) d' ∧
      d'.value = d.value := by
  have hne : Nat.toDigits 10 d.digits ≠ [] := Nat.toDigits_ne_nil
  have hdigits : ∀ c ∈ Nat.toDigits 10 d.digits, isDigit c = true :=
    fun c hmem => isDigit_of_mem_toDigits hmem
  have hvalue := digitsValue_toDigits d.digits
  unfold Decimal.pointed
  generalize Nat.toDigits 10 d.digits = digits at *
  dsimp only
  split
  · -- Zeros fill the places up to the point.
    rename_i hwhole
    obtain ⟨n, hn⟩ := Int.eq_ofNat_of_zero_le hwhole
    refine ⟨_, .whole (by simp [hne]) ?_, ?_⟩
    · simp only [List.append_nil, List.mem_append]
      rintro c (hmem | hmem)
      · exact hdigits c hmem
      · exact isDigit_of_mem_zeros hmem
    · simp [value, digitsValue_append_zeros, hvalue, hn, mul_comm]
  · rename_i hfraction
    split
    · -- The point stands among the digits.
      rename_i hahead
      refine ⟨_, .pointed ?_ ?_ ?_, ?_⟩
      · simp [hne]
        omega
      · exact fun c hmem => hdigits c (List.mem_of_mem_take hmem)
      · exact fun c hmem => hdigits c (List.mem_of_mem_drop hmem)
      · have hplaces : (-(digits.drop (digits.length + d.exponent).toNat).length : ℤ) =
            d.exponent := by
          rw [List.length_drop]
          omega
        rw [List.take_append_drop, hvalue, hplaces]
    · -- The point stands before them, with zeros between.
      rename_i hbehind
      have hshape : ∀ cs : List Char, '0' :: '.' :: cs ++ digits = ['0'] ++ '.' :: (cs ++ digits) :=
        fun _ => rfl
      rw [hshape]
      refine ⟨_, .pointed (by simp) (by simp [isDigit]) ?_, ?_⟩
      · simp only [List.mem_append]
        rintro c (hmem | hmem)
        · exact isDigit_of_mem_zeros hmem
        · exact hdigits c hmem
      · have hplaces : (-(zeros (-(digits.length + d.exponent)) ++ digits).length : ℤ) =
            d.exponent := by
          rw [List.length_append, zeros, List.length_replicate]
          omega
        rw [List.singleton_append, digitsValue_zeros_append, hvalue, hplaces]

/-! ### Reading -/

theorem takeWhile_digits {digits : List Char} (rest : List Char)
    (hdigits : ∀ c ∈ digits, isDigit c = true) (hrest : ∀ c ∈ rest.head?, isDigit c = false) :
    (digits ++ rest).takeWhile isDigit = digits ∧ (digits ++ rest).dropWhile isDigit = rest := by
  rw [List.takeWhile_append_of_pos hdigits, List.dropWhile_append_of_pos hdigits]
  cases rest with
  | nil => simp
  | cons c rest => simp [hrest c rfl]

theorem unsigned?_plain_append {cs rest : List Char} {d : Decimal} (h : Plain cs d)
    (hrest : ∀ c ∈ rest.head?, isDigit c = false ∧ c ≠ '.') :
    unsigned? (cs ++ rest) =
      (exponent? rest).map fun exponent => ⟨d.digits, d.exponent + exponent⟩ := by
  have hdigit : ∀ c ∈ rest.head?, isDigit c = false := fun c hc => (hrest c hc).1
  cases h with
  | @whole digits hne hdigits =>
      obtain ⟨htake, hdrop⟩ := takeWhile_digits rest hdigits hdigit
      have hsplit : splitFraction rest = ([], rest) := by
        unfold splitFraction
        split
        · exact absurd rfl (hrest '.' rfl).2
        · rfl
      simp [unsigned?, htake, hdrop, hsplit, hne]
  | @pointed digits fraction hne hdigits hfraction =>
      obtain ⟨htake, hdrop⟩ :=
        takeWhile_digits ('.' :: (fraction ++ rest)) hdigits (by simp [isDigit])
      obtain ⟨htake', hdrop'⟩ := takeWhile_digits rest hfraction hdigit
      simp [unsigned?, htake, hdrop, htake', hdrop', splitFraction, hne, sub_eq_neg_add]

theorem unsigned?_of_plain {cs : List Char} {d : Decimal} (h : Plain cs d) :
    unsigned? cs = some d := by
  have hnothing : ∀ c ∈ ([] : List Char).head?, isDigit c = false ∧ c ≠ '.' := by simp
  simpa [exponent?] using unsigned?_plain_append h hnothing

theorem Plain.exists_cons {cs : List Char} {d : Decimal} (h : Plain cs d) :
    ∃ first rest, cs = first :: rest ∧ isDigit first = true := by
  cases h with
  | whole hne hdigits =>
      obtain ⟨first, rest, rfl⟩ := List.exists_cons_of_ne_nil hne
      exact ⟨first, rest, rfl, hdigits first List.mem_cons_self⟩
  | pointed hne hdigits _ =>
      obtain ⟨first, rest, rfl⟩ := List.exists_cons_of_ne_nil hne
      exact ⟨first, _, rfl, hdigits first List.mem_cons_self⟩

theorem toNat_of_startsNumber {first : Char} (h : isDigit first = true ∨ first = '.') :
    46 ≤ first.toNat ∧ first.toNat ≤ 57 := by
  rcases h with h | rfl
  · simp only [isDigit, Bool.and_eq_true, decide_eq_true_eq] at h
    have hlow := UInt32.le_iff_toNat_le.1 h.1
    have hhigh := UInt32.le_iff_toNat_le.1 h.2
    exact ⟨Nat.le_trans (by decide) hlow, hhigh⟩
  · decide

theorem splitSign_of_startsNumber {first : Char} (rest : List Char)
    (h : isDigit first = true ∨ first = '.') :
    splitSign (first :: rest) = (false, first :: rest) := by
  unfold splitSign
  split
  · rename_i heq
    cases heq
    simp [isDigit] at h
  · rename_i heq
    cases heq
    simp [isDigit] at h
  · rfl

theorem toLower_of_startsNumber {first : Char} (h : isDigit first = true ∨ first = '.') :
    first.toLower = first := by
  have hall : ∀ n < 58, (Char.ofNat n).toLower = Char.ofNat n := by decide
  simpa using hall first.toNat (Nat.lt_succ_of_le (toNat_of_startsNumber h).2)

/-- What begins like a number has no sign before it and is no word. -/
theorem number?_of_startsNumber {first : Char} (rest : List Char)
    (h : isDigit first = true ∨ first = '.') :
    number? (String.ofList (first :: rest)) = (unsigned? (first :: rest)).map toFloat := by
  have hcode := toNat_of_startsNumber h
  have hne : ∀ (c : Char) (cs : List Char), 57 < c.toNat →
      String.ofList ((first :: rest).map Char.toLower) ≠ String.ofList (c :: cs) := by
    intro c cs hc heq
    have hfirst : first.toLower = c := by
      have heq := String.ofList_inj.1 heq
      rw [List.map_cons, List.cons.injEq] at heq
      exact heq.1
    rw [toLower_of_startsNumber h] at hfirst
    subst hfirst
    omega
  have hinf := hne 'i' ['n', 'f'] (by decide)
  have hinfinity := hne 'i' ['n', 'f', 'i', 'n', 'i', 't', 'y'] (by decide)
  have hnan := hne 'n' ['a', 'n'] (by decide)
  have hmagnitude : magnitude? (first :: rest) = (unsigned? (first :: rest)).map toFloat := by
    unfold magnitude?
    rw [if_neg (not_or.2 ⟨hinf, hinfinity⟩), if_neg hnan]
  rw [number?, String.toList_ofList, splitSign_of_startsNumber rest h]
  exact (congrArg (Option.map fun x => x) hmagnitude).trans Option.map_id'

end Secant.Decimal
