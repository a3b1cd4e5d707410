import Secant.Definition
import Secant.Proofs.Evaluation
import Secant.Proofs.Rereading

/-!
Entering a shown result again. The text of a result has digits, a point, an exponent mark and minus
signs, so it is one number for the reader of answers, and a number or its negation for the reader of
expressions. Either way the number that was shown comes back.
-/

namespace Secant

open Text Decimal

/-! ### As an answer -/

/-- A character that people may type around a number or in place of its point. -/
def adjusted (c : Char) : Bool :=
  isBlank c || c == ','

theorem adjusted_eq_false_of_isDigit {c : Char} (h : isDigit c = true) : adjusted c = false := by
  have hall : ∀ n < 58, isDigit (Char.ofNat n) = true → adjusted (Char.ofNat n) = false := by decide
  have hlt := Nat.lt_succ_of_le (toNat_of_startsNumber (.inl h)).2
  have hc := hall c.toNat hlt
  rw [Char.ofNat_toNat] at hc
  exact hc h

theorem NumberInput.ofText_of_number? {text : String} {x : Float}
    (hplain : ∀ c ∈ text.toList, adjusted c = false) (h : number? text = some x) :
    NumberInput.ofText text = .number x := by
  have hblank : ∀ c ∈ text.toList, isBlank c = false := fun c hmem =>
    (Bool.or_eq_false_iff.1 (hplain c hmem)).1
  have htrim : trimChars text.toList = text.toList := by
    have htrim := congrArg String.toList (trim_eq_self hblank)
    rwa [trim, String.toList_ofList] at htrim
  have hmap : text.toList.map (fun c => if c = ',' then '.' else c) = text.toList := by
    refine (List.map_congr_left fun c hmem => ?_).trans (List.map_id _)
    have hcomma := (Bool.or_eq_false_iff.1 (hplain c hmem)).2
    exact if_neg (beq_eq_false_iff_ne.1 hcomma)
  have hne : text.toList.isEmpty = false := by
    rw [Bool.eq_false_iff, Ne, List.isEmpty_iff]
    intro hnil
    have hnothing : number? "" = none := by cbv
    rw [String.toList_eq_nil_iff] at hnil
    rw [hnil, hnothing] at h
    cases h
  rw [NumberInput.ofText, htrim, hmap, hne, if_neg Bool.false_ne_true, String.ofList_toList, h]

theorem Decimal.Written.adjusted_eq_false {cs : List Char} {d : Decimal} (h : Written cs d) :
    ∀ c ∈ cs, adjusted c = false := by
  have hplain {cs : List Char} {d : Decimal} (h : Plain cs d) : ∀ c ∈ cs, adjusted c = false := by
    cases h with
    | whole _ hdigits => exact fun c hmem => adjusted_eq_false_of_isDigit (hdigits c hmem)
    | pointed _ hdigits hfraction =>
        simp only [List.mem_append, List.mem_cons]
        rintro c (hmem | rfl | hmem)
        · exact adjusted_eq_false_of_isDigit (hdigits c hmem)
        · decide
        · exact adjusted_eq_false_of_isDigit (hfraction c hmem)
  cases h with
  | plain h => exact hplain h
  | scaled minus h _ hdigits =>
      simp only [List.mem_append, List.mem_cons]
      rintro c ((hmem | rfl | hmem) | hmem)
      · exact hplain h c hmem
      · decide
      · cases minus <;> simp at hmem
        subst hmem
        decide
      · exact adjusted_eq_false_of_isDigit (hdigits c hmem)

theorem Decimal.number?_minus {cs : List Char} {x : Float} (hsign : splitSign cs = (false, cs))
    (h : number? (String.ofList cs) = some x) :
    number? (String.ofList ('-' :: cs)) = some (-x) := by
  rw [number?, String.toList_ofList, hsign] at h
  rw [number?, String.toList_ofList]
  obtain ⟨y, hread, rfl⟩ := Option.map_eq_some_iff.1 h
  simp [splitSign, hread]

/-- The magnitudes of all numbers are read back, infinity as a word. -/
theorem number?_magnitude {layout : Layout} (hlayout : layout.Readable) {bits : ℕ}
    (h : bits ≤ Binary64.infinity) :
    (∀ c ∈ layout.magnitude bits, adjusted c = false) ∧
      splitSign (layout.magnitude bits) = (false, layout.magnitude bits) ∧
      number? (String.ofList (layout.magnitude bits)) = some (Binary64.ofMagnitude bits) := by
  rcases Nat.lt_or_eq_of_le h with hfinite | rfl
  · obtain ⟨d, hwritten, hmagnitude⟩ := hlayout bits hfinite
    refine ⟨hwritten.adjusted_eq_false, ?_, ?_⟩
    · obtain ⟨first, rest, heq, hfirst⟩ := hwritten.exists_cons
      rw [heq]
      exact splitSign_of_startsNumber rest (.inl hfirst)
    · rw [number?_of_written hwritten, Decimal.toFloat, hmagnitude]
  · have hword : layout.magnitude Binary64.infinity = ['i', 'n', 'f'] := rfl
    rw [hword]
    refine ⟨?_, rfl, by rfl⟩
    have hall : ['i', 'n', 'f'].all (fun c => !adjusted c) = true := by decide
    simpa using List.all_eq_true.1 hall

theorem number?_text {layout : Layout} (hlayout : layout.Readable) {x : Float}
    (hnumber : x.isNaN = false) :
    (∀ c ∈ (layout.text x).toList, adjusted c = false) ∧ number? (layout.text x) = some x := by
  have hle : Binary64.magnitude x ≤ Binary64.infinity := by
    rw [Bool.eq_false_iff, Ne, Binary64.isNaN_iff] at hnumber
    exact Nat.not_lt.1 hnumber
  obtain ⟨hplain, hsign, hread⟩ := number?_magnitude hlayout hle
  rw [Layout.text, String.toList_ofList, Layout.chars, hnumber, if_neg Bool.false_ne_true]
  split
  · rename_i hnegative
    refine ⟨?_, ?_⟩
    · simp only [List.singleton_append, List.forall_mem_cons]
      exact ⟨by decide, hplain⟩
    · rw [List.singleton_append, number?_minus hsign hread,
        Binary64.neg_ofMagnitude_magnitude hnumber hnegative]
  · rename_i hpositive
    rw [List.nil_append, hread, Binary64.ofMagnitude_magnitude (Bool.eq_false_iff.2 hpositive)]
    exact ⟨hplain, rfl⟩

/-! ### As an expression -/

theorem Expr.eval_withSigns_number (config : EvalConfig) {x : Float} (hnumber : x.isNaN = false)
    (env : Environment) : (number x).withSigns.eval config env = .ok x env := by
  rw [withSigns]
  split
  · rename_i hnegative
    have hneg : -x.abs = x := by
      rw [Binary64.abs_eq_ofMagnitude, Binary64.neg_ofMagnitude_magnitude hnumber hnegative]
    rw [eval, eval]
    exact congrArg (EStateM.Result.ok · env) hneg
  · rfl

theorem Expr.ofText_text_number {layout : Layout} (hlayout : layout.Readable) {x : Float}
    (h : x.isFinite = true) : ofText (layout.text x) = .ok (number x).withSigns := by
  have hspells : Spells (layout.text x).toList (numeral layout x) := by
    rw [Layout.text, String.toList_ofList]
    exact spells_numeral hlayout h
  obtain ⟨-, hread⟩ | ⟨hdeep, -⟩ :=
    ofText_of_spells hspells (sentence_of_unary (unary_numeral hlayout h))
  · exact hread
  · have hle : (number x).textLevels ≤ 1 := by
      rw [textLevels]
      split <;> decide
    exact absurd (Nat.lt_of_lt_of_le hdeep hle) (by decide)

/-! ### Both ways -/

/-- A shown number is entered again as an answer, and evaluated again if it is finite, as the number
that was shown, to the bit and with the sign of zero. -/
theorem value_entered_again (x : Float) (hnumber : x.isNaN = false) :
    NumberInput.ofText (Report.value x) = .number x ∧
      (x.isFinite = true → ∀ env, evalText (Report.value x) env = (.ok x, env)) := by
  obtain ⟨hplain, hread⟩ := number?_text readable_resultNumber hnumber
  refine ⟨NumberInput.ofText_of_number? hplain hread, fun hfinite env => ?_⟩
  rw [evalText, Report.value, Expr.ofText_text_number readable_resultNumber hfinite]
  simp only [Expr.eval_withSigns_number .default hnumber env]

/-- A sign and an exponent are entered again, and so is minus infinity. -/
theorem value_entered_again_scaled :
    NumberInput.ofText "-1.5e-7" = .number (-1.5e-7) ∧
      evalText "-1.5e-7" .empty = (.ok (-1.5e-7), .empty) ∧
      NumberInput.ofText "-inf" = .number (-1 / 0) := by
  have hscaled : Report.value (-1.5e-7) = "-1.5e-7" := by decide +kernel
  have hinfinite : Report.value (-1 / 0) = "-inf" := by decide +kernel
  obtain ⟨hanswer, heval⟩ := value_entered_again (-1.5e-7) (by decide +kernel)
  have hword := (value_entered_again (-1 / 0) (by decide +kernel)).1
  rw [hscaled] at hanswer heval
  rw [hinfinite] at hword
  exact ⟨hanswer, heval (by decide +kernel) .empty, hword⟩

end Secant
