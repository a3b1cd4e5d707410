import Secant.Proofs.ErrorPlaces
import Secant.Proofs.Rereading

/-!
Where the leaves of a tree come from that was read from a text. Its numbers were written without a
sign or are constants, so they are numbers and not negative; its variables are names in the text,
and none of them is a constant; its calls are calls of functions. So nothing that is free in it is a
constant, and no evaluation of it comes upon a function that there is not.
-/

namespace Secant

namespace Constant

theorem value?_eq_none_iff {canonical : String} :
    value? canonical = none ↔ canonical ≠ "e" ∧ canonical ≠ "pi" := by
  rw [value?, Option.map_eq_none_iff, List.find?_eq_none]
  simp [all, eq_comm (b := canonical)]

end Constant

namespace Expr

open Environment

/-- What the numbers, the variables and the calls are in a tree that is read from this text. -/
def comesFrom (text : String) : Traits where
  number value := value.isNaN = false ∧ Binary64.isNegative value = false
  var name :=
    (∃ token : Token, token.IsOf text ∧ token.lexeme = .name name) ∧
      Text.lower name ≠ "e" ∧ Text.lower name ≠ "pi"
  call name canonical _ := canonical = Text.lower name ∧ Builtin.isFunction canonical = true

theorem isNaN_of_number? {text : String} {value : Float} (htyped : (Lexeme.number text).IsTyped)
    (h : Decimal.number? text = some value) : value.isNaN = false := by
  obtain ⟨d, rfl⟩ := exists_decimal_of_number? htyped h
  exact Binary64.isNaN_ofMagnitude d.magnitude_le_infinity

theorem isNaN_of_constant {name : String} {value : Float} (h : Constant.value? name = some value) :
    value.isNaN = false := by
  have hall : ∀ constant ∈ Constant.all, constant.value.isNaN = false := by decide +kernel
  obtain ⟨constant, hfind, rfl⟩ := Option.map_eq_some_iff.1 h
  exact hall constant (List.mem_of_find?_eq_some hfind)

theorem has_comesFrom_of_ofText {text : String} {e : Expr} (h : ofText text = .ok e) :
    e.Has (comesFrom text) := by
  obtain ⟨tokens, htokenize, hread⟩ := exists_tokens_of_ofText h
  refine ((has_of_ofTokens hread).both (wellRead_of_ofText h)).mono ⟨?_, ?_, ?_⟩
  · rintro value ⟨⟨text, hmem, hnumber⟩ | ⟨name, -, hconstant⟩, hsign⟩
    · exact ⟨isNaN_of_number? (isTyped_of_mem_sentence htokenize hmem) hnumber, hsign⟩
    · exact ⟨isNaN_of_constant hconstant, hsign⟩
  · rintro name ⟨⟨hmem, hnone⟩, -⟩
    obtain ⟨token, htoken, -, hlexeme⟩ := Token.exists_of_mem_sentence hmem
    exact ⟨⟨token, ⟨tokens, htokenize, htoken⟩, hlexeme⟩, Constant.value?_eq_none_iff.1 hnone⟩
  · rintro name canonical args ⟨⟨-, hcanonical, hfunction⟩, -⟩
    exact ⟨hcanonical, hfunction⟩

/-- In a tree that is read from a text every number is one, with the sign of a positive number,
every variable is a name in the text, no constant in whatever case, and every call is of a function,
by its name in lower case. So no constant is free in it, and wherever it is evaluated no function is
unknown. -/
theorem comesFrom_of_ofText {text : String} {e : Expr} (h : ofText text = .ok e) :
    e.Has (comesFrom text) ∧
      (∀ name ∈ e.free, Text.lower name ≠ "e" ∧ Text.lower name ≠ "pi") ∧
      ∀ (config : EvalConfig) (env : Environment) (name : String),
        Evaluation.outcome (e.eval config) env ≠ .error (.unknownFunction name) := by
  have hhas := has_comesFrom_of_ofText h
  refine ⟨hhas, fun name hfree => (hhas.var_of_mem_free hfree).2, fun config env name => ?_⟩
  rw [(keeps_eval config e env).outcome_eq]
  exact not_unknownFunction_of_ofText h

def powerText : String :=
  "1e400^Ln(x_1$)-PI"

/-- The first number is infinite, and one of the names is a constant in capitals. -/
theorem comesFrom_of_ofText_power :
    ∃ e, ofText powerText = .ok e ∧ e.text = "((inf ^ Ln(x_1$)) - 3.141592653589793)" ∧
      e.Has (comesFrom powerText) ∧
      (∀ name ∈ e.free, Text.lower name ≠ "e" ∧ Text.lower name ≠ "pi") ∧
      ∀ (config : EvalConfig) (env : Environment) (name : String),
        Evaluation.outcome (e.eval config) env ≠ .error (.unknownFunction name) := by
  have htext : (ofText powerText).toOption.map Expr.text =
      some "((inf ^ Ln(x_1$)) - 3.141592653589793)" := by decide +kernel
  cases hread : ofText powerText with
  | error error =>
      rw [hread] at htext
      cases htext
  | ok e =>
      rw [hread] at htext
      exact ⟨e, rfl, Option.some.inj htext, comesFrom_of_ofText hread⟩

end Expr

end Secant
