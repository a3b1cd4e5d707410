import Secant.Proofs.Decimal.Order
import Secant.Proofs.Evaluation
import Secant.Proofs.Parts

/-!
The threshold below which a divisor counts as zero. To raise it is to fail more often and to do
nothing else: the two evaluations go the same way, part by part, up to the first divisor that is
refused by the higher threshold only, and there the evaluation under that threshold ends.
-/

namespace Secant

variable {α β : Type}

/-- The second result is the first one, or else the failure of a division. -/
def Refused (result result' : Except EvalError α) : Prop :=
  result' = result ∨ result' = .error .divisionByZero

theorem Refused.refl (result : Except EvalError α) : Refused result result :=
  .inl rfl

/-- The first failure is the result, so nothing that comes behind a refused division can hide it. -/
theorem Refused.bind {x x' : Except EvalError α} {f f' : α → Except EvalError β}
    (hx : Refused x x') (hf : ∀ a, Refused (f a) (f' a)) : Refused (x >>= f) (x' >>= f') := by
  rcases hx with rfl | rfl
  · cases x' with
    | ok a => exact hf a
    | error error => exact .refl _
  · exact .inr rfl

/-- The same but for the threshold, which is no lower. -/
structure EvalConfig.Raises (config config' : EvalConfig) : Prop where
  defaultStep_eq : config'.defaultStep = config.defaultStep
  divisionEpsilon_le : config.divisionEpsilon ≤ config'.divisionEpsilon

variable {config config' : EvalConfig}

theorem Op.refused_apply (h : config.Raises config') (op : Op) (x y : Float) :
    Refused (op.apply config x y) (op.apply config' x y) := by
  cases op with
  | div =>
      rw [apply, apply]
      by_cases hzero : y.abs < config.divisionEpsilon
      · rw [if_pos hzero, if_pos (Binary64.lt_of_lt_le hzero h.divisionEpsilon_le)]
        exact .refl _
      · rw [if_neg hzero]
        split
        · exact .inr rfl
        · exact .refl _
  | add | sub | mul | pow => exact .refl _

namespace Expr

open Environment

theorem stepAround_eq (h : config.Raises config') (p : Float) (steps : List Float) :
    stepAround config' p steps = stepAround config p steps := by
  cases steps with
  | nil => rw [stepAround, stepAround, h.defaultStep_eq]
  | cons s _ => rw [stepAround, stepAround, h.defaultStep_eq]

theorem refused_quotient {f f' : Float → Except EvalError Float} (p h : Float)
    (hf : ∀ y, Refused (f y) (f' y)) : Refused (quotient f p h) (quotient f' p h) :=
  (hf _).bind fun _ => (hf _).bind fun _ => .refl _

mutual

theorem refused_value (h : config.Raises config') :
    ∀ (e : Expr) (valuation : Valuation),
      Refused (e.value config valuation) (e.value config' valuation)
  | number x, valuation => by
      rw [value, value]
      exact .refl _
  | var name, valuation => by
      rw [value, value]
      exact .refl _
  | neg operand, valuation => by
      have hoperand := refused_value h operand valuation
      rw [value, value]
      exact hoperand.bind fun x => .refl _
  | binary op left right, valuation => by
      have hleft := refused_value h left valuation
      have hright := refused_value h right valuation
      rw [value, value]
      exact hleft.bind fun x => hright.bind fun y => op.refused_apply h x y
  | call name canonical args, valuation => by
      have hargs := refused_valueList h args valuation
      have hderivative := refused_valueDerivative h name args valuation
      rw [value, value]
      split
      · exact .refl _
      · split
        · exact hderivative
        · exact hargs.bind fun xs => .refl _

theorem refused_valueList (h : config.Raises config') :
    ∀ (args : List Expr) (valuation : Valuation),
      Refused (valueList config args valuation) (valueList config' args valuation)
  | [], valuation => by
      rw [valueList, valueList]
      exact .refl _
  | first :: rest, valuation => by
      have hfirst := refused_value h first valuation
      have hrest := refused_valueList h rest valuation
      rw [valueList, valueList]
      exact hfirst.bind fun x => hrest.bind fun xs => .refl _

theorem refused_valueDerivative (h : config.Raises config') (name : String) :
    ∀ (args : List Expr) (valuation : Valuation),
      Refused (valueDerivative config name args valuation)
        (valueDerivative config' name args valuation)
  | body :: bound :: point :: asked, valuation => by
      have hbody := refused_value h body
      have hpoint := refused_value h point valuation
      have hsteps := refused_valueList h asked valuation
      by_cases hasked : asked.length ≤ 1
      · cases hbound : bound.asVar? with
        | none =>
            rw [valueDerivative_of_asVar?_eq_none config name hbound body point hasked,
              valueDerivative_of_asVar?_eq_none config' name hbound body point hasked]
            exact .refl _
        | some x =>
            rw [valueDerivative_of_asVar? config name hbound body point hasked,
              valueDerivative_of_asVar? config' name hbound body point hasked]
            -- Point and step that are not refused are the same numbers, and so are both places
            -- off the point at which the body is evaluated.
            refine hpoint.bind fun p => hsteps.bind fun steps => ?_
            rw [stepAround_eq h]
            exact refused_quotient p _ fun y => hbody (valuation.rebind x y)
      · rw [valueDerivative_of_length config name (length_notMem_counts hasked),
          valueDerivative_of_length config' name (length_notMem_counts hasked)]
        exact .refl _
  | [], _ => .refl _
  | [_], _ => .refl _
  | [_, _], _ => .refl _

end

/-- Under a higher threshold an evaluation comes to the very same value or the same error, or else a
division fails. Only numbers compare, so neither threshold is what is no number. -/
theorem outcome_eval_of_epsilon_le {epsilon epsilon' : Float} (h : epsilon ≤ epsilon')
    (defaultStep : Float) (e : Expr) (env : Environment) :
    Evaluation.outcome (e.eval ⟨epsilon', defaultStep⟩) env =
        Evaluation.outcome (e.eval ⟨epsilon, defaultStep⟩) env ∨
      Evaluation.outcome (e.eval ⟨epsilon', defaultStep⟩) env = .error .divisionByZero := by
  have hraises : EvalConfig.Raises ⟨epsilon, defaultStep⟩ ⟨epsilon', defaultStep⟩ := ⟨rfl, h⟩
  rw [(keeps_eval _ e env).outcome_eq, (keeps_eval _ e env).outcome_eq]
  exact refused_value hraises e env.lookup

def guardedDerivative : Expr :=
  callNamed "diff"
    [callNamed "sqrt" [binary .sub (var "y") (var "x")], var "x",
      binary .div (number 1) (var "z")]

/-- Far from zero the root has no value, but under the higher threshold the division at the point
is refused before any root is taken. -/
theorem outcome_eval_guardedDerivative :
    (1e-12 : Float) ≤ 1e-3 ∧
      Evaluation.outcome (guardedDerivative.eval ⟨1e-12, 1e-5⟩)
          (.ofList [("y", 0), ("z", 1e-6)]) = .error (.domain "sqrt" "negative argument") ∧
      (Evaluation.outcome (guardedDerivative.eval ⟨1e-3, 1e-5⟩)
          (.ofList [("y", 0), ("z", 1e-6)]) =
        Evaluation.outcome (guardedDerivative.eval ⟨1e-12, 1e-5⟩)
          (.ofList [("y", 0), ("z", 1e-6)]) ∨
      Evaluation.outcome (guardedDerivative.eval ⟨1e-3, 1e-5⟩)
          (.ofList [("y", 0), ("z", 1e-6)]) = .error .divisionByZero) := by
  have hle : (1e-12 : Float) ≤ 1e-3 := by decide +kernel
  refine ⟨hle, ?_, outcome_eval_of_epsilon_le hle 1e-5 guardedDerivative _⟩
  rfl

/-- There it is the division that fails. -/
example :
    Evaluation.outcome (guardedDerivative.eval ⟨1e-3, 1e-5⟩)
      (.ofList [("y", 0), ("z", 1e-6)]) = .error .divisionByZero := by
  rfl

end Expr

end Secant
