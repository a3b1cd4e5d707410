import Secant.Proofs.FreeVariables
import Secant.Proofs.Traits

/-!
What a tree has to be like to have a value. Every call in it is one of a function that takes as many
arguments as there are, and every derivative is one by a variable. A tree that has a value is like
that all over, since its evaluation has come to every part of it. Of a tree that is like that, with
its free variables bound, nothing can go wrong but a division by zero and the square root of a
negative number.
-/

namespace Secant.Expr

open Environment

/-- Calls are calls of functions with a number of arguments that they take, and the second argument
of a derivative is a variable. -/
def wellFormed : Traits where
  number _ := True
  var _ := True
  call _ canonical args :=
    (∃ function, Builtin.find? canonical = some function ∧ args.length ∈ function.action.counts) ∧
      (canonical = derivativeName → ∃ x, args[1]? = some (var x))

/-! ### Trees that have a value -/

theorem length_mem_of_valueDerivative {config : EvalConfig} {name : String} {args : List Expr}
    {valuation : Valuation} {x : Float} (h : valueDerivative config name args valuation = .ok x) :
    args.length ∈ Action.derivative.counts := by
  by_contra hcount
  rw [valueDerivative_of_length config name hcount] at h
  cases h

theorem exists_bound_of_valueDerivative {config : EvalConfig} {name : String} {args : List Expr}
    {valuation : Valuation} {x : Float} (h : valueDerivative config name args valuation = .ok x) :
    ∃ y, args[1]? = some (var y) := by
  match args with
  | body :: bound :: point :: asked =>
      obtain ⟨y, rfl, -⟩ := exists_var_of_valueDerivative h
      exact ⟨y, rfl⟩
  | [] | [_] | [_, _] => cases h

theorem wellFormed_call_of_value {config : EvalConfig} {name canonical : String}
    {args : List Expr} {valuation : Valuation} {x : Float}
    (h : (call name canonical args).value config valuation = .ok x) :
    wellFormed.call name canonical args := by
  rw [value] at h
  split at h
  · cases h
  · rename_i function hfind
    split at h
    · rename_i haction
      have hcount := length_mem_of_valueDerivative h
      rw [← haction] at hcount
      exact ⟨⟨function, hfind, hcount⟩, fun _ => exists_bound_of_valueDerivative h⟩
    · rename_i hnumbers
      obtain ⟨xs, hargs, h⟩ := bind_eq_ok_iff.1 h
      obtain ⟨_, hcheck, -⟩ := bind_eq_ok_iff.1 h
      have hcount : args.length ∈ function.action.counts := by
        rw [← length_valueList hargs]
        by_contra hcount
        rw [Builtin.checkCount, if_neg hcount] at hcheck
        cases hcheck
      exact ⟨⟨function, hfind, hcount⟩,
        fun hname => absurd hname (Builtin.ne_derivativeName_of_find? hfind hnumbers)⟩

mutual

theorem wellFormed_of_value {config : EvalConfig} :
    ∀ {e : Expr} {valuation : Valuation} {x : Float},
      e.value config valuation = .ok x → e.Has wellFormed
  | number _, _, _, _ => trivial
  | var _, _, _, _ => trivial
  | neg operand, valuation, x, h => by
      rw [value] at h
      obtain ⟨y, hoperand, -⟩ := bind_eq_ok_iff.1 h
      exact wellFormed_of_value (e := operand) hoperand
  | binary op left right, valuation, x, h => by
      rw [value] at h
      obtain ⟨y, hleft, h⟩ := bind_eq_ok_iff.1 h
      obtain ⟨z, hright, -⟩ := bind_eq_ok_iff.1 h
      exact ⟨wellFormed_of_value hleft, wellFormed_of_value hright⟩
  | call name canonical args, valuation, x, h => by
      refine ⟨wellFormed_call_of_value h, ?_⟩
      rw [value] at h
      split at h
      · cases h
      · split at h
        · exact hasAll_wellFormed_of_valueDerivative h
        · obtain ⟨xs, hargs, -⟩ := bind_eq_ok_iff.1 h
          exact hasAll_wellFormed_of_valueList hargs

theorem hasAll_wellFormed_of_valueList {config : EvalConfig} :
    ∀ {args : List Expr} {valuation : Valuation} {xs : List Float},
      valueList config args valuation = .ok xs → HasAll wellFormed args
  | [], _, _, _ => trivial
  | first :: rest, valuation, xs, h => by
      rw [valueList] at h
      obtain ⟨x, hfirst, h⟩ := bind_eq_ok_iff.1 h
      obtain ⟨xs, hrest, -⟩ := bind_eq_ok_iff.1 h
      exact ⟨wellFormed_of_value hfirst, hasAll_wellFormed_of_valueList hrest⟩

/-- The variable of a derivative is not evaluated, but nothing is asked of it either. -/
theorem hasAll_wellFormed_of_valueDerivative {config : EvalConfig} {name : String} :
    ∀ {args : List Expr} {valuation : Valuation} {x : Float},
      valueDerivative config name args valuation = .ok x → HasAll wellFormed args
  | body :: bound :: point :: asked, valuation, x, h => by
      obtain ⟨y, rfl, hasked⟩ := exists_var_of_valueDerivative h
      rw [valueDerivative_of_asVar? config name rfl body point hasked] at h
      obtain ⟨p, hpoint, h⟩ := bind_eq_ok_iff.1 h
      obtain ⟨steps, hsteps, h⟩ := bind_eq_ok_iff.1 h
      obtain ⟨z, above, hbody⟩ := quotient_eq_ok h
      exact ⟨wellFormed_of_value hbody, trivial, wellFormed_of_value hpoint,
        hasAll_wellFormed_of_valueList hsteps⟩
  | [], _, _, h => by cases h
  | [_], _, _, h => by cases h
  | [_, _], _, _, h => by cases h

end

/-! ### Trees that are well formed -/

/-- What is left to go wrong where every call is as it should be and every name is bound. -/
theorem eq_divisionByZero_or_domain {config : EvalConfig} {e : Expr} {valuation : Valuation}
    {error : EvalError} (hwell : e.Has wellFormed)
    (hfree : ∀ name ∈ e.free, valuation name ≠ none)
    (h : e.value config valuation = .error error) :
    error = .divisionByZero ∨ error = .domain "sqrt" "negative argument" := by
  obtain ⟨e', valuation', hparts, hraises⟩ := arises_of_value h
  have hhas : e'.Has wellFormed := has_of_parts hparts hwell
  cases hraises with
  | undefined hname =>
      obtain ⟨hmem, hnone⟩ := misses_of_parts hparts ⟨mem_free_var.2 rfl, hname⟩
      exact absurd hnone (hfree _ hmem)
  | division => exact .inl rfl
  | unknown hfind =>
      obtain ⟨⟨⟨function, hfunction, -⟩, -⟩, -⟩ := hhas
      rw [hfind] at hfunction
      cases hfunction
  | count hfind hcount =>
      obtain ⟨⟨⟨function, hfunction, hmem⟩, -⟩, -⟩ := hhas
      rw [hfind] at hfunction
      cases hfunction
      exact absurd hmem hcount
  | «variable» hbound =>
      obtain ⟨x, hx⟩ := hhas.1.2 rfl
      cases hx
      cases hbound
  | domain => exact .inr rfl

/-- A tree that an evaluation finds a value for is well formed, and of a well-formed tree whose free
variables are bound an evaluation comes to a value, or to a division by zero, or to the square root
of a negative number. -/
theorem wellFormed_of_outcome_eval (config : EvalConfig) (e : Expr) (env : Environment) :
    (∀ x, Evaluation.outcome (e.eval config) env = .ok x → e.Has wellFormed) ∧
      (e.Has wellFormed → (∀ name ∈ e.free, env.isDefined name = true) →
        (∃ x, Evaluation.outcome (e.eval config) env = .ok x) ∨
          Evaluation.outcome (e.eval config) env = .error .divisionByZero ∨
          Evaluation.outcome (e.eval config) env =
            .error (.domain "sqrt" "negative argument")) := by
  rw [(keeps_eval config e env).outcome_eq]
  refine ⟨fun x hvalue => wellFormed_of_value hvalue, fun hwell hdefined => ?_⟩
  cases hvalue : e.value config env.lookup with
  | ok x => exact .inl ⟨x, rfl⟩
  | error error =>
      have hfree : ∀ name ∈ e.free, env.lookup name ≠ none := by
        intro name hmem
        simpa [isDefined, Option.isSome_iff_ne_none] using hdefined name hmem
      obtain rfl | rfl := eq_divisionByZero_or_domain hwell hfree hvalue
      · exact .inr (.inl rfl)
      · exact .inr (.inr rfl)

def rootDerivative : Expr :=
  callNamed "DIFF" [callNamed "sqrt" [var "x"], var "x", var "y"]

/-- At one the derivative has a value. At zero it has none, and the root is to blame. -/
theorem wellFormed_of_outcome_eval_root :
    (∃ x, Evaluation.outcome (rootDerivative.eval .default) (.ofList [("y", 1)]) = .ok x) ∧
      rootDerivative.Has wellFormed ∧
      (∀ name ∈ rootDerivative.free, (Environment.ofList [("y", 0)]).isDefined name = true) ∧
      ((∃ x, Evaluation.outcome (rootDerivative.eval .default) (.ofList [("y", 0)]) = .ok x) ∨
        Evaluation.outcome (rootDerivative.eval .default) (.ofList [("y", 0)]) =
          .error .divisionByZero ∨
        Evaluation.outcome (rootDerivative.eval .default) (.ofList [("y", 0)]) =
          .error (.domain "sqrt" "negative argument")) := by
  have hok :
      (Evaluation.outcome (rootDerivative.eval .default) (.ofList [("y", 1)])).isOk = true := by
    decide +kernel
  have hdefined : ∀ name ∈ rootDerivative.free,
      (Environment.ofList [("y", 0)]).isDefined name = true := by decide +kernel
  cases hvalue : Evaluation.outcome (rootDerivative.eval .default) (.ofList [("y", 1)]) with
  | error error =>
      rw [hvalue] at hok
      cases hok
  | ok x =>
      have hwell := (wellFormed_of_outcome_eval .default rootDerivative _).1 x hvalue
      exact ⟨⟨x, rfl⟩, hwell, hdefined,
        (wellFormed_of_outcome_eval .default rootDerivative _).2 hwell hdefined⟩

end Secant.Expr
