import Secant.Proofs.FreeVariables

/-!
Only the free variables count. Two valuations that agree on the free variables of an expression give
it the same value or the same error, whatever they hold for other names. A derivative binds its
variable alike under both, so they go on agreeing on what is free in the expression it is taken of.
-/

namespace Secant

def Valuation.AgreeOn (names : List String) (valuation other : Valuation) : Prop :=
  ∀ name ∈ names, valuation name = other name

namespace Valuation.AgreeOn

variable {names others : List String} {valuation other : Valuation}

theorem mono (h : AgreeOn names valuation other) (hsub : ∀ name ∈ others, name ∈ names) :
    AgreeOn others valuation other :=
  fun name hmem => h name (hsub name hmem)

theorem rebind {x : String} (y : Float)
    (h : ∀ name ∈ names, name ≠ x → valuation name = other name) :
    AgreeOn names (valuation.rebind x y) (other.rebind x y) := by
  intro name hmem
  unfold Valuation.rebind
  split
  · rfl
  · rename_i hne
    exact h name hmem hne

end Valuation.AgreeOn

namespace Expr

open Environment

mutual

/-- An expression has one value under all valuations that agree on its free variables. -/
theorem value_eq_of_agreeOn (config : EvalConfig) :
    ∀ {e : Expr} {valuation other : Valuation}, valuation.AgreeOn e.free other →
      e.value config valuation = e.value config other
  | number x, valuation, other, h => by rw [value, value]
  | var name, valuation, other, h => by
      rw [value, value, h name (mem_free_var.2 rfl)]
  | neg operand, valuation, other, h => by
      have hoperand := value_eq_of_agreeOn config (h.mono fun _ => mem_free_neg.2)
      rw [value, value, hoperand]
  | binary op left right, valuation, other, h => by
      have hleft := value_eq_of_agreeOn config
        (h.mono fun _ hmem => mem_free_binary.2 (.inl hmem))
      have hright := value_eq_of_agreeOn config
        (h.mono fun _ hmem => mem_free_binary.2 (.inr hmem))
      rw [value, value, hleft, hright]
  | call name canonical args, valuation, other, h => by
      rw [value, value]
      split
      · rfl
      · rename_i function hfind
        split
        · rename_i haction
          obtain rfl := (Builtin.isDerivative_iff hfind).1 (by rw [haction]; rfl)
          exact valueDerivative_eq_of_agreeOn config name (by simpa [free] using h)
        · rename_i hnumbers
          have hne := Builtin.ne_derivativeName_of_find? hfind hnumbers
          have hargs : valueList config args valuation = valueList config args other :=
            valueList_eq_of_agreeOn config fun e hmem =>
              h.mono fun _ hfree => (mem_free_call hne).2 ⟨e, hmem, hfree⟩
          rw [hargs]

theorem valueList_eq_of_agreeOn (config : EvalConfig) :
    ∀ {args : List Expr} {valuation other : Valuation},
      (∀ e ∈ args, valuation.AgreeOn e.free other) →
        valueList config args valuation = valueList config args other
  | [], valuation, other, h => by rw [valueList, valueList]
  | first :: rest, valuation, other, h => by
      have hfirst := value_eq_of_agreeOn config (h first List.mem_cons_self)
      have hrest : valueList config rest valuation = valueList config rest other :=
        valueList_eq_of_agreeOn config fun e hmem => h e (List.mem_cons_of_mem _ hmem)
      rw [valueList, valueList, hfirst, hrest]

theorem valueDerivative_eq_of_agreeOn (config : EvalConfig) (name : String) :
    ∀ {args : List Expr} {valuation other : Valuation},
      valuation.AgreeOn (freeUnder args) other →
        valueDerivative config name args valuation = valueDerivative config name args other
  | body :: bound :: point :: asked, valuation, other, h => by
      by_cases hasked : asked.length ≤ 1
      · cases hbound : bound.asVar? with
        | none =>
            rw [valueDerivative_of_asVar?_eq_none config name hbound body point hasked,
              valueDerivative_of_asVar?_eq_none config name hbound body point hasked]
        | some x =>
            have hbehind (e : Expr) (hmem : e ∈ point :: asked) :
                valuation.AgreeOn e.free other :=
              h.mono fun _ hfree => mem_freeUnder.2 (.inr ⟨e, hmem, hfree⟩)
            have hpoint := value_eq_of_agreeOn config (hbehind point List.mem_cons_self)
            have hsteps : valueList config asked valuation = valueList config asked other :=
              valueList_eq_of_agreeOn config fun e hmem =>
                hbehind e (List.mem_cons_of_mem _ hmem)
            -- Off the point both bind the variable to the same number.
            have hbody (y : Float) : body.value config (valuation.rebind x y) =
                body.value config (other.rebind x y) := by
              refine value_eq_of_agreeOn config (.rebind y fun name hmem hne => ?_)
              refine h name (mem_freeUnder.2 (.inl ⟨hmem, ?_⟩))
              rw [hbound]
              exact fun heq => hne (Option.some.inj heq).symm
            rw [valueDerivative_of_asVar? config name hbound body point hasked,
              valueDerivative_of_asVar? config name hbound body point hasked, hpoint, hsteps]
            simp only [hbody]
      · have hargs : (body :: bound :: point :: asked).length ∉ Action.derivative.counts :=
          length_notMem_counts hasked
        rw [valueDerivative_of_length config name hargs,
          valueDerivative_of_length config name hargs]
  | [], valuation, other, h => rfl
  | [_], valuation, other, h => rfl
  | [_, _], valuation, other, h => rfl

end

/-- What an evaluation comes to is the same in all environments that agree on the free variables. -/
theorem outcome_eval_eq_of_agree (config : EvalConfig) (e : Expr) {env other : Environment}
    (h : ∀ name ∈ e.free, env.lookup name = other.lookup name) :
    Evaluation.outcome (e.eval config) env = Evaluation.outcome (e.eval config) other := by
  rw [(keeps_eval config e env).outcome_eq, (keeps_eval config e other).outcome_eq]
  exact value_eq_of_agreeOn config h

def nestedDerivative : Expr :=
  callNamed "diff"
    [binary .add (callNamed "diff" [binary .mul (var "x") (var "y"), var "x", var "x"]) (var "x"),
      var "x", var "z"]

/-- Whether the variable of both derivatives is bound from outside makes no difference, and neither
does a name that does not occur. -/
theorem outcome_eval_nestedDerivative :
    (∀ name ∈ nestedDerivative.free,
        (Environment.ofList [("x", 7), ("y", 2), ("z", 3)]).lookup name =
          (Environment.ofList [("w", 5), ("y", 2), ("z", 3)]).lookup name) ∧
      Evaluation.outcome (nestedDerivative.eval .default)
          (.ofList [("x", 7), ("y", 2), ("z", 3)]) =
        Evaluation.outcome (nestedDerivative.eval .default)
          (.ofList [("w", 5), ("y", 2), ("z", 3)]) := by
  have hagree : ∀ name ∈ nestedDerivative.free,
      (Environment.ofList [("x", 7), ("y", 2), ("z", 3)]).lookup name =
        (Environment.ofList [("w", 5), ("y", 2), ("z", 3)]).lookup name := by
    have hfree : nestedDerivative.free = ["y", "z"] := by decide +kernel
    rw [hfree]
    intro name hmem
    simp only [List.mem_cons, List.not_mem_nil, or_false] at hmem
    rcases hmem with rfl | rfl <;> rfl
  exact ⟨hagree, outcome_eval_eq_of_agree .default nestedDerivative hagree⟩

end Expr

end Secant
