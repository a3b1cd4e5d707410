import Mathlib.Data.List.Sort
import Mathlib.Data.String.Basic
import Secant.Proofs.FreeVariables

/-!
A variable that is bound means its number. Where a name is bound to a number, an expression comes to
what it comes to without that binding once the number is written in place of the name. A derivative
by that very name is left alone in the expression it is taken of: what it binds there hides what the
name was bound to outside.
-/

namespace Secant

namespace Valuation

variable (valuation : Valuation)

theorem rebind_rebind_self (x : String) (y z : Float) :
    (valuation.rebind x y).rebind x z = valuation.rebind x z := by
  funext name
  by_cases h : name = x <;> simp [rebind, h]

theorem rebind_comm {x x' : String} (hne : x ≠ x') (y z : Float) :
    (valuation.rebind x y).rebind x' z = (valuation.rebind x' z).rebind x y := by
  funext name
  by_cases h : name = x'
  · simp [rebind, h, hne.symm]
  · simp [rebind, h]

end Valuation

namespace Expr

open Environment

mutual

/-- The number `v` in place of every free occurrence of the variable `x`. -/
def subst (x : String) (v : Float) : Expr → Expr
  | number value => number value
  | var name => if name = x then number v else var name
  | neg operand => neg (operand.subst x v)
  | binary op left right => binary op (left.subst x v) (right.subst x v)
  | call name canonical args =>
      call name canonical
        (if canonical = derivativeName then substUnder x v args else substList x v args)

def substList (x : String) (v : Float) : List Expr → List Expr
  | [] => []
  | first :: rest => first.subst x v :: substList x v rest

/-- The arguments of a derivative. Under a derivative by `x` the variable is not free, and the place
where a derivative names its variable is no occurrence of it. -/
def substUnder (x : String) (v : Float) : List Expr → List Expr
  | [] => []
  | [body] => [body.subst x v]
  | body :: bound :: behind =>
      (if bound.asVar? = some x then body else body.subst x v) :: bound ::
        substList x v behind

end

@[simp] theorem length_substList (x : String) (v : Float) (args : List Expr) :
    (substList x v args).length = args.length := by
  induction args with
  | nil => rfl
  | cons first rest ih => simp [substList, ih]

/-! ### Values -/

/-- Under the derivative the two sides agree again, whichever variable it is by. -/
theorem value_body_subst {config : EvalConfig} {x : String} {v : Float} {body bound : Expr}
    {x' : String} (hbound : bound.asVar? = some x') (y : Float) {valuation : Valuation}
    (hbody : (body.subst x v).value config (valuation.rebind x' y) =
      body.value config ((valuation.rebind x' y).rebind x v)) :
    (if bound.asVar? = some x then body else body.subst x v).value config
        (valuation.rebind x' y) =
      body.value config ((valuation.rebind x v).rebind x' y) := by
  by_cases hx : x' = x
  · subst hx
    rw [if_pos hbound, Valuation.rebind_rebind_self]
  · have hne : bound.asVar? ≠ some x := fun heq => hx (Option.some.inj (hbound.symm.trans heq))
    rw [if_neg hne, hbody, Valuation.rebind_comm valuation (Ne.symm hx)]

mutual

theorem value_subst (config : EvalConfig) (x : String) (v : Float) :
    ∀ (e : Expr) (valuation : Valuation),
      (e.subst x v).value config valuation = e.value config (valuation.rebind x v)
  | number y, valuation => by rw [subst, value, value]
  | var name, valuation => by
      rw [subst]
      split
      · rename_i h
        rw [value, value, Valuation.rebind, if_pos h]
      · rename_i h
        rw [value, value, Valuation.rebind, if_neg h]
  | neg operand, valuation => by
      rw [subst, value, value, value_subst config x v operand]
  | binary op left right, valuation => by
      rw [subst, value, value, value_subst config x v left,
        value_subst config x v right]
  | call name canonical args, valuation => by
      rw [subst, value, value]
      split
      · rfl
      · rename_i function hfind
        split
        · rename_i haction
          have hname := (Builtin.isDerivative_iff hfind).1 (by rw [haction]; rfl)
          rw [if_pos hname]
          exact valueDerivative_subst config x v name args valuation
        · rename_i hnumbers
          rw [if_neg (Builtin.ne_derivativeName_of_find? hfind hnumbers),
            valueList_subst config x v args]

theorem valueList_subst (config : EvalConfig) (x : String) (v : Float) :
    ∀ (args : List Expr) (valuation : Valuation),
      valueList config (substList x v args) valuation =
        valueList config args (valuation.rebind x v)
  | [], valuation => by rw [substList, valueList, valueList]
  | first :: rest, valuation => by
      rw [substList, valueList, valueList, value_subst config x v first,
        valueList_subst config x v rest]

theorem valueDerivative_subst (config : EvalConfig) (x : String) (v : Float) (name : String) :
    ∀ (args : List Expr) (valuation : Valuation),
      valueDerivative config name (substUnder x v args) valuation =
        valueDerivative config name args (valuation.rebind x v)
  | body :: bound :: point :: asked, valuation => by
      have hbody := value_subst config x v body
      have hpoint := value_subst config x v point valuation
      have hsteps := valueList_subst config x v asked valuation
      rw [substUnder, substList]
      by_cases hcount : asked.length ≤ 1
      · have hcount' : (substList x v asked).length ≤ 1 := by rwa [length_substList]
        cases hbound : bound.asVar? with
        | none =>
            rw [valueDerivative_of_asVar?_eq_none config name hbound _ _ hcount',
              valueDerivative_of_asVar?_eq_none config name hbound body point hcount]
        | some x' =>
            have hunder (y : Float) := value_body_subst hbound y (hbody (valuation.rebind x' y))
            rw [hbound] at hunder
            rw [valueDerivative_of_asVar? config name hbound _ _ hcount',
              valueDerivative_of_asVar? config name hbound body point hcount, hpoint, hsteps]
            simp only [hunder]
      · have hcount' : ¬(substList x v asked).length ≤ 1 := by rwa [length_substList]
        rw [valueDerivative_of_length config name (length_notMem_counts hcount'),
          valueDerivative_of_length config name (length_notMem_counts hcount)]
        simp
  | [], _ => rfl
  | [_], _ => rfl
  | [_, _], _ => rfl

end

/-! ### Free variables -/

mutual

theorem mem_free_subst (x name : String) (v : Float) :
    ∀ e : Expr, name ∈ (e.subst x v).free ↔ name ∈ e.free ∧ name ≠ x
  | number _ => by simp [subst, free]
  | var other => by
      rw [subst]
      split
      · rename_i h
        simp [free, h]
      · rename_i h
        rw [mem_free_var]
        exact ⟨fun heq => ⟨heq, heq ▸ h⟩, And.left⟩
  | neg operand => by
      have hoperand := mem_free_subst x name v operand
      simpa only [subst, mem_free_neg] using hoperand
  | binary op left right => by
      have hleft := mem_free_subst x name v left
      have hright := mem_free_subst x name v right
      simp only [subst, mem_free_binary, hleft, hright, or_and_right]
  | call shown canonical args => by
      have hlist := mem_freeList_subst x name v args
      have hunder := mem_freeUnder_subst x name v args
      simp only [subst, free]
      split
      · exact hunder
      · exact hlist

theorem mem_freeList_subst (x name : String) (v : Float) :
    ∀ args : List Expr,
      name ∈ freeList (substList x v args) ↔ name ∈ freeList args ∧ name ≠ x
  | [] => by simp [substList, freeList]
  | first :: rest => by
      have hfirst := mem_free_subst x name v first
      have hrest := mem_freeList_subst x name v rest
      simp only [substList, freeList, Names.mem_union, hfirst, hrest, or_and_right]

theorem mem_freeUnder_subst (x name : String) (v : Float) :
    ∀ args : List Expr,
      name ∈ freeUnder (substUnder x v args) ↔ name ∈ freeUnder args ∧ name ≠ x
  | [] => by simp [substUnder, freeUnder]
  | [body] => by
      have hbody := mem_free_subst x name v body
      simpa only [substUnder, freeUnder] using hbody
  | body :: bound :: behind => by
      have hbody := mem_free_subst x name v body
      have hbehind := mem_freeList_subst x name v behind
      simp only [substUnder, mem_freeUnder, ← mem_freeList, hbehind, or_and_right]
      refine or_congr_left ?_
      by_cases hbound : bound.asVar? = some x
      · rw [if_pos hbound, hbound]
        simp [eq_comm]
      · rw [if_neg hbound, hbody, and_right_comm]

end

/-- An expression that is evaluated where a name is bound to a number comes to the value, or to the
error, that it comes to with that number written in place of every free occurrence of the name and
the environment as it is without the binding. After that nothing but the name has stopped being
free. -/
theorem outcome_eval_subst (config : EvalConfig) (e : Expr) (x : String) (v : Float)
    (env : Environment) :
    Evaluation.outcome (e.eval config) (env.define x v) =
        Evaluation.outcome ((e.subst x v).eval config) env ∧
      (e.subst x v).free = Names.erase x e.free := by
  constructor
  · rw [(keeps_eval config e _).outcome_eq, (keeps_eval config _ env).outcome_eq, value_subst,
      lookup_define_eq_rebind]
  · refine (pairwise_free _).eq_of_mem_iff (Names.pairwise_erase (pairwise_free e)) fun name => ?_
    rw [mem_free_subst, Names.mem_erase]

/-- The point of the derivative is outside the derivative, so there the variable is free. -/
example (v : Float) :
    (call "diff" derivativeName [binary .mul (var "x") (var "y"), var "x", var "x"]).subst "x" v =
      call "diff" derivativeName [binary .mul (var "x") (var "y"), var "x", number v] := by
  rfl

end Expr

end Secant
