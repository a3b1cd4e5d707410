import Secant.Proofs.Evaluation
import Secant.Proofs.Parts

/-!
Free variables against look-up. What is free in a part and not bound where the part is evaluated is
free in the whole and not bound there, so a name that is missed is a free one; and an expression
with a free name that is not bound has no value. So the free variables are just those that have to
be bound.
-/

namespace Secant.Expr

open Environment

@[simp] theorem mem_free_var {name other : String} : name ∈ (var other).free ↔ name = other := by
  simp [free]

@[simp] theorem mem_free_neg {name : String} {e : Expr} : name ∈ (neg e).free ↔ name ∈ e.free := by
  simp [free]

@[simp] theorem mem_free_binary {name : String} {op : Op} {left right : Expr} :
    name ∈ (binary op left right).free ↔ name ∈ left.free ∨ name ∈ right.free := by
  simp [free]

@[simp] theorem mem_freeList {name : String} {args : List Expr} :
    name ∈ freeList args ↔ ∃ e ∈ args, name ∈ e.free := by
  induction args with
  | nil => simp [freeList]
  | cons first rest ih => simp [freeList, ih]

theorem mem_free_call {name shown canonical : String} {args : List Expr}
    (h : canonical ≠ derivativeName) :
    name ∈ (call shown canonical args).free ↔ ∃ e ∈ args, name ∈ e.free := by
  simp [free, h]

@[simp] theorem mem_freeUnder {name : String} {body bound : Expr} {behind : List Expr} :
    name ∈ freeUnder (body :: bound :: behind) ↔
      name ∈ body.free ∧ bound.asVar? ≠ some name ∨ ∃ e ∈ behind, name ∈ e.free := by
  rw [freeUnder]
  cases hbound : bound.asVar? with
  | none => simp
  | some x => simp [eq_comm]

theorem mem_free_derivative {name shown : String} {body bound : Expr} {behind : List Expr} :
    name ∈ (call shown derivativeName (body :: bound :: behind)).free ↔
      name ∈ body.free ∧ bound.asVar? ≠ some name ∨ ∃ e ∈ behind, name ∈ e.free := by
  simp [free]

theorem exists_mem_free_of_call {name shown canonical : String} {args : List Expr}
    (h : name ∈ (call shown canonical args).free) : ∃ e ∈ args, name ∈ e.free := by
  by_cases hname : canonical = derivativeName
  · subst hname
    match args with
    | [] => simp [free, freeUnder] at h
    | [body] => exact ⟨body, List.mem_singleton_self body, by simpa [free, freeUnder] using h⟩
    | body :: bound :: behind =>
        obtain ⟨hbody, -⟩ | ⟨e, hmem, hfree⟩ := mem_free_derivative.1 h
        · exact ⟨body, List.mem_cons_self, hbody⟩
        · exact ⟨e, List.mem_cons_of_mem _ (List.mem_cons_of_mem _ hmem), hfree⟩
  · exact (mem_free_call hname).1 h

mutual

theorem pairwise_free : ∀ e : Expr, e.free.Pairwise (· < ·)
  | number _ => by simp [free]
  | var _ => by simp [free]
  | neg operand => by
      rw [free]
      exact pairwise_free operand
  | binary _ left right => by
      rw [free]
      exact Names.pairwise_union (pairwise_free right)
  | call _ canonical args => by
      rw [free]
      split
      · exact pairwise_freeUnder args
      · exact pairwise_freeList args

theorem pairwise_freeList : ∀ args : List Expr, (freeList args).Pairwise (· < ·)
  | [] => by simp [freeList]
  | first :: rest => by
      rw [freeList]
      exact Names.pairwise_union (pairwise_freeList rest)

theorem pairwise_freeUnder : ∀ args : List Expr, (freeUnder args).Pairwise (· < ·)
  | [] => by simp [freeUnder]
  | [body] => by
      rw [freeUnder]
      exact pairwise_free body
  | body :: bound :: rest => by
      rw [freeUnder]
      exact Names.pairwise_union (pairwise_freeList rest)

end

/-- A free name that is not bound where the expression is evaluated. -/
def Misses (state : Expr × Valuation) (name : String) : Prop :=
  name ∈ state.1.free ∧ state.2 name = none

theorem Part.misses {whole part : Expr × Valuation} {name : String} (hpart : Part whole part)
    (h : Misses part name) : Misses whole name := by
  obtain ⟨hfree, hnone⟩ := h
  cases hpart with
  | operand => exact ⟨mem_free_neg.2 hfree, hnone⟩
  | left => exact ⟨mem_free_binary.2 (.inl hfree), hnone⟩
  | right => exact ⟨mem_free_binary.2 (.inr hfree), hnone⟩
  | argument hne hmem => exact ⟨(mem_free_call hne).2 ⟨_, hmem, hfree⟩, hnone⟩
  | behind hmem => exact ⟨mem_free_derivative.2 (.inr ⟨_, hmem, hfree⟩), hnone⟩
  | @body _ x e _ valuation y =>
      -- The variable of the derivative is bound in its body, so the name is another one.
      have hne : name ≠ x := by
        rintro rfl
        simp [Valuation.rebind] at hnone
      have hbound : (var x).asVar? ≠ some name := by simpa [asVar?] using Ne.symm hne
      have hnone : valuation name = none := by simpa [Valuation.rebind, hne] using hnone
      exact ⟨mem_free_derivative.2 (.inl ⟨hfree, hbound⟩), hnone⟩

theorem misses_of_parts {whole part : Expr × Valuation} {name : String}
    (hparts : Relation.ReflTransGen Part whole part) (h : Misses part name) :
    Misses whole name := by
  induction hparts with
  | refl => exact h
  | tail _ hpart ih => exact ih (hpart.misses h)

theorem misses_of_undefinedVariable {config : EvalConfig} {e : Expr} {valuation : Valuation}
    {name : String} (h : e.value config valuation = .error (.undefinedVariable name)) :
    Misses (e, valuation) name := by
  obtain ⟨e', valuation', hparts, hraises⟩ := arises_of_value h
  cases hraises with
  | undefined hname => exact misses_of_parts hparts ⟨mem_free_var.2 rfl, hname⟩

mutual

theorem ne_none_of_value {config : EvalConfig} {name : String} :
    ∀ {e : Expr} {valuation : Valuation} {x : Float},
      e.value config valuation = .ok x → name ∈ e.free → valuation name ≠ none
  | number _, valuation, x, h, hfree => by simp [free] at hfree
  | var other, valuation, x, h, hfree => by
      obtain rfl := mem_free_var.1 hfree
      intro hnone
      rw [value, hnone] at h
      cases h
  | neg operand, valuation, x, h, hfree => by
      rw [value] at h
      obtain ⟨y, hoperand, -⟩ := bind_eq_ok_iff.1 h
      exact ne_none_of_value hoperand (mem_free_neg.1 hfree)
  | binary op left right, valuation, x, h, hfree => by
      rw [value] at h
      obtain ⟨y, hleft, h⟩ := bind_eq_ok_iff.1 h
      obtain ⟨z, hright, -⟩ := bind_eq_ok_iff.1 h
      rcases mem_free_binary.1 hfree with hfree | hfree
      · exact ne_none_of_value hleft hfree
      · exact ne_none_of_value hright hfree
  | call shown canonical args, valuation, x, h, hfree => by
      rw [value] at h
      split at h
      · cases h
      · rename_i function hfind
        split at h
        · rename_i haction
          obtain rfl := (Builtin.isDerivative_iff hfind).1 (by rw [haction]; rfl)
          exact ne_none_of_valueDerivative h (by simpa [free] using hfree)
        · rename_i hnumbers
          have hne := Builtin.ne_derivativeName_of_find? hfind hnumbers
          obtain ⟨xs, hargs, -⟩ := bind_eq_ok_iff.1 h
          obtain ⟨e, hmem, hfree⟩ := (mem_free_call hne).1 hfree
          exact ne_none_of_valueList hargs e hmem hfree

theorem ne_none_of_valueList {config : EvalConfig} {name : String} :
    ∀ {args : List Expr} {valuation : Valuation} {xs : List Float},
      valueList config args valuation = .ok xs → ∀ e ∈ args, name ∈ e.free → valuation name ≠ none
  | [], valuation, xs, h, e, hmem, hfree => by cases hmem
  | first :: rest, valuation, xs, h, e, hmem, hfree => by
      rw [valueList] at h
      obtain ⟨x, hfirst, h⟩ := bind_eq_ok_iff.1 h
      obtain ⟨xs, hrest, -⟩ := bind_eq_ok_iff.1 h
      rcases List.mem_cons.1 hmem with heq | hmem
      · exact ne_none_of_value hfirst (heq ▸ hfree)
      · exact ne_none_of_valueList hrest e hmem hfree

theorem ne_none_of_valueDerivative {config : EvalConfig} {shown name : String} :
    ∀ {args : List Expr} {valuation : Valuation} {x : Float},
      valueDerivative config shown args valuation = .ok x → name ∈ freeUnder args →
        valuation name ≠ none
  | body :: bound :: point :: asked, valuation, x, h, hfree => by
      obtain ⟨y, rfl, hasked⟩ := exists_var_of_valueDerivative h
      rw [valueDerivative_of_asVar? config shown rfl body point hasked] at h
      obtain ⟨p, hpoint, h⟩ := bind_eq_ok_iff.1 h
      obtain ⟨steps, hsteps, h⟩ := bind_eq_ok_iff.1 h
      obtain ⟨z, above, hbody⟩ := quotient_eq_ok h
      rcases mem_freeUnder.1 hfree with ⟨hin, hbound⟩ | ⟨e, hmem, hin⟩
      · have hne : name ≠ y := fun heq => hbound (congrArg some heq.symm)
        have hsome := ne_none_of_value hbody hin
        simpa [Valuation.rebind, hne] using hsome
      · rcases List.mem_cons.1 hmem with heq | hmem
        · exact ne_none_of_value hpoint (heq ▸ hin)
        · exact ne_none_of_valueList hsteps e hmem hin
  | [], valuation, x, h, hfree => by simp [freeUnder] at hfree
  | [_], valuation, x, h, hfree => by cases h
  | [_, _], valuation, x, h, hfree => by cases h

end

/-- A name that an evaluation finds to be undefined is a free variable that is not bound, and an
evaluation that comes to a value has found all free variables bound. -/
theorem free_of_outcome_eval (config : EvalConfig) (e : Expr) (env : Environment) :
    (∀ name, Evaluation.outcome (e.eval config) env = .error (.undefinedVariable name) →
        name ∈ e.free ∧ env.isDefined name = false) ∧
      ∀ x, Evaluation.outcome (e.eval config) env = .ok x →
        ∀ name ∈ e.free, env.isDefined name = true := by
  rw [(keeps_eval config e env).outcome_eq]
  constructor
  · intro name hvalue
    obtain ⟨hfree, hnone⟩ := misses_of_undefinedVariable hvalue
    exact ⟨hfree, by simpa [isDefined] using hnone⟩
  · intro x hvalue name hfree
    have hsome := ne_none_of_value hvalue hfree
    simpa [isDefined, Option.isSome_iff_ne_none] using hsome

/-- A derivative of `x * y` by `x` at `z`, where all names are bound but that of the point. -/
theorem free_of_outcome_eval_derivative :
    Evaluation.outcome
        ((callNamed "diff" [binary .mul (var "x") (var "y"), var "x", var "z"]).eval .default)
        (.ofList [("x", 1), ("y", 2)]) = .error (.undefinedVariable "z") ∧
      "z" ∈ (callNamed "diff" [binary .mul (var "x") (var "y"), var "x", var "z"]).free ∧
      (Environment.ofList [("x", 1), ("y", 2)]).isDefined "z" = false :=
  ⟨rfl, (free_of_outcome_eval .default _ _).1 "z" rfl⟩

end Secant.Expr
