import Mathlib.Data.List.Basic
import Mathlib.Logic.Relation
import Secant.Proofs.Except
import Secant.Proofs.Value

/-!
Where an error comes from. To evaluate an expression under a valuation is to evaluate parts of it,
each under a valuation of its own: the expression that a derivative is taken of under one that binds
the variable, everything else under the same one. An error is the error of a part of a part, and it
is raised there because of what that part is.
-/

namespace Secant

theorem Op.eq_divisionByZero_of_apply {config : EvalConfig} {op : Op} {x y : Float}
    {error : EvalError} (h : op.apply config x y = .error error) :
    op = .div ∧ error = .divisionByZero := by
  cases op with
  | div =>
      rw [apply] at h
      split at h
      · cases h
        exact ⟨rfl, rfl⟩
      · cases h
  | _ => cases h

/-- The errors of a function that is given as many numbers as it takes. -/
def Action.Refuses : Action → EvalError → Prop
  | unary f, error => ∃ x, f x = .error error
  | binary f, error => ∃ x y, f x y = .error error
  | derivative, _ => False

namespace Builtin

theorem mem_all_of_find? {canonical : String} {function : Builtin}
    (h : find? canonical = some function) : function ∈ all ∧ function.name = canonical := by
  have hname := List.find?_some h
  exact ⟨List.mem_of_find?_eq_some h, by simpa using hname⟩

theorem isDerivative_iff {canonical : String} {function : Builtin}
    (h : find? canonical = some function) :
    function.action.isDerivative = true ↔ canonical = derivativeName := by
  obtain ⟨hmem, rfl⟩ := mem_all_of_find? h
  simp only [all, List.mem_cons, List.not_mem_nil, or_false] at hmem
  rcases hmem with rfl | rfl | rfl | rfl | rfl | rfl | rfl | rfl | rfl | rfl <;>
    simp [Action.isDerivative, derivative, derivativeName]

theorem find?_derivativeName : find? derivativeName = some derivative := by
  simp [find?, all, derivative, derivativeName]

theorem ne_derivativeName_of_find? {canonical : String} {function : Builtin}
    (h : find? canonical = some function) (hnumbers : function.action ≠ .derivative) :
    canonical ≠ derivativeName := by
  rintro rfl
  cases h.symm.trans find?_derivativeName
  exact hnumbers rfl

theorem squareRoot_eq_error {x : Float} {error : EvalError} (h : squareRoot x = .error error) :
    error = .domain "sqrt" "negative argument" := by
  unfold squareRoot at h
  split at h
  · cases h
    rfl
  · cases h

/-- Of the functions of numbers only the square root refuses any. -/
theorem eq_domain_of_refuses {function : Builtin} {error : EvalError} (h : function ∈ all)
    (hrefuses : function.action.Refuses error) : error = .domain "sqrt" "negative argument" := by
  simp only [all, List.mem_cons, List.not_mem_nil, or_false] at h
  rcases h with rfl | rfl | rfl | rfl | rfl | rfl | rfl | rfl | rfl | rfl
  case inr.inl =>
    obtain ⟨x, hx⟩ := hrefuses
    exact squareRoot_eq_error hx
  all_goals simp [Action.Refuses, derivative] at hrefuses

theorem refuses_of_apply {function : Builtin} {shown : String} {xs : List Float}
    {error : EvalError} (hnumbers : function.action.isDerivative = false)
    (hcount : xs.length ∈ function.action.counts) (h : function.apply shown xs = .error error) :
    function.action.Refuses error := by
  unfold apply at h
  split at h
  · rename_i f x haction
    rw [haction]
    exact ⟨x, h⟩
  · rename_i f x y haction
    rw [haction]
    exact ⟨x, y, h⟩
  · rename_i action _ hunary hbinary
    exfalso
    cases haction : function.action with
    | unary f =>
        rw [haction] at hcount
        obtain ⟨x, rfl⟩ := List.length_eq_one_iff.1 (List.mem_singleton.1 hcount)
        exact hunary f x haction rfl
    | binary f =>
        rw [haction] at hcount
        obtain ⟨x, y, rfl⟩ := List.length_eq_two.1 (List.mem_singleton.1 hcount)
        exact hbinary f x y haction rfl
    | derivative => simp [haction, Action.isDerivative] at hnumbers

end Builtin

namespace Expr

theorem eq_var_of_asVar? {e : Expr} {x : String} (h : e.asVar? = some x) : e = var x := by
  cases e with
  | var name =>
      cases h
      rfl
  | _ => cases h

/-! ### Derivatives

What stands behind the variable of a derivative is evaluated like any list, whether a step is asked
for or not. -/

def stepAround (config : EvalConfig) (p : Float) : List Float → Float
  | [] => config.defaultStep * (if 1 < p.abs then p.abs else 1)
  | s :: _ => if s.abs == 0 then config.defaultStep else s.abs

theorem valueDerivative_of_asVar? (config : EvalConfig) (name : String) {bound : Expr} {x : String}
    (hbound : bound.asVar? = some x) (body point : Expr) {asked : List Expr}
    (hasked : asked.length ≤ 1) (valuation : Valuation) :
    valueDerivative config name (body :: bound :: point :: asked) valuation = (do
      let p ← point.value config valuation
      let steps ← valueList config asked valuation
      quotient (fun y => body.value config (valuation.rebind x y)) p
        (stepAround config p steps)) := by
  match asked, hasked with
  | [], _ =>
      rw [valueDerivative, hbound, valueList]
      rfl
  | [step], _ =>
      rw [valueDerivative, hbound, valueList, valueList]
      simp only [bind_assoc]
      rfl

theorem valueDerivative_of_asVar?_eq_none (config : EvalConfig) (name : String) {bound : Expr}
    (hbound : bound.asVar? = none) (body point : Expr) {asked : List Expr}
    (hasked : asked.length ≤ 1) (valuation : Valuation) :
    valueDerivative config name (body :: bound :: point :: asked) valuation =
      .error .derivativeVariable := by
  match asked, hasked with
  | [], _ => rw [valueDerivative, hbound]
  | [step], _ => rw [valueDerivative, hbound]

/-- A derivative that has a value is one by a variable, with at most one step asked for. -/
theorem exists_var_of_valueDerivative {config : EvalConfig} {name : String}
    {body bound point : Expr} {asked : List Expr} {valuation : Valuation} {z : Float}
    (h : valueDerivative config name (body :: bound :: point :: asked) valuation = .ok z) :
    ∃ x, bound = var x ∧ asked.length ≤ 1 := by
  match asked with
  | [] | [step] =>
      rw [valueDerivative] at h
      cases hbound : bound.asVar? with
      | none =>
          rw [hbound] at h
          cases h
      | some x => exact ⟨x, eq_var_of_asVar? hbound, by simp⟩
  | step :: other :: more => cases h

theorem valueDerivative_of_length (config : EvalConfig) (name : String) {args : List Expr}
    (hargs : args.length ∉ Action.derivative.counts) (valuation : Valuation) :
    valueDerivative config name args valuation =
      .error (.argumentCount name Action.derivative.countsText args.length) := by
  rw [valueDerivative.eq_def]
  split
  · simp [Action.counts] at hargs
  · simp [Action.counts] at hargs
  · rfl

theorem length_notMem_counts {body bound point : Expr} {asked : List Expr}
    (h : ¬asked.length ≤ 1) :
    (body :: bound :: point :: asked).length ∉ Action.derivative.counts := by
  simp only [Action.counts, List.length_cons, List.mem_cons, List.not_mem_nil, or_false]
  omega

/-- A central difference fails where its body does, a little off the point. -/
theorem quotient_eq_error {f : Float → Except EvalError Float} {p h : Float} {error : EvalError}
    (hquotient : quotient f p h = .error error) : ∃ y, f y = .error error := by
  rcases bind_eq_error_iff.1 hquotient with habove | ⟨above, -, hquotient⟩
  · exact ⟨_, habove⟩
  · rcases bind_eq_error_iff.1 hquotient with hbelow | ⟨below, -, hdone⟩
    · exact ⟨_, hbelow⟩
    · cases hdone

theorem quotient_eq_ok {f : Float → Except EvalError Float} {p h z : Float}
    (hquotient : quotient f p h = .ok z) : ∃ y above, f y = .ok above := by
  obtain ⟨above, habove, -⟩ := bind_eq_ok_iff.1 hquotient
  exact ⟨_, above, habove⟩

/-! ### Parts and their errors -/

/-- To evaluate the one under its valuation, the other is evaluated under its own. -/
inductive Part : Expr × Valuation → Expr × Valuation → Prop
  | operand {e : Expr} {valuation : Valuation} : Part (neg e, valuation) (e, valuation)
  | left {op : Op} {e other : Expr} {valuation : Valuation} :
      Part (binary op e other, valuation) (e, valuation)
  | right {op : Op} {e other : Expr} {valuation : Valuation} :
      Part (binary op other e, valuation) (e, valuation)
  | argument {name canonical : String} {e : Expr} {args : List Expr} {valuation : Valuation} :
      canonical ≠ derivativeName → e ∈ args →
        Part (call name canonical args, valuation) (e, valuation)
  | body {name x : String} {e : Expr} {behind : List Expr} {valuation : Valuation} (y : Float) :
      Part (call name derivativeName (e :: var x :: behind), valuation) (e, valuation.rebind x y)
  | behind {name : String} {e body bound : Expr} {behind : List Expr} {valuation : Valuation} :
      e ∈ behind →
        Part (call name derivativeName (body :: bound :: behind), valuation) (e, valuation)

/-- The error is raised at the expression itself. -/
inductive Raises : Expr → Valuation → EvalError → Prop
  | undefined {name : String} {valuation : Valuation} :
      valuation name = none → Raises (var name) valuation (.undefinedVariable name)
  | division {left right : Expr} {valuation : Valuation} :
      Raises (binary .div left right) valuation .divisionByZero
  | unknown {name canonical : String} {args : List Expr} {valuation : Valuation} :
      Builtin.find? canonical = none →
        Raises (call name canonical args) valuation (.unknownFunction name)
  | count {name canonical : String} {args : List Expr} {function : Builtin}
        {valuation : Valuation} :
      Builtin.find? canonical = some function → args.length ∉ function.action.counts →
        Raises (call name canonical args) valuation
          (.argumentCount name function.action.countsText args.length)
  | variable {name : String} {body bound : Expr} {behind : List Expr} {valuation : Valuation} :
      bound.asVar? = none →
        Raises (call name derivativeName (body :: bound :: behind)) valuation .derivativeVariable
  | domain {name canonical : String} {args : List Expr} {valuation : Valuation} :
      Raises (call name canonical args) valuation (.domain "sqrt" "negative argument")

def Arises (e : Expr) (valuation : Valuation) (error : EvalError) : Prop :=
  ∃ e' valuation', Relation.ReflTransGen Part (e, valuation) (e', valuation') ∧
    Raises e' valuation' error

theorem Raises.arises {e : Expr} {valuation : Valuation} {error : EvalError}
    (h : Raises e valuation error) : Arises e valuation error :=
  ⟨e, valuation, .refl, h⟩

theorem Arises.of_part {e part : Expr} {valuation valuation' : Valuation} {error : EvalError}
    (hpart : Part (e, valuation) (part, valuation')) (h : Arises part valuation' error) :
    Arises e valuation error := by
  obtain ⟨e', valuation'', hparts, hraises⟩ := h
  exact ⟨e', valuation'', hparts.head hpart, hraises⟩

theorem length_valueList {config : EvalConfig} {args : List Expr} {valuation : Valuation}
    {xs : List Float} (h : valueList config args valuation = .ok xs) : xs.length = args.length := by
  induction args generalizing xs with
  | nil =>
      rw [valueList] at h
      cases h
      rfl
  | cons first rest ih =>
      rw [valueList] at h
      obtain ⟨x, -, h⟩ := bind_eq_ok_iff.1 h
      obtain ⟨xs, hxs, h⟩ := bind_eq_ok_iff.1 h
      cases h
      simp [ih hxs]

theorem arises_of_length {config : EvalConfig} {name : String} {args : List Expr}
    {valuation : Valuation} {error : EvalError} (hargs : args.length ∉ Action.derivative.counts)
    (h : valueDerivative config name args valuation = .error error) :
    Arises (call name derivativeName args) valuation error := by
  rw [valueDerivative_of_length config name hargs] at h
  cases h
  exact (Raises.count Builtin.find?_derivativeName hargs).arises

mutual

/-- Every error is raised somewhere. -/
theorem arises_of_value {config : EvalConfig} :
    ∀ {e : Expr} {valuation : Valuation} {error : EvalError},
      e.value config valuation = .error error → Arises e valuation error
  | number x, valuation, error, h => by
      rw [value] at h
      cases h
  | var name, valuation, error, h => by
      rw [value] at h
      split at h
      · cases h
      · rename_i hname
        cases h
        exact (Raises.undefined hname).arises
  | neg operand, valuation, error, h => by
      rw [value] at h
      rcases bind_eq_error_iff.1 h with hoperand | ⟨x, -, hdone⟩
      · exact (arises_of_value hoperand).of_part .operand
      · cases hdone
  | binary op left right, valuation, error, h => by
      rw [value] at h
      rcases bind_eq_error_iff.1 h with hleft | ⟨x, -, h⟩
      · exact (arises_of_value hleft).of_part .left
      · rcases bind_eq_error_iff.1 h with hright | ⟨y, -, happly⟩
        · exact (arises_of_value hright).of_part .right
        · obtain ⟨rfl, rfl⟩ := Op.eq_divisionByZero_of_apply happly
          exact Raises.division.arises
  | call name canonical args, valuation, error, h => by
      rw [value] at h
      split at h
      · rename_i hfind
        cases h
        exact (Raises.unknown hfind).arises
      · rename_i function hfind
        split at h
        · rename_i haction
          obtain rfl := (Builtin.isDerivative_iff hfind).1 (by rw [haction]; rfl)
          exact arises_of_valueDerivative h
        · rename_i hnumbers
          have hne := Builtin.ne_derivativeName_of_find? hfind hnumbers
          rcases bind_eq_error_iff.1 h with hargs | ⟨xs, hargs, h⟩
          · obtain ⟨e, hmem, harises⟩ := exists_arises_of_valueList hargs
            exact harises.of_part (.argument hne hmem)
          · -- All arguments have values, so it is the function itself that refuses.
            rw [length_valueList hargs] at h
            unfold Builtin.checkCount at h
            split at h
            · rename_i hcount
              rw [← length_valueList hargs] at hcount
              have hnot := Bool.eq_false_iff.2 (mt (Builtin.isDerivative_iff hfind).1 hne)
              have hrefuses := Builtin.refuses_of_apply hnot hcount h
              obtain rfl := Builtin.eq_domain_of_refuses (Builtin.mem_all_of_find? hfind).1 hrefuses
              exact Raises.domain.arises
            · rename_i hcount
              cases h
              exact (Raises.count hfind hcount).arises

theorem exists_arises_of_valueList {config : EvalConfig} :
    ∀ {args : List Expr} {valuation : Valuation} {error : EvalError},
      valueList config args valuation = .error error → ∃ e ∈ args, Arises e valuation error
  | [], valuation, error, h => by
      rw [valueList] at h
      cases h
  | first :: rest, valuation, error, h => by
      rw [valueList] at h
      rcases bind_eq_error_iff.1 h with hfirst | ⟨x, -, h⟩
      · exact ⟨first, List.mem_cons_self, arises_of_value hfirst⟩
      · rcases bind_eq_error_iff.1 h with hrest | ⟨xs, -, hdone⟩
        · obtain ⟨e, hmem, harises⟩ := exists_arises_of_valueList hrest
          exact ⟨e, List.mem_cons_of_mem _ hmem, harises⟩
        · cases hdone

theorem arises_of_valueDerivative {config : EvalConfig} {name : String} :
    ∀ {args : List Expr} {valuation : Valuation} {error : EvalError},
      valueDerivative config name args valuation = .error error →
        Arises (call name derivativeName args) valuation error
  | body :: bound :: point :: asked, valuation, error, h => by
      by_cases hasked : asked.length ≤ 1
      · cases hbound : bound.asVar? with
        | none =>
            rw [valueDerivative_of_asVar?_eq_none config name hbound body point hasked] at h
            cases h
            exact (Raises.variable hbound).arises
        | some x =>
            rw [valueDerivative_of_asVar? config name hbound body point hasked] at h
            obtain rfl := eq_var_of_asVar? hbound
            rcases bind_eq_error_iff.1 h with hpoint | ⟨p, -, h⟩
            · exact (arises_of_value hpoint).of_part (.behind List.mem_cons_self)
            · rcases bind_eq_error_iff.1 h with hsteps | ⟨steps, -, hquotient⟩
              · obtain ⟨e, hmem, harises⟩ := exists_arises_of_valueList hsteps
                exact harises.of_part (.behind (List.mem_cons_of_mem _ hmem))
              · obtain ⟨y, hbody⟩ := quotient_eq_error hquotient
                exact (arises_of_value hbody).of_part (.body y)
      · exact arises_of_length (length_notMem_counts hasked) h
  | [], valuation, error, h => arises_of_length (by simp [Action.counts]) h
  | [_], valuation, error, h => arises_of_length (by simp [Action.counts]) h
  | [_, _], valuation, error, h => arises_of_length (by simp [Action.counts]) h

end

end Expr

end Secant
