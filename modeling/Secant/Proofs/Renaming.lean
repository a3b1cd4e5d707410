import Mathlib.Data.List.Sort
import Mathlib.Data.Set.Function
import Mathlib.Data.String.Basic
import Secant.Proofs.Traits

/-!
Variables under other names. Where no two variables come to share a name, an expression has the same
value as before under the valuation that knows the variables by their new names. A derivative binds
its variable itself, so the name of that variable counts for nothing outside: it may be replaced by
any name that the expression under the derivative does not contain.
-/

namespace Secant

namespace Expr

mutual

/-- Every variable by its new name, also where a derivative binds it. -/
def rename (r : String → String) : Expr → Expr
  | number value => number value
  | var name => var (r name)
  | neg operand => neg (operand.rename r)
  | binary op left right => binary op (left.rename r) (right.rename r)
  | call name canonical args => call name canonical (renameList r args)

def renameList (r : String → String) : List Expr → List Expr
  | [] => []
  | first :: rest => first.rename r :: renameList r rest

end

@[simp] theorem length_renameList (r : String → String) (args : List Expr) :
    (renameList r args).length = args.length := by
  induction args with
  | nil => rfl
  | cons first rest ih => simp [renameList, ih]

@[simp] theorem asVar?_rename (r : String → String) (e : Expr) :
    (e.rename r).asVar? = e.asVar?.map r := by
  cases e <;> rfl

def within (names : Set String) : Traits where
  number _ := True
  var name := name ∈ names
  call _ _ _ := True

end Expr

/-- The other valuation knows these names by their new names, and a name that is not bound has kept
its name. -/
def Valuation.Renamed (r : String → String) (names : Set String) (valuation other : Valuation) :
    Prop :=
  ∀ name ∈ names, other (r name) = valuation name ∧ (valuation name = none → r name = name)

theorem Valuation.Renamed.rebind {r : String → String} {names : Set String}
    {valuation other : Valuation} (hr : Set.InjOn r names) {x : String} (hx : x ∈ names)
    (h : Renamed r names valuation other) (y : Float) :
    Renamed r names (valuation.rebind x y) (other.rebind (r x) y) := by
  intro name hmem
  by_cases hname : name = x
  · subst hname
    simp [Valuation.rebind]
  · have hne : r name ≠ r x := fun heq => hname (hr hmem hx heq)
    simpa [Valuation.rebind, hname, hne] using h name hmem

namespace Expr

open Environment

section

variable {r : String → String} {names : Set String}

/-! ### Values -/

mutual

/-- An expression with its variables renamed has the value that it had before. -/
theorem value_rename (config : EvalConfig) (hr : Set.InjOn r names) :
    ∀ {e : Expr} {valuation other : Valuation}, e.Has (within names) →
      valuation.Renamed r names other → (e.rename r).value config other = e.value config valuation
  | number x, valuation, other, _, _ => by rw [rename, value, value]
  | var name, valuation, other, hmem, h => by
      obtain ⟨hvalue, hname⟩ := h name hmem
      rw [rename, value, value, hvalue]
      cases hlookup : valuation name with
      | some x => rfl
      | none => rw [hname hlookup]
  | neg operand, valuation, other, hmem, h => by
      have hoperand := value_rename config hr (e := operand) hmem h
      rw [rename, value, value, hoperand]
  | binary op left right, valuation, other, hmem, h => by
      have hleft := value_rename config hr (e := left) hmem.1 h
      have hright := value_rename config hr (e := right) hmem.2 h
      rw [rename, value, value, hleft, hright]
  | call name canonical args, valuation, other, hmem, h => by
      have hargs := valueList_rename config hr hmem.2 h
      have hderivative := valueDerivative_rename config name hr hmem.2 h
      rw [rename, value, value, hargs, hderivative]

theorem valueList_rename (config : EvalConfig) (hr : Set.InjOn r names) :
    ∀ {args : List Expr} {valuation other : Valuation}, HasAll (within names) args →
      valuation.Renamed r names other →
        valueList config (renameList r args) other = valueList config args valuation
  | [], valuation, other, _, _ => by rw [renameList, valueList, valueList]
  | first :: rest, valuation, other, hmem, h => by
      have hfirst := value_rename config hr (e := first) hmem.1 h
      have hrest := valueList_rename config hr hmem.2 h
      rw [renameList, valueList, valueList, hfirst, hrest]

theorem valueDerivative_rename (config : EvalConfig) (name : String) (hr : Set.InjOn r names) :
    ∀ {args : List Expr} {valuation other : Valuation}, HasAll (within names) args →
      valuation.Renamed r names other →
        valueDerivative config name (renameList r args) other =
          valueDerivative config name args valuation
  | body :: bound :: point :: asked, valuation, other, hmem, h => by
      obtain ⟨hbody, hbound, hpoint, hasked⟩ := hmem
      simp only [renameList]
      by_cases hcount : asked.length ≤ 1
      · have hcount' : (renameList r asked).length ≤ 1 := by rwa [length_renameList]
        cases hvar : bound.asVar? with
        | none =>
            have hvar' : (bound.rename r).asVar? = none := by rw [asVar?_rename, hvar]; rfl
            rw [valueDerivative_of_asVar?_eq_none config name hvar body point hcount,
              valueDerivative_of_asVar?_eq_none config name hvar' _ _ hcount']
        | some x =>
            obtain rfl := eq_var_of_asVar? hvar
            have hpoint := value_rename config hr hpoint h
            have hsteps := valueList_rename config hr hasked h
            -- Off the point both bind the variable, the one by its old name, the other by its new.
            have hbody (y : Float) : (body.rename r).value config (other.rebind (r x) y) =
                body.value config (valuation.rebind x y) :=
              value_rename config hr hbody (h.rebind hr hbound y)
            rw [valueDerivative_of_asVar? config name rfl body point hcount, rename,
              valueDerivative_of_asVar? config name rfl _ _ hcount', hpoint, hsteps]
            simp only [hbody]
      · have hcount' : ¬(renameList r asked).length ≤ 1 := by rwa [length_renameList]
        rw [valueDerivative_of_length config name (length_notMem_counts hcount),
          valueDerivative_of_length config name (length_notMem_counts hcount')]
        simp
  | [], _, _, _, _ => rfl
  | [_], _, _, _, _ => rfl
  | [_, _], _, _, _, _ => rfl

end

/-! ### Free variables -/

mutual

theorem mem_free_rename (hr : Set.InjOn r names) (name : String) :
    ∀ {e : Expr}, e.Has (within names) →
      (name ∈ (e.rename r).free ↔ ∃ other ∈ e.free, r other = name)
  | number x, _ => by simp [rename, free]
  | var other, _ => by simp [rename, free, eq_comm]
  | neg operand, hmem => by
      have hoperand := mem_free_rename hr name (e := operand) hmem
      simpa only [rename, mem_free_neg] using hoperand
  | binary op left right, hmem => by
      have hleft := mem_free_rename hr name (e := left) hmem.1
      have hright := mem_free_rename hr name (e := right) hmem.2
      simp only [rename, mem_free_binary, hleft, hright, or_and_right, exists_or]
  | call shown canonical args, hmem => by
      have hargs := mem_freeList_rename hr name hmem.2
      have hunder := mem_freeUnder_rename hr name hmem.2
      simp only [rename, free]
      split
      · exact hunder
      · exact hargs

theorem mem_freeList_rename (hr : Set.InjOn r names) (name : String) :
    ∀ {args : List Expr}, HasAll (within names) args →
      (name ∈ freeList (renameList r args) ↔ ∃ other ∈ freeList args, r other = name)
  | [], _ => by simp [renameList, freeList]
  | first :: rest, hmem => by
      have hfirst := mem_free_rename hr name (e := first) hmem.1
      have hrest := mem_freeList_rename hr name hmem.2
      simp only [renameList, freeList, Names.mem_union, hfirst, hrest, or_and_right, exists_or]

theorem mem_freeUnder_rename (hr : Set.InjOn r names) (name : String) :
    ∀ {args : List Expr}, HasAll (within names) args →
      (name ∈ freeUnder (renameList r args) ↔ ∃ other ∈ freeUnder args, r other = name)
  | [], _ => by simp [renameList, freeUnder]
  | [body], hmem => by
      have hbody := mem_free_rename hr name (e := body) hmem.1
      simpa only [renameList, freeUnder] using hbody
  | body :: bound :: rest, hmem => by
      have hbody := mem_free_rename hr name (e := body) hmem.1
      have hrest := mem_freeList_rename hr name hmem.2.2
      -- A name that is not the bound one does not become it.
      have hbound (other : String) (hother : other ∈ body.free) :
          (bound.rename r).asVar? = some (r other) ↔ bound.asVar? = some other := by
        rw [asVar?_rename]
        cases hvar : bound.asVar? with
        | none => simp
        | some x =>
            obtain rfl := eq_var_of_asVar? hvar
            have hmem' := hmem.1.var_of_mem_free hother
            simpa using hr.eq_iff hmem.2.1 hmem'
      simp only [renameList, mem_freeUnder, ← mem_freeList, hbody, hrest, or_and_right, exists_or]
      refine or_congr_left ⟨?_, ?_⟩
      · rintro ⟨⟨other, hother, rfl⟩, hne⟩
        exact ⟨other, ⟨hother, mt (hbound other hother).2 hne⟩, rfl⟩
      · rintro ⟨other, ⟨hother, hne⟩, rfl⟩
        exact ⟨⟨other, hother, rfl⟩, mt (hbound other hother).1 hne⟩

end

end

/-! ### The variable of a derivative -/

theorem injOn_update (x y : String) : Set.InjOn (Function.update id x y) {name | name ≠ y} := by
  intro name hname other hother heq
  rw [Function.update_apply, Function.update_apply] at heq
  split_ifs at heq with h h'
  · exact h.trans h'.symm
  · exact absurd heq.symm hother
  · exact absurd heq hname
  · exact heq

/-- Under a derivative the old name is bound in the one expression and the new one in the other. -/
theorem renamed_rebind (valuation : Valuation) (x y : String) (z : Float) :
    (valuation.rebind x z).Renamed (Function.update id x y) {name | name ≠ y}
      (valuation.rebind y z) := by
  intro name hname
  rw [Function.update_apply]
  split_ifs with h
  · subst h
    simp [Valuation.rebind]
  · have hne : name ≠ y := hname
    simp [Valuation.rebind, h, hne]

def derivative (shown : String) (body : Expr) (x : String) (point : Expr) (step : Option Expr) :
    Expr :=
  call shown derivativeName (body :: var x :: point :: step.toList)

theorem value_derivative (config : EvalConfig) (shown : String) (body : Expr) (x : String)
    (point : Expr) (step : Option Expr) (valuation : Valuation) :
    (derivative shown body x point step).value config valuation = (do
      let p ← point.value config valuation
      let steps ← valueList config step.toList valuation
      quotient (fun z => body.value config (valuation.rebind x z)) p
        (stepAround config p steps)) := by
  have hcount : step.toList.length ≤ 1 := by cases step <;> simp
  rw [derivative, value, Builtin.find?_derivativeName]
  exact valueDerivative_of_asVar? config shown rfl body point hcount valuation

theorem mem_free_derivative_rename (x : String) {y : String} {body : Expr}
    (hy : body.Has (within {name | name ≠ y})) (name : String) :
    name ∈ (body.rename (Function.update id x y)).free ∧ name ≠ y ↔
      name ∈ body.free ∧ name ≠ x := by
  rw [mem_free_rename (injOn_update x y) name hy]
  constructor
  · rintro ⟨⟨other, hother, rfl⟩, hne⟩
    rw [Function.update_apply] at hne ⊢
    split_ifs at hne ⊢ with h
    · exact absurd rfl hne
    · exact ⟨hother, h⟩
  · rintro ⟨hname, hne⟩
    exact ⟨⟨name, hname, Function.update_of_ne hne y id⟩, hy.var_of_mem_free hname⟩

/-- Which name a derivative binds makes no difference, as long as it does not occur in the
expression that the derivative is taken of: the derivative comes to the same value or to the same
error, whatever is bound to the old name and to the new one, and has the same free variables. -/
theorem outcome_eval_derivative_rename (config : EvalConfig) (shown x y : String) {body : Expr}
    (hy : body.Has (within {name | name ≠ y})) (point : Expr) (step : Option Expr)
    (env : Environment) :
    Evaluation.outcome
        ((derivative shown (body.rename (Function.update id x y)) y point step).eval config) env =
      Evaluation.outcome ((derivative shown body x point step).eval config) env ∧
    (derivative shown (body.rename (Function.update id x y)) y point step).free =
      (derivative shown body x point step).free := by
  constructor
  · have hbody (z : Float) :=
      value_rename config (injOn_update x y) hy (renamed_rebind env.lookup x y z)
    rw [(keeps_eval config _ env).outcome_eq, (keeps_eval config _ env).outcome_eq,
      value_derivative, value_derivative]
    simp only [hbody]
  · refine (pairwise_free _).eq_of_mem_iff (pairwise_free _) fun name => ?_
    have hbody := mem_free_derivative_rename x hy name
    simp only [derivative, mem_free_derivative, asVar?, ne_eq, Option.some.injEq]
    rw [eq_comm (a := y), eq_comm (a := x), hbody]

/-- The expression `diff(x * w, x, x) + x`, in which a derivative is taken by the variable where it
is itself. -/
def innerDerivative : Expr :=
  binary .add (derivative "diff" (binary .mul (var "x") (var "w")) "x" (var "x") none) (var "x")

/-- The new name is that of a variable in the point, which is another one. -/
theorem outcome_eval_derivative_rename_inner :
    innerDerivative.Has (within {name | name ≠ "y"}) ∧
      innerDerivative.rename (Function.update id "x" "y") =
        binary .add (derivative "diff" (binary .mul (var "y") (var "w")) "y" (var "y") none)
          (var "y") ∧
      Evaluation.outcome
          ((derivative "diff" (innerDerivative.rename (Function.update id "x" "y")) "y" (var "y")
            none).eval .default) (.ofList [("w", 3), ("y", 2)]) =
        Evaluation.outcome ((derivative "diff" innerDerivative "x" (var "y") none).eval .default)
          (.ofList [("w", 3), ("y", 2)]) ∧
      (derivative "diff" (innerDerivative.rename (Function.update id "x" "y")) "y" (var "y")
          none).free =
        (derivative "diff" innerDerivative "x" (var "y") none).free := by
  have hy : innerDerivative.Has (within {name | name ≠ "y"}) := by
    simp [innerDerivative, derivative, Has, within]
  have hrename : innerDerivative.rename (Function.update id "x" "y") =
      binary .add (derivative "diff" (binary .mul (var "y") (var "w")) "y" (var "y") none)
        (var "y") := by
    simp [innerDerivative, derivative, rename, renameList, Function.update]
  exact ⟨hy, hrename, outcome_eval_derivative_rename .default "diff" "x" "y" hy (var "y") none _⟩

end Expr

end Secant
