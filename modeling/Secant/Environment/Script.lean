import Secant.Environment.Scope
import Secant.Expr.Eval

/-!
Scripts of steps on an environment, with scopes inside one another. A demand for a name that is not
bound ends the script and all scopes around it, from the inside outwards; each scope gives back the
name it was lent, whether it ends by itself or is ended.
-/

namespace Secant.Environment

inductive Step
  | define (name : String) (value : Float)
  | get (name : String)
  | lookup (name : String)
  | remove (name : String)
  | isDefined (name : String)
  | size
  | isEmpty
  | names
  | eval (text : String)
  /-- Like `get`, but without the name nothing further is done. -/
  | demand (name : String)
  | scope (name : String) (body : List Step)
  | assign (value : Float)
  | scopeName

inductive Answer
  | nothing
  | value (result : Except CalcError Float)
  | found (value : Option Float)
  | truth (holds : Bool)
  | count (n : Nat)
  | names (names : List String)
  | name (name : Option String)
  | entered
  | left
  | unwound

structure Moment where
  answer : Answer
  env : Environment

structure Run where
  moments : List Moment
  env : Environment
  ended : Bool

def Run.single (answer : Answer) (env : Environment) : Run :=
  ⟨[⟨answer, env⟩], env, false⟩

mutual

/-- A step inside a scope that has lent `lent`, if inside one at all. -/
def Step.run (lent : Option String) (env : Environment) : Step → Run
  | .define name value => .single .nothing (env.define name value)
  | .get name => .single (.value ((env.get name).mapError .eval)) env
  | .lookup name => .single (.found (env.lookup name)) env
  | .remove name => .single (.found (env.lookup name)) (env.remove name)
  | .isDefined name => .single (.truth (env.isDefined name)) env
  | .size => .single (.count env.size) env
  | .isEmpty => .single (.truth env.isEmpty) env
  | .names => .single (.names env.names) env
  | .eval text => .single (.value (evalText text env).1) (evalText text env).2
  | .demand name =>
      ⟨[⟨.value ((env.get name).mapError .eval), env⟩], env, !env.isDefined name⟩
  | .scope name body =>
      let inner := runAll (some name) env body
      let restored := inner.env.restore name (env.lookup name)
      ⟨⟨.entered, env⟩ :: inner.moments ++
        [⟨if inner.ended then .unwound else .left, restored⟩], restored, inner.ended⟩
  | .assign value =>
      match lent with
      | some name => .single .nothing (env.define name value)
      | none => .single .nothing env
  | .scopeName => .single (.name lent) env

def runAll (lent : Option String) (env : Environment) : List Step → Run
  | [] => ⟨[], env, false⟩
  | step :: rest =>
      let now := step.run lent env
      if now.ended then now
      else
        let later := runAll lent now.env rest
        ⟨now.moments ++ later.moments, later.env, later.ended⟩

end

end Secant.Environment
