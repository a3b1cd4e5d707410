import Secant.Environment.Script

/-!
Scopes inside one another, as they stand in a run. The run of a script comes to its steps one by
one, and whenever it comes to them it is inside some scopes, each of which keeps how its name was
bound where it was entered. However far a run goes, a scope that it enters comes to an end, and
there the name is bound again as it was, while every other name stays as it is. A demand that is not
met ends all scopes around it, and nothing else happens any more.
-/

namespace Secant.Environment

/-- A scope around the steps of a run: the name that it lends, and where it was entered. -/
structure Guard where
  name : String
  entry : Environment

def lentBy (guards : List Guard) : Option String :=
  guards.head?.map Guard.name

/-- The run of a script comes to these steps in this environment, inside the scopes `guards`, the
innermost first, with the moments `before` behind it. -/
inductive Reaches (start : Environment) (script : List Step) :
    List Guard → List Moment → Environment → List Step → Prop
  | start : Reaches start script [] [] start script
  | onward {guards : List Guard} {before : List Moment} {env : Environment} {step : Step}
      {steps : List Step} : Reaches start script guards before env (step :: steps) →
        (step.run (lentBy guards) env).ended = false →
          Reaches start script guards (before ++ (step.run (lentBy guards) env).moments)
            (step.run (lentBy guards) env).env steps
  | inward {guards : List Guard} {before : List Moment} {env : Environment} {name : String}
      {body steps : List Step} :
        Reaches start script guards before env (.scope name body :: steps) →
        Reaches start script (⟨name, env⟩ :: guards) (before ++ [⟨.entered, env⟩]) env body

/-- The name of the scope is bound as it was where the scope was entered, and every other name as it
was last. -/
structure Guard.Restores (guard : Guard) (last after : Environment) : Prop where
  lookup_name : after.lookup guard.name = guard.entry.lookup guard.name
  lookup_of_ne : ∀ name, name ≠ guard.name → after.lookup name = last.lookup name

/-- The scopes are ended one after the other, and nothing else happens. -/
inductive Unwinds : Environment → List Guard → List Moment → Prop
  | nil {env : Environment} : Unwinds env [] []
  | cons {last after : Environment} {guard : Guard} {guards : List Guard}
      {moments : List Moment} : guard.Restores last after → Unwinds after guards moments →
        Unwinds last (guard :: guards) (⟨.unwound, after⟩ :: moments)

def Moment.EndsScope (moment : Moment) : Prop :=
  moment.answer = .left ∨ moment.answer = .unwound

theorem Guard.restores_restore (guard : Guard) (last : Environment) :
    guard.Restores last (last.restore guard.name (guard.entry.lookup guard.name)) where
  lookup_name := by simp
  lookup_of_ne name hne := by simp [hne]

/-! ### Runs of steps -/

section

variable {lent : Option String} {env : Environment} {step : Step} {steps : List Step}

theorem runAll_cons_of_ended (h : (step.run lent env).ended = true) :
    runAll lent env (step :: steps) = step.run lent env := by
  rw [runAll, if_pos h]

theorem moments_runAll_cons (h : (step.run lent env).ended = false) :
    (runAll lent env (step :: steps)).moments =
      (step.run lent env).moments ++ (runAll lent (step.run lent env).env steps).moments := by
  simp [runAll, h]

theorem env_runAll_cons (h : (step.run lent env).ended = false) :
    (runAll lent env (step :: steps)).env = (runAll lent (step.run lent env).env steps).env := by
  simp [runAll, h]

theorem ended_runAll_cons (h : (step.run lent env).ended = false) :
    (runAll lent env (step :: steps)).ended =
      (runAll lent (step.run lent env).env steps).ended := by
  simp [runAll, h]

theorem moments_run (lent : Option String) (env : Environment) (step : Step) :
    (∃ name body, step = .scope name body) ∨
      ∃ moment, (step.run lent env).moments = [moment] ∧ moment.env = (step.run lent env).env ∧
        ¬moment.EndsScope := by
  cases step with
  | scope name body => exact .inl ⟨name, body, rfl⟩
  | assign x =>
      right
      cases lent <;> exact ⟨_, rfl, rfl, by simp [Moment.EndsScope]⟩
  | _ => exact .inr ⟨_, rfl, rfl, by simp [Moment.EndsScope]⟩

theorem exists_getLast?_run (lent : Option String) (env : Environment) (step : Step) :
    ∃ last, (step.run lent env).moments.getLast? = some last ∧
      last.env = (step.run lent env).env := by
  obtain ⟨name, body, rfl⟩ | ⟨moment, hmoments, henv, -⟩ := moments_run lent env step
  · rw [Step.run]
    exact ⟨_, List.getLast?_concat, rfl⟩
  · exact ⟨moment, by rw [hmoments]; rfl, henv⟩

/-- A run that has not yet begun leaves it as it is in the moment before. -/
theorem exists_getLast?_runAll (lent : Option String) (moment : Moment) (steps : List Step) :
    ∃ last, (moment :: (runAll lent moment.env steps).moments).getLast? = some last ∧
      last.env = (runAll lent moment.env steps).env := by
  induction steps generalizing moment with
  | nil => exact ⟨moment, rfl, rfl⟩
  | cons step steps ih =>
      obtain ⟨last, hlast, henv⟩ := exists_getLast?_run lent moment.env step
      cases hended : (step.run lent moment.env).ended with
      | true =>
          rw [runAll_cons_of_ended hended]
          exact ⟨last, by simp [List.getLast?_cons, hlast], henv⟩
      | false =>
          obtain ⟨later, hlater, hlaterEnv⟩ := ih last
          rw [henv] at hlater hlaterEnv
          rw [moments_runAll_cons hended, env_runAll_cons hended]
          refine ⟨later, ?_, hlaterEnv⟩
          simp [← hlater, List.getLast?_cons, List.getLast?_append, hlast]

end

/-! ### Where scopes end -/

section

variable {start entry : Environment} {script : List Step} {guards : List Guard}
  {before : List Moment} {env : Environment} {name : String} {body steps : List Step}

/-- A scope at the front of some steps comes to an end. It is by itself, or it is ended, and then so
are the steps. -/
theorem exists_end_runAll (lent : Option String) (entry : Environment) (name : String)
    (body steps : List Step) :
    ∃ moment behind,
      (runAll lent entry (.scope name body :: steps)).moments =
        ⟨.entered, entry⟩ :: (runAll (some name) entry body).moments ++ moment :: behind ∧
      Guard.Restores ⟨name, entry⟩ (runAll (some name) entry body).env moment.env ∧
      ((runAll (some name) entry body).ended = false ∧ moment.answer = .left ∨
        moment = ⟨.unwound, (runAll lent entry (.scope name body :: steps)).env⟩ ∧ behind = [] ∧
          (runAll lent entry (.scope name body :: steps)).ended = true) := by
  have hrestores := Guard.restores_restore ⟨name, entry⟩ (runAll (some name) entry body).env
  cases hinner : (runAll (some name) entry body).ended with
  | false =>
      have hended : ((Step.scope name body).run lent entry).ended = false := by
        rw [Step.run, hinner]
      rw [moments_runAll_cons hended, Step.run, hinner]
      exact ⟨⟨.left, _⟩, _, List.append_assoc _ _ _, hrestores, .inl ⟨rfl, rfl⟩⟩
  | true =>
      have hended : ((Step.scope name body).run lent entry).ended = true := by
        rw [Step.run, hinner]
      rw [runAll_cons_of_ended hended, Step.run, hinner]
      exact ⟨_, [], rfl, hrestores, .inr ⟨rfl, rfl, rfl⟩⟩

/-- The moments of the steps that a run comes to stand behind those before them. If the steps are
ended, so are the scopes around them. -/
theorem Reaches.exists_behind (h : Reaches start script guards before env steps) :
    ∃ behind,
      (runAll none start script).moments =
        before ++ (runAll (lentBy guards) env steps).moments ++ behind ∧
      ((runAll (lentBy guards) env steps).ended = true →
        Unwinds (runAll (lentBy guards) env steps).env guards behind) := by
  induction h with
  | start => exact ⟨[], by simp [lentBy], fun _ => .nil⟩
  | @onward guards before env step steps _ hended ih =>
      obtain ⟨behind, hmoments, hunwinds⟩ := ih
      rw [moments_runAll_cons hended] at hmoments
      rw [ended_runAll_cons hended, env_runAll_cons hended] at hunwinds
      exact ⟨behind, by simpa using hmoments, hunwinds⟩
  | @inward guards before entry name body steps _ ih =>
      obtain ⟨behind, hmoments, hunwinds⟩ := ih
      obtain ⟨moment, later, hscope, hrestores, hend⟩ :=
        exists_end_runAll (lentBy guards) entry name body steps
      rw [hscope] at hmoments
      refine ⟨moment :: (later ++ behind), by simpa [lentBy] using hmoments, fun hended => ?_⟩
      obtain ⟨hnot, -⟩ | ⟨rfl, rfl, hall⟩ := hend
      · cases hended.symm.trans hnot
      · exact .cons hrestores (hunwinds hall)

/-- The steps of a scope have come to their end, with these moments behind them. -/
def Closes (start : Environment) (script : List Step) (before : List Moment) : Prop :=
  ∃ guards first entry name body steps,
    Reaches start script guards first entry (.scope name body :: steps) ∧
      before = first ++ ⟨.entered, entry⟩ :: (runAll (some name) entry body).moments

theorem append_eq_append_cons {α : Type} {xs ys first behind : List α} {a : α}
    (h : xs ++ ys = first ++ a :: behind) :
    (∃ between, xs = first ++ a :: between) ∨
      ∃ more, first = xs ++ more ∧ ys = more ++ a :: behind := by
  obtain ⟨more, hfirst, hys⟩ | ⟨more, hxs, hbehind⟩ := List.append_eq_append_iff.1 h
  · exact .inr ⟨more, hfirst, hys⟩
  · cases more with
    | nil => exact .inr ⟨[], by simpa using hxs.symm, hbehind.symm⟩
    | cons b more =>
        cases hbehind
        exact .inl ⟨more, hxs⟩

/-- A scope ends inside a scope, or where its steps have come to their end. -/
theorem Reaches.closes_scope
    (h : Reaches start script guards before entry (.scope name body :: steps))
    {first behind : List Moment} {moment : Moment}
    (hmoments : ((Step.scope name body).run (lentBy guards) entry).moments =
      first ++ moment :: behind)
    (hends : moment.EndsScope)
    (hinside : ∀ first between : List Moment,
      (runAll (some name) entry body).moments = first ++ moment :: between →
        Closes start script (before ++ [⟨.entered, entry⟩] ++ first)) :
    Closes start script (before ++ first) := by
  rw [Step.run] at hmoments
  obtain ⟨between, hfront⟩ | ⟨more, rfl, hlast⟩ := append_eq_append_cons hmoments
  · cases first with
    | nil =>
        cases hfront
        simp [Moment.EndsScope] at hends
    | cons entered first =>
        obtain ⟨rfl, hbody⟩ := List.cons.inj hfront
        simpa using hinside first between hbody
  · cases more with
    | nil => exact ⟨guards, before, entry, name, body, steps, h, by rw [List.append_nil]⟩
    | cons _ more => simp at hlast

theorem append_of_moments_runAll_cons {lent : Option String} {step : Step}
    {first behind : List Moment} {moment : Moment}
    (h : (runAll lent env (step :: steps)).moments = first ++ moment :: behind) :
    (∃ between, (step.run lent env).moments = first ++ moment :: between) ∨
      ∃ more, (step.run lent env).ended = false ∧ first = (step.run lent env).moments ++ more ∧
        (runAll lent (step.run lent env).env steps).moments = more ++ moment :: behind := by
  cases hended : (step.run lent env).ended with
  | true =>
      rw [runAll_cons_of_ended hended] at h
      exact .inl ⟨behind, h⟩
  | false =>
      rw [moments_runAll_cons hended] at h
      exact (append_eq_append_cons h).imp_right fun ⟨more, hfirst, hlater⟩ =>
        ⟨more, rfl, hfirst, hlater⟩

/-- Wherever a scope ends, the steps of a scope that the run has come to are at their end. -/
theorem Reaches.closes {guards : List Guard} {before : List Moment} {env : Environment}
    {steps : List Step} (h : Reaches start script guards before env steps)
    {first behind : List Moment} {moment : Moment}
    (hmoments : (runAll (lentBy guards) env steps).moments = first ++ moment :: behind)
    (hends : moment.EndsScope) : Closes start script (before ++ first) := by
  match steps with
  | [] => simp [runAll] at hmoments
  | step :: steps =>
      obtain ⟨between, hnow⟩ | ⟨more, hended, rfl, hlater⟩ :=
        append_of_moments_runAll_cons hmoments
      · obtain ⟨name, body, rfl⟩ | ⟨single, hsingle, -, hnot⟩ :=
          moments_run (lentBy guards) env step
        · exact h.closes_scope hnow hends fun first between hbody =>
            h.inward.closes hbody hends
        · rw [hsingle] at hnow
          cases first with
          | nil =>
              cases hnow
              exact absurd hends hnot
          | cons _ first => simp at hnow
      · rw [← List.append_assoc]
        exact (h.onward hended).closes hlater hends
termination_by steps

/-- A scope that the run comes to comes to its end. If it is ended, so are the scopes around it. -/
theorem Reaches.exists_end
    (h : Reaches start script guards before entry (.scope name body :: steps)) :
    ∃ moment behind,
      (runAll none start script).moments =
        before ++ ⟨.entered, entry⟩ :: (runAll (some name) entry body).moments ++
          moment :: behind ∧
      moment.EndsScope ∧
      Guard.Restores ⟨name, entry⟩ (runAll (some name) entry body).env moment.env ∧
      (moment.answer = .unwound → Unwinds moment.env guards behind) := by
  obtain ⟨behind, hmoments, hunwinds⟩ := h.exists_behind
  obtain ⟨moment, later, hscope, hrestores, hend⟩ :=
    exists_end_runAll (lentBy guards) entry name body steps
  rw [hscope] at hmoments
  refine ⟨moment, later ++ behind, by simpa using hmoments, ?_, hrestores, fun hanswer => ?_⟩
  · exact hend.imp And.right fun h => by rw [h.1]
  · obtain ⟨-, hleft⟩ | ⟨rfl, rfl, hended⟩ := hend
    · cases hleft.symm.trans hanswer
    · exact hunwinds hended

theorem Reaches.unwinds_of_demand
    (h : Reaches start script guards before env (.demand name :: steps))
    (hnone : env.lookup name = none) :
    ∃ behind,
      (runAll none start script).moments =
        before ++ ⟨.value (.error (.eval (.undefinedVariable name))), env⟩ :: behind ∧
      Unwinds env guards behind := by
  obtain ⟨behind, hmoments, hunwinds⟩ := h.exists_behind
  have hended : ((Step.demand name).run (lentBy guards) env).ended = true := by
    simp [Step.run, isDefined, hnone]
  have hanswer : (env.get name).mapError .eval =
      (.error (.eval (.undefinedVariable name)) : Except CalcError Float) := by
    rw [get, hnone]
    rfl
  rw [runAll_cons_of_ended hended] at hmoments hunwinds
  refine ⟨behind, ?_, hunwinds hended⟩
  simpa [Step.run, hanswer] using hmoments

end

/-- In every run, wherever a scope ends, by itself or because a demand was not met, the name of the
scope is bound as it was at the moment at which the scope was entered, and every other name as it
was at the moment just before. If it was ended, all scopes around it are ended next, from the inside
outwards, and that is all. Every scope that the run comes to comes to such an end, and a demand that
is not met is followed by the ends of all scopes around it. -/
theorem runAll_scopes (start : Environment) (script : List Step) :
    (∀ (before : List Moment) (moment : Moment) (behind : List Moment),
      (runAll none start script).moments = before ++ moment :: behind → moment.EndsScope →
        ∃ (guard : Guard) (guards : List Guard) (first : List Moment) (body steps : List Step)
            (last : Moment),
          Reaches start script guards first guard.entry (.scope guard.name body :: steps) ∧
          before = first ++ ⟨.entered, guard.entry⟩ ::
            (runAll (some guard.name) guard.entry body).moments ∧
          before.getLast? = some last ∧ guard.Restores last.env moment.env ∧
          (moment.answer = .unwound → Unwinds moment.env guards behind)) ∧
    (∀ (guards : List Guard) (before : List Moment) (entry : Environment) (name : String)
        (body steps : List Step),
      Reaches start script guards before entry (.scope name body :: steps) →
        ∃ moment behind,
          (runAll none start script).moments =
            before ++ ⟨.entered, entry⟩ :: (runAll (some name) entry body).moments ++
              moment :: behind ∧
          moment.EndsScope) ∧
    ∀ (guards : List Guard) (before : List Moment) (env : Environment) (name : String)
        (steps : List Step),
      Reaches start script guards before env (.demand name :: steps) → env.lookup name = none →
        ∃ behind,
          (runAll none start script).moments =
            before ++ ⟨.value (.error (.eval (.undefinedVariable name))), env⟩ :: behind ∧
          Unwinds env guards behind := by
  refine ⟨fun before moment behind hmoments hends => ?_,
    fun guards before entry name body steps h => ?_,
    fun guards before env name steps h hnone => h.unwinds_of_demand hnone⟩
  · obtain ⟨guards, first, entry, name, body, steps, hreaches, hbefore⟩ :=
      Reaches.start.closes hmoments hends
    rw [List.nil_append] at hbefore
    obtain ⟨moment', behind', hmoments', -, hrestores, hunwinds⟩ := hreaches.exists_end
    rw [hmoments, ← hbefore] at hmoments'
    -- Both moments stand behind the same ones, so they are one and the same.
    obtain ⟨rfl, rfl⟩ := List.cons.inj (List.append_cancel_left hmoments')
    obtain ⟨last, hlast, henv⟩ := exists_getLast?_runAll (some name) ⟨.entered, entry⟩ body
    refine ⟨⟨name, entry⟩, guards, first, body, steps, last, hreaches, hbefore, ?_, ?_, hunwinds⟩
    · rw [hbefore, List.getLast?_append, hlast, Option.some_or]
    · rwa [henv]
  · obtain ⟨moment, behind, hmoments, hends, -⟩ := h.exists_end
    exact ⟨moment, behind, hmoments, hends⟩

def missingName : List Step :=
  [.define "x" 1, .scope "x" [.assign 2, .scope "y" [.define "x" 3, .assign 4, .demand "z"]]]

/-- Both scopes are ended, and the name of the outer one is bound again as it was before both. -/
theorem runAll_scopes_missingName :
    Reaches empty missingName [⟨"y", .ofList [("x", 2)]⟩, ⟨"x", .ofList [("x", 1)]⟩]
        ((runAll none empty missingName).moments.take 6) (.ofList [("x", 3), ("y", 4)])
        [.demand "z"] ∧
      (Environment.ofList [("x", 3), ("y", 4)]).lookup "z" = none ∧
      (∃ behind,
        (runAll none empty missingName).moments =
          (runAll none empty missingName).moments.take 6 ++
            ⟨.value (.error (.eval (.undefinedVariable "z"))), .ofList [("x", 3), ("y", 4)]⟩ ::
              behind ∧
        Unwinds (.ofList [("x", 3), ("y", 4)])
          [⟨"y", .ofList [("x", 2)]⟩, ⟨"x", .ofList [("x", 1)]⟩] behind) ∧
      (runAll none empty missingName).moments =
        (runAll none empty missingName).moments.take 8 ++ [⟨.unwound, .ofList [("x", 1)]⟩] ∧
      ∃ (guard : Guard) (guards : List Guard) (first : List Moment) (body steps : List Step)
          (last : Moment),
        Reaches empty missingName guards first guard.entry (.scope guard.name body :: steps) ∧
        (runAll none empty missingName).moments.take 8 = first ++ ⟨.entered, guard.entry⟩ ::
          (runAll (some guard.name) guard.entry body).moments ∧
        ((runAll none empty missingName).moments.take 8).getLast? = some last ∧
        guard.Restores last.env (.ofList [("x", 1)]) ∧ Unwinds (.ofList [("x", 1)]) guards [] := by
  have hreaches : Reaches empty missingName
      [⟨"y", .ofList [("x", 2)]⟩, ⟨"x", .ofList [("x", 1)]⟩]
      ((runAll none empty missingName).moments.take 6) (.ofList [("x", 3), ("y", 4)])
      [.demand "z"] :=
    .onward (.onward (.inward (.onward (.inward (.onward .start rfl)) rfl)) rfl) rfl
  have hmoments : (runAll none empty missingName).moments =
      (runAll none empty missingName).moments.take 8 ++ [⟨.unwound, .ofList [("x", 1)]⟩] := rfl
  obtain ⟨guard, guards, first, body, steps, last, hscope, hbefore, hlast, hrestores, hunwinds⟩ :=
    (runAll_scopes empty missingName).1 _ _ _ hmoments (.inr rfl)
  exact ⟨hreaches, rfl, (runAll_scopes empty missingName).2.2 _ _ _ _ _ hreaches rfl, hmoments,
    guard, guards, first, body, steps, last, hscope, hbefore, hlast, hrestores, hunwinds rfl⟩

end Secant.Environment
