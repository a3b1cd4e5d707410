import Mathlib.Data.List.Basic
import Mathlib.Data.List.Forall2
import Mathlib.Data.List.Nodup
import Secant.Environment.Script
import Secant.Proofs.Evaluation

/-!
Environments against their histories. Beside the run of a script stands its record, which knows no
environment, only the changes made so far: to bind a name, to unbind one and to end a scope each put
one change in front of those behind. A name is bound as its most recent change says. The run and the
record go through the same moments, and at each of them the environment answers every look-up as the
changes do, however scopes that lend one name stand inside one another.
-/

namespace Secant

theorem evalText_snd (text : String) (env : Environment) : (evalText text env).2 = env := by
  unfold evalText
  cases Expr.ofText text with
  | error error => rfl
  | ok e =>
      have hafter := (Expr.keeps_eval .default e env).after_eq
      unfold Environment.Evaluation.after at hafter
      cases hrun : e.eval .default env <;> simpa [hrun] using hafter

namespace Environment

/-- A name is bound to `value` from now on, or to nothing. -/
structure Change where
  name : String
  value : Option Float

/-- What the most recent change of a name has made of it. The latest of all changes stands first. -/
def latest (name : String) : List Change → Option Float
  | [] => none
  | change :: earlier => if change.name = name then change.value else latest name earlier

/-- The changes that bind the pairs of a list one after the other, so that the last pair of a name
is its most recent change. -/
def given (bindings : List (String × Float)) : List Change :=
  (bindings.map fun b => ⟨b.1, some b.2⟩).reverse

/-- The changes behind a run: behind each of its moments, and behind its end. -/
structure Record where
  moments : List (List Change)
  past : List Change
  ended : Bool

def Record.single (past : List Change) : Record :=
  ⟨[past], past, false⟩

mutual

/-- The changes that a step makes. At the end of a scope the lent name is bound as the most recent
change of it before the scope has it, or unbound. -/
def Step.record (lent : Option String) (past : List Change) : Step → Record
  | .define name value => .single (⟨name, some value⟩ :: past)
  | .remove name => .single (⟨name, none⟩ :: past)
  | .demand name => ⟨[past], past, (latest name past).isNone⟩
  | .scope name body =>
      let inner := recordAll (some name) past body
      let restored := ⟨name, latest name past⟩ :: inner.past
      ⟨past :: inner.moments ++ [restored], restored, inner.ended⟩
  | .assign value =>
      match lent with
      | some name => .single (⟨name, some value⟩ :: past)
      | none => .single past
  | .get _ | .lookup _ | .isDefined _ | .size | .isEmpty | .names | .eval _ | .scopeName =>
      .single past

def recordAll (lent : Option String) (past : List Change) : List Step → Record
  | [] => ⟨[], past, false⟩
  | step :: rest =>
      let now := step.record lent past
      if now.ended then now
      else
        let later := recordAll lent now.past rest
        ⟨now.moments ++ later.moments, later.past, later.ended⟩

end

/-- Every look-up comes to what the most recent change of the name has made of it. -/
def Follows (env : Environment) (past : List Change) : Prop :=
  ∀ name, env.lookup name = latest name past

/-- Whatever is asked of the environment, the answers agree on which names are bound. -/
structure Coherent (env : Environment) : Prop where
  ascending_names : env.names.Pairwise (· < ·)
  mem_names_iff : ∀ name, name ∈ env.names ↔ env.isDefined name = true
  isDefined_iff : ∀ name, env.isDefined name = true ↔ ∃ value, env.lookup name = some value
  lookup_iff : ∀ name value, env.lookup name = some value ↔ env.get name = .ok value
  size_eq : env.size = env.names.length
  isEmpty_iff : env.isEmpty = true ↔ env.names = []

/-- The run comes to its moments and to its end with these changes behind it. -/
structure Run.RecordedAs (run : Run) (record : Record) : Prop where
  moments : List.Forall₂ (fun moment past => moment.env.Follows past) run.moments record.moments
  follows : run.env.Follows record.past
  ended_eq : run.ended = record.ended

/-! ### The answers of one environment -/

theorem mem_names {env : Environment} {name : String} :
    name ∈ env.names ↔ ∃ value, env.lookup name = some value := by
  simp only [names, List.mem_map, Prod.exists, ← mem_bindings_iff]
  exact ⟨fun ⟨_, value, hmem, rfl⟩ => ⟨value, hmem⟩, fun ⟨value, hmem⟩ => ⟨name, value, hmem, rfl⟩⟩

theorem isDefined_eq_true_iff {env : Environment} {name : String} :
    env.isDefined name = true ↔ ∃ value, env.lookup name = some value :=
  Option.isSome_iff_exists

theorem get_eq_ok_iff {env : Environment} {name : String} {value : Float} :
    env.get name = .ok value ↔ env.lookup name = some value := by
  unfold get
  cases env.lookup name <;> simp

theorem coherent (env : Environment) : env.Coherent where
  ascending_names := List.pairwise_map.2 env.ascending
  mem_names_iff _ := mem_names.trans isDefined_eq_true_iff.symm
  isDefined_iff _ := isDefined_eq_true_iff
  lookup_iff _ _ := get_eq_ok_iff.symm
  size_eq := (List.length_map _).symm
  isEmpty_iff := List.isEmpty_iff.trans List.map_eq_nil_iff.symm

/-! ### One change -/

section

variable {env : Environment} {past : List Change}

/-- The one lemma about changes, since to bind and to unbind a name are both to restore it. -/
theorem Follows.restore (h : env.Follows past) (name : String) (value : Option Float) :
    (env.restore name value).Follows (⟨name, value⟩ :: past) := by
  intro other
  rw [lookup_restore, latest, h other]
  by_cases heq : other = name
  · rw [if_pos heq, if_pos heq.symm]
  · rw [if_neg heq, if_neg (Ne.symm heq)]

theorem Follows.define (h : env.Follows past) (name : String) (value : Float) :
    (env.define name value).Follows (⟨name, some value⟩ :: past) :=
  h.restore name (some value)

theorem Follows.remove (h : env.Follows past) (name : String) :
    (env.remove name).Follows (⟨name, none⟩ :: past) :=
  h.restore name none

theorem Follows.foldl_define (h : env.Follows past) (bindings : List (String × Float)) :
    (bindings.foldl (fun env b => env.define b.1 b.2) env).Follows (given bindings ++ past) := by
  induction bindings generalizing env past with
  | nil => exact h
  | cons first rest ih => simpa [given] using ih (h.define first.1 first.2)

theorem follows_ofList (bindings : List (String × Float)) :
    (ofList bindings).Follows (given bindings) := by
  have hempty : empty.Follows [] := fun _ => rfl
  simpa [ofList] using hempty.foldl_define bindings

end

/-! ### Runs -/

section

variable {env : Environment} {past : List Change}

theorem recordedAs_single (h : env.Follows past) (answer : Answer) :
    (Run.single answer env).RecordedAs (.single past) :=
  ⟨.cons h .nil, h, rfl⟩

theorem recordedAs_demand (h : env.Follows past) (lent : Option String) (name : String) :
    ((Step.demand name).run lent env).RecordedAs ((Step.demand name).record lent past) := by
  rw [Step.run, Step.record]
  refine ⟨.cons h .nil, h, ?_⟩
  simp [isDefined, h name]

theorem recordedAs_assign (h : env.Follows past) (lent : Option String) (value : Float) :
    ((Step.assign value).run lent env).RecordedAs ((Step.assign value).record lent past) := by
  cases lent with
  | none => exact recordedAs_single h _
  | some name => exact recordedAs_single (h.define name value) _

/-- What the scope gives back was looked up where it was entered. There the environment followed the
changes before the scope, which is why the record can look it up among them. -/
theorem recordedAs_scope (h : env.Follows past) (lent : Option String) {name : String}
    {body : List Step}
    (hbody : (runAll (some name) env body).RecordedAs (recordAll (some name) past body)) :
    ((Step.scope name body).run lent env).RecordedAs
      ((Step.scope name body).record lent past) := by
  have hrestored := hbody.follows.restore name (env.lookup name)
  rw [Step.run, Step.record, ← h name]
  exact ⟨.cons h (List.rel_append hbody.moments (.cons hrestored .nil)), hrestored, hbody.ended_eq⟩

theorem recordedAs_cons {lent : Option String} {step : Step} {steps : List Step}
    (hstep : (step.run lent env).RecordedAs (step.record lent past))
    (hsteps : (runAll lent (step.run lent env).env steps).RecordedAs
      (recordAll lent (step.record lent past).past steps)) :
    (runAll lent env (step :: steps)).RecordedAs (recordAll lent past (step :: steps)) := by
  rw [runAll, recordAll, hstep.ended_eq]
  cases (step.record lent past).ended with
  | true => exact hstep
  | false =>
      exact ⟨List.rel_append hstep.moments hsteps.moments, hsteps.follows, hsteps.ended_eq⟩

end

-- The induction is on a step together with the steps of its body. A body starts from another
-- environment with other changes behind it, so both stand before `h` in each statement.
mutual

/-- A step makes the changes of its record, wherever the environment follows those behind it. -/
theorem recordedAs_run {env : Environment} {past : List Change} (h : env.Follows past)
    (lent : Option String) (step : Step) :
    (step.run lent env).RecordedAs (step.record lent past) := by
  cases step with
  | define name value => exact recordedAs_single (h.define name value) _
  | remove name => exact recordedAs_single (h.remove name) _
  | demand name => exact recordedAs_demand h lent name
  | scope name body => exact recordedAs_scope h lent (recordedAs_runAll h (some name) body)
  | assign value => exact recordedAs_assign h lent value
  | eval text =>
      rw [Step.run, Step.record, evalText_snd]
      exact recordedAs_single h _
  | _ => exact recordedAs_single h _

theorem recordedAs_runAll {env : Environment} {past : List Change} (h : env.Follows past)
    (lent : Option String) (steps : List Step) :
    (runAll lent env steps).RecordedAs (recordAll lent past steps) := by
  cases steps with
  | nil => exact ⟨.nil, h, rfl⟩
  | cons step steps =>
      have hstep := recordedAs_run h lent step
      exact recordedAs_cons hstep (recordedAs_runAll hstep.follows lent steps)

end

/-! ### The order of the first bindings -/

theorem define_comm {name other : String} (h : name ≠ other) (env : Environment) (x y : Float) :
    (env.define name x).define other y = (env.define other y).define name x := by
  apply ext_lookup
  intro key
  by_cases hname : key = name
  · simp [hname, h]
  · simp [hname]

theorem ofList_perm {bindings others : List (String × Float)} (hperm : bindings.Perm others)
    (hnodup : (bindings.map Prod.fst).Nodup) : ofList bindings = ofList others := by
  have hcomm : ∀ b ∈ bindings, ∀ c ∈ bindings, ∀ env : Environment,
      (env.define b.1 b.2).define c.1 c.2 = (env.define c.1 c.2).define b.1 b.2 := by
    intro b hb c hc env
    by_cases heq : b.1 = c.1
    · rw [List.inj_on_of_nodup_map hnodup hb hc heq]
    · exact define_comm heq env b.2 c.2
  exact hperm.foldl_eq' hcomm empty

/-- An environment is bound from a list, and a script runs on it. At each moment, and when the
script is over, every name is bound as the most recent change of it says, be it a pair of the list,
a step or the end of a scope, and all that can be asked of the environment agrees with that. Where
no name is twice in the list, its order does not matter. -/
theorem runAll_history (bindings : List (String × Float)) (script : List Step) :
    List.Forall₂ (fun moment past => moment.env.Follows past ∧ moment.env.Coherent)
        (runAll none (ofList bindings) script).moments
        (recordAll none (given bindings) script).moments ∧
      (runAll none (ofList bindings) script).env.Follows
        (recordAll none (given bindings) script).past ∧
      (runAll none (ofList bindings) script).env.Coherent ∧
      ∀ others : List (String × Float), bindings.Perm others → (bindings.map Prod.fst).Nodup →
        ofList bindings = ofList others := by
  have hrun := recordedAs_runAll (follows_ofList bindings) none script
  exact ⟨hrun.moments.imp fun moment _ h => ⟨h, moment.env.coherent⟩, hrun.follows, coherent _,
    fun _ => ofList_perm⟩

def lentTwice : List Step :=
  [.scope "x" [.assign 3, .remove "y",
      .scope "z" [.assign 4, .scope "x" [.assign 5, .define "z" 6, .demand "w"]]],
    .define "y" 7]

/-- The ends of the three scopes come last, and before them what was done to the name that no scope
lent. -/
theorem runAll_history_lentTwice :
    [("y", (2 : Float)), ("x", 1)].Perm [("x", 1), ("y", 2)] ∧
      ([("y", (2 : Float)), ("x", 1)].map Prod.fst).Nodup ∧
      ofList [("y", 2), ("x", 1)] = ofList [("x", 1), ("y", 2)] ∧
      (recordAll none (given [("y", 2), ("x", 1)]) lentTwice).past =
        [⟨"x", some 1⟩, ⟨"z", none⟩, ⟨"x", some 3⟩, ⟨"z", some 6⟩, ⟨"x", some 5⟩, ⟨"z", some 4⟩,
          ⟨"y", none⟩, ⟨"x", some 3⟩, ⟨"x", some 1⟩, ⟨"y", some 2⟩] ∧
      (runAll none (ofList [("y", 2), ("x", 1)]) lentTwice).env.lookup "x" = some 1 ∧
      (runAll none (ofList [("y", 2), ("x", 1)]) lentTwice).env.lookup "y" = none ∧
      (runAll none (ofList [("y", 2), ("x", 1)]) lentTwice).env.lookup "z" = none ∧
      (runAll none (ofList [("y", 2), ("x", 1)]) lentTwice).env.names = ["x"] := by
  have hperm : [("y", (2 : Float)), ("x", 1)].Perm [("x", 1), ("y", 2)] := .swap _ _ _
  have hnodup : ([("y", (2 : Float)), ("x", 1)].map Prod.fst).Nodup := by simp
  obtain ⟨-, hfollows, -, hsame⟩ := runAll_history [("y", 2), ("x", 1)] lentTwice
  exact ⟨hperm, hnodup, hsame _ hperm hnodup, rfl, hfollows "x", hfollows "y", hfollows "z", rfl⟩

end Environment

end Secant
