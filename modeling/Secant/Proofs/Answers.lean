import Secant.Proofs.Dialogue
import Secant.Proofs.FreeVariables
import Secant.Proofs.Traits
import Secant.Session

/-!
How the lines of a script are used up by one round. Every variable that is asked for passes over the
lines that are no numbers and takes the first that is one, and the next variable goes on behind that
line. Either all of them get their numbers and the tree is evaluated, or one of them meets the end
of the script or a reading that failed, and nothing happens behind it.
-/

namespace Secant

/-! ### Lines that are asked for -/

def asking (name : String) : Event :=
  .prompted (.hue .cyan s!"Enter a value for {name}: ")

def IsNumber (line : String) : Prop :=
  ∃ x, NumberInput.ofText line = .number x

theorem not_isNumber_of_blank {line : String} (h : Text.trim line = "") : ¬IsNumber line := by
  rintro ⟨x, hx⟩
  cases hx.symm.trans (NumberInput.ofText_eq_blank_iff.2 h)

def pointingOut (line : String) : List Event :=
  if Text.trim line = "" then [] else [.wrote (.hue .yellow "Expected a number. Try again.")]

def passing (name line : String) : List Event :=
  asking name :: pointingOut line

/-- A variable that got its number: the lines that were passed over, and the line that was taken. -/
structure Answer where
  name : String
  passed : List String
  line : String
  value : Float
  not_isNumber : ∀ line ∈ passed, ¬IsNumber line
  isNumber : NumberInput.ofText line = .number value

namespace Answer

def readings (answer : Answer) : List Reading :=
  (answer.passed ++ [answer.line]).map .line

def events (answer : Answer) : List Event :=
  answer.passed.flatMap (passing answer.name) ++ [asking answer.name]

def definition (answer : Answer) : Definition :=
  (answer.name, answer.value)

def later (answer : Answer) (line : String) (h : ¬IsNumber line) : Answer where
  name := answer.name
  passed := line :: answer.passed
  line := answer.line
  value := answer.value
  not_isNumber := by simpa [h] using answer.not_isNumber
  isNumber := answer.isNumber

@[simp] theorem name_later (answer : Answer) (line : String) (h : ¬IsNumber line) :
    (answer.later line h).name = answer.name := rfl

@[simp] theorem value_later (answer : Answer) (line : String) (h : ¬IsNumber line) :
    (answer.later line h).value = answer.value := rfl

@[simp] theorem readings_later (answer : Answer) (line : String) (h : ¬IsNumber line) :
    (answer.later line h).readings = .line line :: answer.readings := rfl

@[simp] theorem events_later (answer : Answer) (line : String) (h : ¬IsNumber line) :
    (answer.later line h).events = passing answer.name line ++ answer.events := by
  simp [later, events]

end Answer

/-- A variable that gets no number: behind the lines that are passed over a reading fails, or the
script ends. -/
def GivesUp (name : String) (script : List Reading) (played : Played (Except Fault Float)) : Prop :=
  ∃ passed : List String, (∀ line ∈ passed, ¬IsNumber line) ∧
    played.events = passed.flatMap (passing name) ++ [asking name] ∧
    ((script = passed.map .line ∧ played.rest = [] ∧
        played.result =
          .error (.ofMessage s!"input ended before a value for '{name}' was entered")) ∨
      ∃ message, script = passed.map .line ++ .failed message :: played.rest ∧
        played.result = .error ⟨[s!"failed to read a value for '{name}'"], .other message⟩)

theorem GivesUp.later {name line : String} {script : List Reading}
    {played : Played (Except Fault Float)} (h : GivesUp name script played)
    (hline : ¬IsNumber line) :
    GivesUp name (.line line :: script) (played.prepend (passing name line)) := by
  obtain ⟨passed, hpassed, hevents, hend⟩ := h
  refine ⟨line :: passed, by simpa [hline] using hpassed, by simp [Played.prepend, hevents], ?_⟩
  rcases hend with ⟨rfl, hrest, hresult⟩ | ⟨message, hscript, hresult⟩
  · exact .inl ⟨rfl, hrest, hresult⟩
  · exact .inr ⟨message, by simp [Played.prepend, hscript], hresult⟩

theorem ofText_of_not_isNumber {line : String} (h : ¬IsNumber line) :
    NumberInput.ofText line = if Text.trim line = "" then .blank else .invalid := by
  cases hline : NumberInput.ofText line with
  | number x => exact absurd ⟨x, hline⟩ h
  | blank => rw [if_pos (NumberInput.ofText_eq_blank_iff.1 hline)]
  | invalid =>
      have hne : Text.trim line ≠ "" := fun hblank => by
        cases hline.symm.trans (NumberInput.ofText_eq_blank_iff.2 hblank)
      rw [if_neg hne]

/-! ### One variable -/

namespace Question

theorem reply_of_not_isNumber (question : Question) {line : String} (h : ¬IsNumber line) :
    dialogue.reply question (.line line) = ⟨pointingOut line, .wait question⟩ := by
  change question.answer line = _
  rw [answer, ofText_of_not_isNumber h, pointingOut]
  by_cases hblank : Text.trim line = "" <;> simp [hblank]

theorem play_of_not_isNumber (question : Question) {line : String} (h : ¬IsNumber line)
    (script : List Reading) :
    dialogue.play ⟨[], .wait question⟩ (.line line :: script) =
      (dialogue.play ⟨[], .wait question⟩ script).prepend (passing question.name line) := by
  rw [Dialogue.play_wait_cons, reply_of_not_isNumber question h, Dialogue.play_eq_prepend,
    Played.prepend_prepend]
  rfl

theorem play_of_isNumber (question : Question) {line : String} {x : Float}
    (h : NumberInput.ofText line = .number x) (script : List Reading) :
    dialogue.play ⟨[], .wait question⟩ (.line line :: script) =
      (dialogue.play ⟨[], ask question.tree (question.env.define question.name x) question.later⟩
        script).prepend [asking question.name] := by
  have hreply : dialogue.reply question (.line line) =
      ⟨[], ask question.tree (question.env.define question.name x) question.later⟩ := by
    change question.answer line = _
    rw [answer, h]
  rw [Dialogue.play_wait_cons, hreply]
  rfl

/-- A variable gets its number, and the next one is turned to, or it gets none. -/
theorem answered_or_givesUp (question : Question) (script : List Reading) :
    (∃ answer : Answer, ∃ rest, answer.name = question.name ∧ script = answer.readings ++ rest ∧
      dialogue.play ⟨[], .wait question⟩ script =
        (dialogue.play ⟨[], ask question.tree (question.env.define question.name answer.value)
          question.later⟩ rest).prepend answer.events) ∨
      GivesUp question.name script (dialogue.play ⟨[], .wait question⟩ script) := by
  induction script with
  | nil =>
      right
      rw [Dialogue.play_wait_nil]
      exact ⟨[], by simp, rfl, .inl ⟨rfl, rfl, rfl⟩⟩
  | cons reading script ih =>
      cases reading with
      | failed message =>
          right
          have hreply : dialogue.reply question (.failed message) =
              ⟨[], .done (.error (question.unread message))⟩ := rfl
          rw [Dialogue.play_wait_cons, hreply, Dialogue.play_done]
          exact ⟨[], by simp, rfl, .inr ⟨message, rfl, rfl⟩⟩
      | line line =>
          by_cases hline : IsNumber line
          · left
            obtain ⟨x, hx⟩ := hline
            exact ⟨⟨question.name, [], line, x, by simp, hx⟩, script, rfl, rfl,
              play_of_isNumber question hx script⟩
          · rw [play_of_not_isNumber question hline]
            rcases ih with ⟨answer, rest, hname, rfl, hplay⟩ | hgives
            · refine .inl ⟨answer.later line hline, rest, hname, by simp, ?_⟩
              rw [hplay, Played.prepend_prepend, Answer.events_later, hname, Answer.value_later]
            · exact .inr (hgives.later hline)

end Question

/-! ### All variables -/

/-- What evaluating a tree comes to in a round. -/
def verdict (tree : Expr) (env : Environment) : Except Fault Float :=
  (Environment.Evaluation.outcome (tree.eval .default) env).mapError fun error =>
    .ofCalc (.eval error)

theorem Question.ask_nil (tree : Expr) (env : Environment) :
    ask tree env [] = .done (verdict tree env) := by
  unfold ask verdict Environment.Evaluation.outcome
  cases tree.eval .default env <;> rfl

/-- All names get their numbers, and the tree is evaluated where they are bound as well. -/
def Completes (tree : Expr) (env : Environment) (names : List String) (script : List Reading)
    (played : Played (Except Fault Float)) : Prop :=
  ∃ answers : List Answer, answers.map Answer.name = names ∧
    script = answers.flatMap Answer.readings ++ played.rest ∧
    played.events = answers.flatMap Answer.events ∧
    played.result =
      verdict tree ((answers.map Answer.definition).foldl (fun env b => env.define b.1 b.2) env)

/-- Some names get their numbers, and the next one gets none. -/
def BreaksOff (names : List String) (script : List Reading)
    (played : Played (Except Fault Float)) : Prop :=
  ∃ (answers : List Answer) (name : String) (later : List String) (rest : List Reading)
    (ended : Played (Except Fault Float)),
    names = answers.map Answer.name ++ name :: later ∧
    script = answers.flatMap Answer.readings ++ rest ∧ GivesUp name rest ended ∧
    played = ended.prepend (answers.flatMap Answer.events)

theorem Completes.cons {tree : Expr} {env : Environment} {names : List String}
    {script : List Reading} {played : Played (Except Fault Float)} (answer : Answer)
    (h : Completes tree (env.define answer.name answer.value) names script played) :
    Completes tree env (answer.name :: names) (answer.readings ++ script)
      (played.prepend answer.events) := by
  obtain ⟨answers, hnames, hscript, hevents, hresult⟩ := h
  exact ⟨answer :: answers, by simp [hnames], by simp [Played.prepend, hscript],
    by simp [Played.prepend, hevents], hresult⟩

theorem BreaksOff.cons {names : List String} {script : List Reading}
    {played : Played (Except Fault Float)} (answer : Answer) (h : BreaksOff names script played) :
    BreaksOff (answer.name :: names) (answer.readings ++ script)
      (played.prepend answer.events) := by
  obtain ⟨answers, name, later, rest, ended, rfl, rfl, hgives, rfl⟩ := h
  exact ⟨answer :: answers, name, later, rest, ended, rfl, by simp, hgives, by simp⟩

namespace Question

/-- Those of the names are asked for that are not bound. -/
theorem completes_or_breaksOff (tree : Expr) {names : List String} (hnames : names.Nodup)
    (env : Environment) (script : List Reading) :
    Completes tree env (names.filter fun name => !env.isDefined name) script
        (dialogue.play ⟨[], ask tree env names⟩ script) ∨
      BreaksOff (names.filter fun name => !env.isDefined name) script
        (dialogue.play ⟨[], ask tree env names⟩ script) := by
  induction names generalizing env script with
  | nil =>
      left
      rw [ask_nil, Dialogue.play_done]
      exact ⟨[], rfl, rfl, rfl, rfl⟩
  | cons name names ih =>
      obtain ⟨hnotMem, hnodup⟩ := List.nodup_cons.1 hnames
      rw [ask]
      split
      · rename_i hdefined
        simpa [hdefined] using ih hnodup env script
      · rename_i hundefined
        have hopen : (name :: names).filter (fun name => !env.isDefined name) =
            name :: names.filter fun name => !env.isDefined name := by
          simp [hundefined]
        rw [hopen]
        rcases answered_or_givesUp ⟨tree, env, name, names⟩ script with
          ⟨answer, rest, rfl, rfl, hplay⟩ | hgives
        · -- The name is bound now, but it is none of those that come behind it.
          have hrest : (names.filter fun name => !env.isDefined name) =
              names.filter fun name => !(env.define answer.name answer.value).isDefined name := by
            apply List.filter_congr
            intro other hmem
            have hne : other ≠ answer.name := fun heq => hnotMem (heq ▸ hmem)
            simp [Environment.isDefined, hne]
          rw [hplay, hrest]
          exact (ih hnodup _ rest).imp (Completes.cons answer) (BreaksOff.cons answer)
        · exact .inr ⟨[], name, _, script, _, rfl, rfl, hgives, rfl⟩

end Question

namespace Session

def notes (session : Session) (tree : Expr) : List Event :=
  if session.verbose then [.noted (Report.diagnostics tree)] else []

theorem evaluate_of_error {session : Session} {text : String} {error : ParseError}
    (h : Expr.ofText text = .error error) (script : List Reading) :
    session.evaluate text script = ⟨[], .error (.ofCalc (.parse error)), script⟩ := by
  rw [evaluate, start, h, Dialogue.play_done]

theorem evaluate_of_ok {session : Session} {text : String} {tree : Expr}
    (h : Expr.ofText text = .ok tree) (script : List Reading) :
    session.evaluate text script =
      (Question.dialogue.play ⟨[], Question.ask tree (.ofList session.defines) tree.free⟩
        script).prepend (session.notes tree) := by
  rw [evaluate, start, h, Dialogue.play_eq_prepend]
  rfl

/-- The free variables that have no definition. -/
def asked (session : Session) (tree : Expr) : List String :=
  tree.free.filter fun name => !(Environment.ofList session.defines).isDefined name

theorem nodup_free (tree : Expr) : tree.free.Nodup := by
  apply (Expr.pairwise_free tree).imp
  rintro name _ hlt rfl
  exact String.lt_irrefl name hlt

theorem isDefined_ofList_eq_false_iff {defines : List Definition} {name : String} :
    (Environment.ofList defines).isDefined name = false ↔ ∀ x, (name, x) ∉ defines := by
  rw [Environment.isDefined, Environment.lookup_ofList, Option.isSome_eq_false_iff,
    Option.isNone_iff_eq_none, List.lookup_eq_none_iff]
  constructor
  · intro h x hmem
    simpa using h (name, x) (by simpa using hmem)
  · intro h definition hmem
    have hne : name ≠ definition.1 := fun heq => h definition.2 (by simpa [heq] using hmem)
    simpa using hne

theorem mem_asked_iff {session : Session} {tree : Expr} {name : String} :
    name ∈ session.asked tree ↔ name ∈ tree.free ∧ ∀ x, (name, x) ∉ session.defines := by
  rw [asked, List.mem_filter, Bool.not_eq_true', isDefined_ofList_eq_false_iff]

theorem completes_or_breaksOff {session : Session} {text : String} {tree : Expr}
    (hread : Expr.ofText text = .ok tree) (script : List Reading) :
    (∃ (answers : List Answer) (rest : List Reading),
        session.asked tree = answers.map Answer.name ∧
        script = answers.flatMap Answer.readings ++ rest ∧
        session.evaluate text script =
          ⟨session.notes tree ++ answers.flatMap Answer.events,
            verdict tree (.ofList (session.defines ++ answers.map Answer.definition)), rest⟩) ∨
      ∃ (answers : List Answer) (name : String) (later : List String) (rest : List Reading)
          (ended : Played (Except Fault Float)),
        session.asked tree = answers.map Answer.name ++ name :: later ∧
        script = answers.flatMap Answer.readings ++ rest ∧ GivesUp name rest ended ∧
        session.evaluate text script =
          ended.prepend (session.notes tree ++ answers.flatMap Answer.events) := by
  rw [evaluate_of_ok hread]
  rcases Question.completes_or_breaksOff tree (nodup_free tree) (.ofList session.defines) script
    with ⟨answers, hnames, hscript, hevents, hresult⟩ |
      ⟨answers, name, later, rest, ended, hnames, hscript, hgives, hplay⟩
  · refine .inl ⟨answers, _, hnames.symm, hscript, ?_⟩
    rw [← hevents, Environment.ofList_append, ← hresult]
    rfl
  · refine .inr ⟨answers, name, later, rest, ended, hnames, hscript, hgives, ?_⟩
    rw [hplay, Played.prepend_prepend]

/-- A text that is no expression ends a round at once. Of any other the free variables without a
definition are asked for, in ascending order, and no blank line is a number for them. Either all of
them get their numbers, and the tree is evaluated where the definitions and these numbers are bound,
of a name the last, or some get theirs and the next one gets none. -/
theorem evaluate_uses_script (session : Session) (text : String) (script : List Reading) :
    match Expr.ofText text with
    | .error error =>
        session.evaluate text script = ⟨[], .error (.ofCalc (.parse error)), script⟩
    | .ok tree =>
        ∃ names : List String, names.Pairwise (· < ·) ∧
          (∀ name, name ∈ names ↔ name ∈ tree.free ∧ ∀ x, (name, x) ∉ session.defines) ∧
          (∀ line, Text.trim line = "" → ¬IsNumber line) ∧
          ((∃ (answers : List Answer) (rest : List Reading) (env : Environment),
              names = answers.map Answer.name ∧ script = answers.flatMap Answer.readings ++ rest ∧
              (∀ name, env.lookup name =
                (session.defines ++ answers.map Answer.definition).reverse.lookup name) ∧
              session.evaluate text script =
                ⟨session.notes tree ++ answers.flatMap Answer.events, verdict tree env, rest⟩) ∨
            ∃ (answers : List Answer) (name : String) (later : List String) (rest : List Reading)
                (ended : Played (Except Fault Float)),
              names = answers.map Answer.name ++ name :: later ∧
              script = answers.flatMap Answer.readings ++ rest ∧ GivesUp name rest ended ∧
              session.evaluate text script =
                ended.prepend (session.notes tree ++ answers.flatMap Answer.events)) := by
  cases hread : Expr.ofText text with
  | error error => exact evaluate_of_error hread script
  | ok tree =>
      refine ⟨session.asked tree, (Expr.pairwise_free tree).filter _, fun name => mem_asked_iff,
        fun line => not_isNumber_of_blank, ?_⟩
      refine (completes_or_breaksOff hread script).imp_left ?_
      rintro ⟨answers, rest, hnames, hscript, hplay⟩
      exact ⟨answers, rest, _, hnames, hscript, Environment.lookup_ofList _, hplay⟩

end Session

end Secant
