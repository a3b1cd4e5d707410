import Secant.Program
import Secant.Proofs.Faults
import Secant.Proofs.Messages
import Secant.Proofs.Rounds

/-!
What a round reports. Whatever goes wrong in it, and wherever, one report is written at its end, and
the answer of the round says whether that was a value. Nothing else is written but that an answer
was no number. The program ends with the code that the last answer stands for, so it ends with zero
exactly if a value was shown.
-/

namespace Secant

open Text (Styled)

/-- A text of these lines. -/
def HasLines (text : String) (lines : List String) : Prop :=
  text = "\n".intercalate lines ∧ ∀ line ∈ lines, OneLine line

def Played.written {α : Type} (played : Played α) : List Styled :=
  played.events.filterMap Event.written?

namespace Report

def retryLine : Styled :=
  .hue .yellow "Expected a number. Try again."

/-- The lines under an error, which show the text and where in it the error is. -/
def marks (text : String) : List String :=
  match Expr.ofText text with
  | .error error =>
      ["  " ++ text, String.ofList (List.replicate (2 + error.position) ' ') ++ "^"]
  | .ok _ => []

theorem marks_of_error {text : String} {error : ParseError} (h : Expr.ofText text = .error error) :
    marks text =
      ["  " ++ text, String.ofList (List.replicate (2 + error.position) ' ') ++ "^"] := by
  rw [marks, h]

example : marks "2 + * 3" = ["  2 + * 3", "      ^"] := by
  decide +kernel

theorem marks_of_ok {text : String} {tree : Expr} (h : Expr.ofText text = .ok tree) :
    marks text = [] := by
  rw [marks, h]

theorem render_newline : (Styled.plain "\n").render false = "\n" := by
  decide

theorem oneLine_of_mem_marks {text line : String} (htext : OneLine text) (h : line ∈ marks text) :
    OneLine line := by
  unfold marks at h
  split at h
  · simp only [List.mem_cons, List.not_mem_nil, or_false] at h
    obtain rfl | rfl := h
    · simp +decide [oneLine_iff.1 htext]
    · simp +decide [Lacks]
  · cases h

theorem oneLine_of_mem_cons_marks {text message line : String} (htext : OneLine text)
    (hmessage : OneLine message) (h : line ∈ ("Error: " ++ message) :: marks text) :
    OneLine line := by
  obtain rfl | hmem := List.mem_cons.1 h
  · exact lacks_append.2 ⟨by decide, hmessage⟩
  · exact oneLine_of_mem_marks htext hmem

/-- Without colours the line says that this is the result. -/
def ShowsValue (line : Styled) : Prop :=
  ∃ x, line.render false = "Result: " ++ value x

theorem not_showsValue {line : Styled} (h : (line.render false).toList.head? ≠ some 'R') :
    ¬ShowsValue line := by
  rintro ⟨x, hx⟩
  rw [hx] at h
  simp at h

theorem not_showsValue_retryLine : ¬ShowsValue retryLine :=
  not_showsValue (by decide)

theorem not_showsValue_of_error {line : Styled} {rest : String}
    (h : line.render false = "Error: " ++ rest) : ¬ShowsValue line :=
  not_showsValue (by rw [h]; simp)

end Report

namespace Session

variable {session : Session} {text : String} {script : List Reading}

/-! ### What is written on the way -/

theorem eq_retryLine_of_reply (question : Question) (reading : Reading) {event : Event}
    (hmem : event ∈ (Question.dialogue.reply question reading).events) {shown : Styled}
    (hshown : event.written? = some shown) : shown = Report.retryLine := by
  cases reading with
  | failed message => cases hmem
  | line line =>
      change event ∈ (question.answer line).events at hmem
      unfold Question.answer at hmem
      split at hmem
      · cases hmem
      · obtain rfl := List.mem_singleton.1 hmem
        cases hshown
        rfl
      · cases hmem

theorem eq_retryLine_of_mem_written {shown : Styled}
    (h : shown ∈ (session.evaluate text script).written) : shown = Report.retryLine := by
  have hstart : ∀ event ∈ (session.start text).events,
      ∀ shown, event.written? = some shown → shown = Report.retryLine := by
    intro event hmem shown hshown
    unfold start at hmem
    split at hmem
    · cases hmem
    · dsimp only at hmem
      split at hmem
      · obtain rfl := List.mem_singleton.1 hmem
        cases hshown
      · cases hmem
  obtain ⟨event, hmem, hshown⟩ := List.mem_filterMap.1 h
  have hall := Question.dialogue.forall_mem_play
    (P := fun event => ∀ shown, event.written? = some shown → shown = Report.retryLine)
    (fun question shown hshown => by cases hshown)
    (fun question reading event hmem shown => eq_retryLine_of_reply question reading hmem)
    (fun question event hmem => by cases hmem) hstart script
  exact hall event hmem shown hshown

theorem exists_written_evaluate (session : Session) (text : String) (script : List Reading) :
    ∃ retries, (session.evaluate text script).written = List.replicate retries Report.retryLine :=
  ⟨_, List.eq_replicate_of_mem fun _ => eq_retryLine_of_mem_written⟩

/-! ### What is told of a fault -/

theorem oneLine_headline {tree : Expr} (hread : Expr.ofText text = .ok tree) {fault : Fault}
    (h : (session.evaluate text script).result = .error fault) :
    fault.parseError? = none ∧ (OneLine text → OneLine fault.headline) := by
  rcases completes_or_breaksOff hread script with
    ⟨answers, rest, -, -, hplay⟩ | ⟨answers, name, later, rest, ended, hnames, -, hgives, hplay⟩
  · rw [hplay] at h
    obtain ⟨error, rfl, hvalue⟩ := eq_error_of_verdict h
    exact ⟨rfl, fun htext =>
      Expr.lacks_of_value (Expr.has_namesLack_of_ofText hread (by decide) htext) (by decide) hvalue⟩
  · have hname (htext : OneLine text) : Lacks '\n' name := by
      have hasked : name ∈ session.asked tree := by simp [hnames]
      have hhas := Expr.has_namesLack_of_ofText hread (by decide) htext
      exact hhas.var_of_mem_free (mem_asked_iff.1 hasked).1
    rw [hplay] at h
    obtain ⟨passed, -, -, ⟨-, -, hresult⟩ | ⟨message, -, hresult⟩⟩ := hgives
    · cases h.symm.trans hresult
      refine ⟨rfl, fun htext => ?_⟩
      change OneLine s!"input ended before a value for '{name}' was entered"
      simp +decide [hname htext]
    · cases h.symm.trans hresult
      refine ⟨rfl, fun htext => ?_⟩
      change OneLine s!"failed to read a value for '{name}'"
      simp +decide [hname htext]

/-- A fault is told in one line, and the marks of the text are under it. -/
theorem exists_fault_eq {fault : Fault}
    (h : (session.evaluate text script).result = .error fault) :
    ∃ more, Report.fault fault (some text) = Report.errorLine fault.headline ++ more ∧
      (OneLine text → HasLines ((Report.errorLine fault.headline ++ more).render false)
        (("Error: " ++ fault.headline) :: Report.marks text)) := by
  cases hread : Expr.ofText text with
  | error error =>
      rw [evaluate_of_error hread] at h
      cases h
      refine ⟨.plain "\n" ++ Report.caretLines text error.position, List.append_assoc _ _ _,
        fun htext => ⟨?_, fun line => Report.oneLine_of_mem_cons_marks htext ?_⟩⟩
      · rw [Styled.render_append, Styled.render_append, Report.render_errorLine,
          Report.render_newline, Report.render_caretLines (Expr.position_le_of_ofText hread),
          Report.marks_of_error hread]
        simp only [String.intercalate_cons_cons, String.append_assoc]
      · exact Expr.lacks_of_ofText hread (by decide) htext
  | ok tree =>
      obtain ⟨hparse, hheadline⟩ := oneLine_headline hread h
      refine ⟨[], by simp [Report.fault, hparse],
        fun htext => ⟨?_, fun line => Report.oneLine_of_mem_cons_marks htext (hheadline htext)⟩⟩
      rw [List.append_nil, Report.render_errorLine, Report.marks_of_ok hread,
        String.intercalate_singleton]

/-! ### Single rounds -/

/-- The text that a single round is over, and the lines that are left for its numbers. -/
inductive Takes : Option String → List Reading → String → List Reading → Prop
  | given (text : String) (script : List Reading) : Takes (some text) script text script
  | line (text : String) (script : List Reading) : Takes none (.line text :: script) text script
  | nothing : Takes none [] "" []

/-- What is written at the end of a single round over a text, with the words that it has without
colours, and what the round answers. -/
inductive Reports (session : Session) (text : String) (script : List Reading) :
    Styled → Bool → Prop
  | value {x : Float} : Text.trim text ≠ "" →
      (session.evaluate (Text.trim text) script).result = .ok x →
      (Report.resultLine x).render false = "Result: " ++ Report.value x →
        Reports session text script (Report.resultLine x) true
  | blank : Text.trim text = "" →
      (Report.errorLine "empty input.").render false = "Error: " ++ "empty input." →
        Reports session text script (Report.errorLine "empty input.") false
  | fault {fault : Fault} {more : Styled} : Text.trim text ≠ "" →
      (session.evaluate (Text.trim text) script).result = .error fault →
      (Report.errorLine fault.headline ++ more).render false =
        "Error: " ++ (fault.headline ++ more.render false) →
      (OneLine (Text.trim text) →
        HasLines ((Report.errorLine fault.headline ++ more).render false)
          (("Error: " ++ fault.headline) :: Report.marks (Text.trim text))) →
        Reports session text script (Report.errorLine fault.headline ++ more) false

def ReportsOnce (session : Session) (text : String) (script : List Reading)
    (played : Played (Except Fault Bool)) : Prop :=
  ∃ retries report shown, played.result = .ok shown ∧
    played.written = List.replicate retries Report.retryLine ++ [report] ∧
      session.Reports text script report shown

/-- To ask for a line is not to write one. -/
theorem ReportsOnce.asked {played : Played (Except Fault Bool)}
    (h : session.ReportsOnce text script played) (prompt : Styled) :
    session.ReportsOnce text script (played.prepend [.prompted prompt]) := by
  obtain ⟨retries, report, shown, hresult, hwritten, hreports⟩ := h
  exact ⟨retries, report, shown, hresult, hwritten, hreports⟩

theorem written_round (session : Session) (text : String) (script : List Reading) :
    (session.round text script).written =
      (session.evaluate text script).written ++
        (report text (session.evaluate text script).result).1.filterMap Event.written? := by
  rw [round_eq, Played.written, Played.written, List.filterMap_append]

theorem singleRound_reportsOnce (session : Session) (text : String) (script : List Reading) :
    session.ReportsOnce text script (session.singleRound (some text) script) := by
  by_cases hblank : Text.trim text = ""
  · rw [singleRound_blank session hblank]
    exact ⟨0, _, false, rfl, rfl, .blank hblank (Report.render_errorLine _)⟩
  · rw [singleRound_text session hblank]
    obtain ⟨retries, hretries⟩ := session.exists_written_evaluate (Text.trim text) script
    have hwritten := session.written_round (Text.trim text) script
    rw [hretries] at hwritten
    cases hresult : (session.evaluate (Text.trim text) script).result with
    | ok x =>
        rw [hresult] at hwritten
        refine ⟨retries, Report.resultLine x, true, ?_, hwritten,
          .value hblank hresult (Report.render_resultLine x)⟩
        rw [round_eq, hresult]
        rfl
    | error fault =>
        rw [hresult] at hwritten
        obtain ⟨more, hreport, hlines⟩ := exists_fault_eq hresult
        refine ⟨retries, Report.errorLine fault.headline ++ more, false, ?_, ?_,
          .fault hblank hresult (Report.render_error fault.headline more) hlines⟩
        · rw [round_eq, hresult]
          rfl
        · rw [← hreport]
          exact hwritten

/-- A single round reports once on the text it takes, or fails to read one and writes nothing. -/
theorem reportsOnce_or_fails (session : Session) (expression : Option String)
    (script : List Reading) :
    (∃ text unread, Takes expression script text unread ∧
        session.ReportsOnce text unread (session.singleRound expression script)) ∨
      ∃ fault, (session.singleRound expression script).result = .error fault ∧
        (session.singleRound expression script).written = [] := by
  match expression, script with
  | some text, script =>
      left
      exact ⟨text, script, .given text script, session.singleRound_reportsOnce text script⟩
  | none, [] =>
      left
      rw [singleRound_none_nil]
      exact ⟨"", [], .nothing, 0, _, false, rfl, rfl,
        .blank (by decide) (Report.render_errorLine _)⟩
  | none, .line text :: script =>
      left
      rw [singleRound_none_line]
      exact ⟨text, script, .line text script, (session.singleRound_reportsOnce text script).asked _⟩
  | none, .failed message :: script =>
      right
      rw [singleRound_none_failed]
      exact ⟨_, rfl, rfl⟩

/-! ### Values shown -/

theorem Reports.eq_true_iff {report : Styled} {shown : Bool}
    (h : session.Reports text script report shown) :
    shown = true ↔ Report.ShowsValue report := by
  cases h with
  | @value x _ _ hwords => exact iff_of_true rfl ⟨x, hwords⟩
  | blank _ hwords =>
      exact iff_of_false Bool.false_ne_true (Report.not_showsValue_of_error hwords)
  | fault _ _ hwords =>
      exact iff_of_false Bool.false_ne_true (Report.not_showsValue_of_error hwords)

theorem exists_showsValue_mem_iff (session : Session) (expression : Option String)
    (script : List Reading) :
    (∃ line ∈ (session.singleRound expression script).written, Report.ShowsValue line) ↔
      (session.singleRound expression script).result = .ok true := by
  rcases session.reportsOnce_or_fails expression script with
    ⟨text, unread, -, retries, report, shown, hresult, hwritten, hreports⟩ |
      ⟨fault, hresult, hwritten⟩
  · rw [hresult, hwritten, Except.ok.injEq, hreports.eq_true_iff]
    constructor
    · -- What is said of the numbers shows no value, so it is the last line that does.
      rintro ⟨line, hmem, hshows⟩
      rcases List.mem_append.1 hmem with hretry | hlast
      · rw [List.eq_of_mem_replicate hretry] at hshows
        exact absurd hshows Report.not_showsValue_retryLine
      · rwa [List.mem_singleton.1 hlast] at hshows
    · exact fun hshows => ⟨report, by simp, hshows⟩
  · simp [hresult, hwritten]

end Session

namespace Program

theorem code_eq_zero_iff (result : Except Fault Bool) : code result = 0 ↔ result = .ok true := by
  unfold code
  split <;> simp_all

theorem code_eq_one_iff (result : Except Fault Bool) : code result = 1 ↔ result ≠ .ok true := by
  unfold code
  split <;> simp_all

theorem play_of_not_converse {options : Options} (h : options.converse = false)
    (script : List Reading) :
    play options script = (session options).singleRound options.expression script := by
  simp [play, h]

/-- A single round that comes to an answer writes one report behind what it says of the numbers it
was given: the value that the text has, and then the answer is true, or an error, and then it is
false. Without colours an error in one line of text takes one line itself, and there are two more
under it exactly if the text is no expression, with a caret at the place of the error. So a program
that plays a single round ends with code zero if a value is written and with code one if none is. -/
theorem report_and_code_agree :
    (∀ (session : Session) (expression : Option String) (script : List Reading) (shown : Bool),
      (session.singleRound expression script).result = .ok shown →
        ∃ text unread retries report, Session.Takes expression script text unread ∧
          (session.singleRound expression script).written =
            List.replicate retries Report.retryLine ++ [report] ∧
          session.Reports text unread report shown) ∧
      ∀ (arguments : List String) (options : Options) (color : Bool) (input : List UInt8),
        Options.ofArguments arguments = .ok options → options.converse = false →
          (run arguments color input).output =
              writtenLines (color && !options.noColor)
                (play options (Reading.script input)).written ∧
            ((run arguments color input).code = 0 ↔
              ∃ line ∈ (play options (Reading.script input)).written, Report.ShowsValue line) ∧
            ((run arguments color input).code = 1 ↔
              ¬∃ line ∈ (play options (Reading.script input)).written,
                Report.ShowsValue line) := by
  constructor
  · intro session expression script shown hshown
    rcases session.reportsOnce_or_fails expression script with
      ⟨text, unread, htakes, retries, report, answer, hresult, hwritten, hreports⟩ |
        ⟨fault, hresult, -⟩
    · cases hresult.symm.trans hshown
      exact ⟨text, unread, retries, report, htakes, hwritten, hreports⟩
    · cases hresult.symm.trans hshown
  · intro arguments options color input harguments hsingle
    have hvalue := (session options).exists_showsValue_mem_iff options.expression
      (Reading.script input)
    rw [← play_of_not_converse hsingle] at hvalue
    rw [run, harguments]
    exact ⟨rfl, (code_eq_zero_iff _).trans hvalue.symm, (code_eq_one_iff _).trans hvalue.symm.not⟩

def doubling : Session :=
  ⟨[("k", 2)], false⟩

def secondAttempt : List Reading :=
  [.line " k/x ", .line "two", .line "0"]

/-- The divisor is given at the second attempt, and is zero. The program is given its number as an
option. -/
theorem report_and_code_agree_quotient :
    (doubling.singleRound none secondAttempt).result = .ok false ∧
      (∃ text unread retries report, Session.Takes none secondAttempt text unread ∧
        (doubling.singleRound none secondAttempt).written =
          List.replicate retries Report.retryLine ++ [report] ∧
        doubling.Reports text unread report false) ∧
      ∃ options, Options.ofArguments ["-D", "x=2,5", "x*2"] = .ok options ∧
        options.converse = false ∧ (run ["-D", "x=2,5", "x*2"] true []).code = 0 ∧
          ∃ line ∈ (play options (Reading.script [])).written, Report.ShowsValue line := by
  have hshown : (doubling.singleRound none secondAttempt).result = .ok false := by
    have hanswer : (doubling.singleRound none secondAttempt).result.toOption = some false := by
      decide +kernel
    cases hresult : (doubling.singleRound none secondAttempt).result with
    | error fault =>
        rw [hresult] at hanswer
        cases hanswer
    | ok shown =>
        rw [hresult] at hanswer
        exact congrArg Except.ok (Option.some.inj hanswer)
  refine ⟨hshown, report_and_code_agree.1 _ none _ false hshown, ?_⟩
  have hconverse : (Options.ofArguments ["-D", "x=2,5", "x*2"]).toOption.map Options.converse =
      some false := by
    decide +kernel
  cases harguments : Options.ofArguments ["-D", "x=2,5", "x*2"] with
  | error refusal =>
      rw [harguments] at hconverse
      cases hconverse
  | ok options =>
      rw [harguments] at hconverse
      have hsingle : options.converse = false := Option.some.inj hconverse
      obtain ⟨-, hcode, -⟩ := report_and_code_agree.2 _ options true [] harguments hsingle
      have hzero : (run ["-D", "x=2,5", "x*2"] true []).code = 0 := by decide +kernel
      exact ⟨options, rfl, hsingle, hzero, hcode.1 hzero⟩

end Program

end Secant
