import Secant.Decimal.Layout
import Secant.EvalError
import Secant.Expr
import Secant.Text.Styled

/-!
What is shown of results and errors. An error in the text of an expression is followed by that text
with a caret under the place.
-/

namespace Secant

open Text

/-- Results always show a point or an exponent. The exponent is written for numbers below one ten
thousandth and from ten to the sixteenth on. -/
def resultNumber : Decimal.Layout where
  positional leading := -4 ≤ leading && leading < 16
  wholeTail := ['.', '0']

inductive Cause
  | expression (error : CalcError)
  | other (message : String)

/-- A cause and what was being done when it struck, outermost first. -/
structure Fault where
  contexts : List String
  cause : Cause

def Cause.message : Cause → String
  | expression error => error.message
  | other message => message

namespace Fault

def ofCalc (error : CalcError) : Fault :=
  ⟨[], .expression error⟩

def ofMessage (message : String) : Fault :=
  ⟨[], .other message⟩

/-- What is told of a fault: its outermost context, or else its cause. -/
def headline (fault : Fault) : String :=
  fault.contexts.head?.getD fault.cause.message

/-- All contexts and the cause, outermost first. -/
def chain (fault : Fault) : String :=
  ": ".intercalate (fault.contexts ++ [fault.cause.message])

/-- The error in the text of the expression, through any context. -/
def parseError? (fault : Fault) : Option ParseError :=
  match fault.cause with
  | .expression (.parse error) => some error
  | _ => none

end Fault

namespace Report

def value (x : Float) : String :=
  resultNumber.text x

def resultLine (x : Float) : Styled :=
  .hue .brightGreen s!"Result: {value x}"

theorem render_resultLine (x : Float) :
    (resultLine x).render false = "Result: " ++ value x := by
  have hwords : s!"Result: {value x}" = "Result: " ++ value x := rfl
  rw [← String.toList_inj, resultLine, hwords]
  simp [Styled.render, Styled.hue]

def errorMark : Styled :=
  .boldHue .brightRed "Error:"

def errorLine (message : String) : Styled :=
  errorMark ++ .plain " " ++ .hue .red message

theorem render_errorLine (message : String) :
    (errorLine message).render false = "Error: " ++ message := by
  rw [← String.toList_inj]
  simp [errorLine, errorMark, Styled.render, Styled.boldHue, Styled.plain, Styled.hue]

theorem render_error (message : String) (more : Styled) :
    (errorLine message ++ more).render false = "Error: " ++ (message ++ more.render false) := by
  rw [Styled.render_append, render_errorLine, String.append_assoc]

/-- The expression, and under it a caret at `position`, or behind its end if it is shorter. -/
def caretLines (expression : String) (position : Nat) : Styled :=
  let column := min position expression.length
  .plain ("  " ++ expression ++ "\n  " ++ String.ofList (List.replicate column ' ')) ++
    .boldHue .brightRed "^"

theorem render_caretLines {text : String} {position : Nat} (h : position ≤ text.length) :
    (caretLines text position).render false =
      "\n".intercalate
        ["  " ++ text, String.ofList (List.replicate (2 + position) ' ') ++ "^"] := by
  rw [← String.toList_inj, ← List.replicate_append_replicate]
  simp [caretLines, Styled.render, Styled.boldHue, Styled.plain, h]

def fault (fault : Fault) (expression : Option String) : Styled :=
  match fault.parseError?, expression with
  | some error, some expression =>
      errorLine fault.headline ++ .plain "\n" ++ caretLines expression error.position
  | _, _ => errorLine fault.headline

/-- A tree and its free variables, for those who want to see how a text was read. -/
def diagnostics (e : Expr) : Styled :=
  let names := if e.free.isEmpty then "(none)" else ", ".intercalate e.free
  .dimmed s!"tree: {e.text}\nfree variables: {names}"

end Report

end Secant
