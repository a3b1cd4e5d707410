import Secant.Definition
import Secant.Dialogue
import Secant.Expr.Eval
import Secant.Report

/-!
One round of a session: an expression is read, a number is asked for every free variable that has
none yet, in the order of their names, and the value is shown. Every round starts from the
definitions of the session alone.
-/

namespace Secant

open Text (Styled)

structure Session where
  defines : List Definition
  verbose : Bool

/-- A variable that waits for its number. -/
structure Question where
  tree : Expr
  env : Environment
  name : String
  later : List String

namespace Question

def prompt (question : Question) : Styled :=
  .hue .cyan s!"Enter a value for {question.name}: "

/-- The value of a tree once its variables are bound, or the first of them that is not. -/
def ask (tree : Expr) (env : Environment) : List String → Next Question (Except Fault Float)
  | [] =>
      match tree.eval .default env with
      | .ok value _ => .done (.ok value)
      | .error error _ => .done (.error (.ofCalc (.eval error)))
  | name :: later =>
      if env.isDefined name then ask tree env later else .wait ⟨tree, env, name, later⟩

/-- A blank line is passed over; a line that is no number is pointed out; a number is taken. -/
def answer (question : Question) (text : String) : Turn Question (Except Fault Float) :=
  match NumberInput.ofText text with
  | .blank => ⟨[], .wait question⟩
  | .invalid => ⟨[.wrote (.hue .yellow "Expected a number. Try again.")], .wait question⟩
  | .number value =>
      ⟨[], ask question.tree (question.env.define question.name value) question.later⟩

def unread (question : Question) (message : String) : Fault :=
  ⟨[s!"failed to read a value for '{question.name}'"], .other message⟩

def unanswered (question : Question) : Fault :=
  .ofMessage s!"input ended before a value for '{question.name}' was entered"

/-- Asking for numbers until the value of the tree is known. -/
def dialogue : Dialogue Question (Except Fault Float) where
  prompt := prompt
  reply question
    | .line text => question.answer text
    | .failed message => ⟨[], .done (.error (question.unread message))⟩
  close question := ([], .error question.unanswered)

end Question

namespace Session

def start (session : Session) (text : String) : Turn Question (Except Fault Float) :=
  match Expr.ofText text with
  | .error error => ⟨[], .done (.error (.ofCalc (.parse error)))⟩
  | .ok tree =>
      ⟨if session.verbose then [.noted (Report.diagnostics tree)] else [],
        Question.ask tree (.ofList session.defines) tree.free⟩

def evaluate (session : Session) (text : String) (script : List Reading) :
    Played (Except Fault Float) :=
  Question.dialogue.play (session.start text) script

/-- Shows the value or the fault. The answer is whether there was a value. -/
def report (text : String) : Except Fault Float → List Event × Bool
  | .ok value => ([.wrote (Report.resultLine value)], true)
  | .error fault => ([.wrote (Report.fault fault (some text))], false)

/-- A round over a text: its value or what is wrong with it is shown. -/
def round (session : Session) (text : String) (script : List Reading) : Played Bool :=
  let played := session.evaluate text script
  let (events, shown) := report text played.result
  ⟨played.events ++ events, shown, played.rest⟩

/-- A single round waits for its expression, or for a number in the expression given. -/
inductive Waiting
  | expression
  | number (text : String) (question : Question)

def expressionPrompt : Styled :=
  .hue .cyan "Enter an expression: "

def emptyInput : Event :=
  .wrote (Report.errorLine "empty input.")

def conclude (text : String) (result : Except Fault Float) : Turn Waiting (Except Fault Bool) :=
  let (events, shown) := report text result
  ⟨events, .done (.ok shown)⟩

def startSingle (session : Session) (text : String) : Turn Waiting (Except Fault Bool) :=
  let text := Text.trim text
  if text = "" then ⟨[emptyInput], .done (.ok false)⟩
  else (session.start text).embed (.number text) (conclude text)

def singleDialogue (session : Session) : Dialogue Waiting (Except Fault Bool) where
  prompt
    | .expression => expressionPrompt
    | .number _ question => question.prompt
  reply
    | .expression, .line text => session.startSingle text
    | .expression, .failed message => ⟨[], .done (.error (.ofMessage message))⟩
    | .number text question, reading =>
        (Question.dialogue.reply question reading).embed (.number text) (conclude text)
  close
    | .expression => ([emptyInput], .ok false)
    | .number text question =>
        let (events, result) := Question.dialogue.close question
        (events ++ (report text result).1, .ok (report text result).2)

def singleTurn (session : Session) : Option String → Turn Waiting (Except Fault Bool)
  | some text => session.startSingle text
  | none => ⟨[], .wait .expression⟩

/-- One round over a given expression or, without one, over the next line. -/
def singleRound (session : Session) (expression : Option String) (script : List Reading) :
    Played (Except Fault Bool) :=
  session.singleDialogue.play (session.singleTurn expression) script

end Session

end Secant
