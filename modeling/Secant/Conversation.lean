import Secant.Command.Standard
import Secant.Session

/-!
A conversation: lines are commands or expressions, one after the other, until a command or the end
of the input ends it. Lines that are not blank are remembered; numbers given for variables are not.
-/

namespace Secant

open Text (Styled)

structure Conversation where
  session : Session
  registry : Registry
  context : CommandContext

namespace Conversation

def ofSession (session : Session) : Conversation :=
  ⟨session, .standard, ⟨session.defines⟩⟩

/-- What a conversation waits for: its next line, or a number in the expression it is at. -/
inductive Waiting
  | line (context : CommandContext)
  | number (context : CommandContext) (text : String) (question : Question)

def linePrompt : Styled :=
  .boldHue .brightMagenta "diffcalc>" ++ .plain " "

def farewell : Event :=
  .wrote (.hue .brightCyan "Goodbye!")

def banner : List Event :=
  [.wrote (.boldHue .brightCyan "diffcalc"),
    .wrote (.plain "Type expressions like: " ++ .hue .cyan "2 + 3 * 4" ++ .plain ", " ++
      .hue .cyan "sin(x) / x" ++ .plain ", " ++ .hue .cyan "diff(x^2, x, 3)"),
    .wrote (.plain "Type '" ++ .hue .brightGreen "help" ++ .plain "' for more information, '" ++
      .hue .brightRed "quit" ++ .plain "' or " ++ .hue .brightRed "Ctrl+D" ++ .plain " to exit."),
    .wrote []]

/-- The turn that ends a round. The conversation goes on. -/
def proceed (context : CommandContext) (text : String) (result : Except Fault Float) :
    Turn Waiting (Except Fault Unit) :=
  ⟨(Session.report text result).1, .wait (.line context)⟩

/-- Answers a line without blanks at its ends. -/
def react (conversation : Conversation) (context : CommandContext) (text : String) :
    Turn Waiting (Except Fault Unit) :=
  match conversation.registry.execute text context with
  | (.say message, context) => ⟨[.wrote message], .wait (.line context)⟩
  | (.refuse message, context) => ⟨[.wrote (Report.errorLine message)], .wait (.line context)⟩
  | (.leave, _) => ⟨[farewell], .done (.ok ())⟩
  | (.decline, context) =>
      (conversation.session.start text).embed (.number context text) (proceed context text)

def reply (conversation : Conversation) : Waiting → Reading → Turn Waiting (Except Fault Unit)
  | .line context, .line line =>
      let text := Text.trim line
      if text = "" then ⟨[], .wait (.line context)⟩
      else
        let turn := conversation.react context text
        ⟨.remembered text :: turn.events, turn.next⟩
  | .line _, .failed message => ⟨[], .done (.error (.ofMessage message))⟩
  | .number context text question, reading =>
      (Question.dialogue.reply question reading).embed (.number context text)
        (proceed context text)

def dialogue (conversation : Conversation) : Dialogue Waiting (Except Fault Unit) where
  prompt
    | .line _ => linePrompt
    | .number _ _ question => question.prompt
  reply := conversation.reply
  close
    | .line _ => ([farewell], .ok ())
    | .number _ text question =>
        let (events, result) := Question.dialogue.close question
        (events ++ (Session.report text result).1 ++ [.prompted linePrompt, farewell], .ok ())

def begin (conversation : Conversation) : Turn Waiting (Except Fault Unit) :=
  ⟨banner, .wait (.line conversation.context)⟩

def run (conversation : Conversation) (script : List Reading) : Played (Except Fault Unit) :=
  conversation.dialogue.play conversation.begin script

end Conversation

end Secant
