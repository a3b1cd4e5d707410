import Secant.Builtin
import Secant.Command
import Secant.Report
import Secant.Token.Lexer

/-!
The commands of every conversation.
-/

namespace Secant.Command

open Text (Styled padRight)

def helpText : Styled :=
  Styled.lines
    [.bold "diffcalc Help",
      .bold "=============",
      [],
      .hue .green "Expressions:",
      sample "2 + 3 * 4" "        - Arithmetic with + - * / ^ and parentheses",
      sample "2^3^2" "          - Right-associative power (512)",
      sample "sin(pi / 2)" "   - Function calls; names are case-insensitive",
      sample "a * x + b" "        - Variables are prompted for, in name order",
      [],
      .hue .green "Differentiation:",
      sample "diff(x^2, x, 3)" "     - d/dx of x^2 at x = 3",
      sample "diff(x^2, x, 3, 0.01)" " - Same, with an explicit step",
      [],
      .hue .green "Commands:",
      sample "functions [name]" "   - List functions, or describe one",
      sample "constants" "          - List constants",
      sample "vars" "               - Show variables bound with -D",
      sample "quit, exit" "          - Leave the REPL",
      [],
      .plain "A line that is exactly a command name runs the command; otherwise it is",
      .plain "evaluated, so `vars + 1` uses a variable named vars."]
where
  sample (text meaning : String) : Styled :=
    .plain "  " ++ .hue .cyan text ++ .plain meaning

def describe (function : Builtin) : Styled :=
  .hue .cyan function.signature ++ .plain "  " ++ .dimmed s!"[{function.category}]" ++
    .plain s!"\n  {function.description}"

/-- Functions line by line, with a heading wherever the category changes from `category`. -/
def functionLines (category : String) : List Builtin → List Styled
  | [] => []
  | function :: rest =>
      let line := .plain "  " ++ .hue .cyan (padRight 24 function.signature) ++
        .plain s!" {function.description}"
      if function.category = category then line :: functionLines category rest
      else .hue .green s!"{function.category}:" :: line :: functionLines function.category rest

/-- Lists the functions, or describes the one named. Anything but a single name is left to be read
as an expression. -/
def functions (argument : String) : CommandAnswer :=
  if argument = "" then .say (Styled.lines (functionLines "" Builtin.all))
  else if argument.toList.all continuesName then
    match Builtin.find? (Text.lower argument) with
    | some function => .say (describe function)
    | none => .refuse s!"Unknown function '{argument}'"
  else .decline

def constants : Styled :=
  Styled.lines (Constant.all.map fun constant =>
    .plain "  " ++ .hue .cyan (padRight 4 constant.name) ++
      .plain s!" = {padRight 20 (Report.value constant.value)} {constant.description}")

/-- Definitions in order of their names; those of one name stay in their order. -/
def inNameOrder (defines : List Definition) : List Definition :=
  defines.mergeSort fun a b => decide (a.1 ≤ b.1)

theorem name_le_trans (a b c : Definition) (hab : decide (a.1 ≤ b.1) = true)
    (hbc : decide (b.1 ≤ c.1) = true) : decide (a.1 ≤ c.1) = true := by
  rw [decide_eq_true_eq] at hab hbc ⊢
  exact String.le_trans hab hbc

theorem name_le_total (a b : Definition) : (decide (a.1 ≤ b.1) || decide (b.1 ≤ a.1)) = true := by
  simpa only [Bool.or_eq_true, decide_eq_true_eq] using String.le_total a.1 b.1

theorem perm_inNameOrder (defines : List Definition) : (inNameOrder defines).Perm defines :=
  List.mergeSort_perm defines _

theorem pairwise_inNameOrder (defines : List Definition) :
    (inNameOrder defines).Pairwise fun a b => a.1 ≤ b.1 :=
  (List.pairwise_mergeSort name_le_trans name_le_total defines).imp of_decide_eq_true

def definitions (defines : List Definition) : Styled :=
  if defines.isEmpty then .plain "No variables defined with -D"
  else
    Styled.lines ((inNameOrder defines).map fun define =>
      .plain "  " ++ .hue .cyan define.1 ++ .plain s!" = {Report.value define.2}")

def answering (name : String) (answer : CommandContext → CommandAnswer) : Command where
  name := name
  takesArguments := false
  run _ context := (answer context, context)

end Secant.Command

namespace Secant.Registry

open Command in
def standard : Registry :=
  [⟨"functions", true, fun argument context => (functions argument, context)⟩,
    answering "help" fun _ => .say helpText,
    answering "constants" fun _ => .say constants,
    answering "vars" fun context => .say (definitions context.defines),
    answering "quit" fun _ => .leave,
    answering "exit" fun _ => .leave].foldl register empty

end Secant.Registry

