import Secant.Conversation
import Secant.Options

/-!
The program as a whole: from its arguments and its input to what it writes and the code it ends
with. The code is zero if every value asked for was shown, one if not, and two if the arguments are
refused.
-/

namespace Secant

open Text (Styled)

namespace Reading

/-- A line of input with its end, which only the last line may lack. -/
def ofBytes (bytes : List UInt8) : Reading :=
  match String.fromUTF8? ⟨bytes.toArray⟩ with
  | none => .failed "Error reading input: stream did not contain valid UTF-8"
  | some text =>
      match text.toList.reverse with
      | '\n' :: '\r' :: cs => .line (String.ofList cs.reverse)
      | '\n' :: cs => .line (String.ofList cs.reverse)
      | _ => .line text

/-- Lines of input with their ends. `line` is what has been seen of the first one, in reverse. -/
def splitLines (line : List UInt8) : List UInt8 → List (List UInt8)
  | [] => if line.isEmpty then [] else [line.reverse]
  | byte :: bytes =>
      if byte = 10 then (byte :: line).reverse :: splitLines [] bytes
      else splitLines (byte :: line) bytes

def script (input : List UInt8) : List Reading :=
  (splitLines [] input).map ofBytes

end Reading

namespace Program

def helpLine (letter : Option Char) (word value meaning : String) : Styled :=
  let letters : Styled :=
    match letter with
    | some letter => Styled.bold (String.ofList ['-', letter]) ++ Styled.plain ", "
    | none => Styled.plain "    "
  let gap := Text.padRight (21 - (word.length + value.length)) ""
  Styled.plain "  " ++ letters ++ Styled.bold s!"--{word}" ++
    Styled.plain s!"{value}{gap}{meaning}\n"

def helpText : Styled :=
  Styled.plain "Calculator for arithmetic expressions with numerical differentiation\n\n" ++
  Styled.heading "Usage:" ++ Styled.plain " " ++ Styled.bold "diffcalc" ++
  Styled.plain " [OPTIONS] [EXPRESSION]\n\n" ++
  Styled.heading "Arguments:" ++
  Styled.plain "\n  [EXPRESSION]  Expression to evaluate. Prompted for when omitted\n\n" ++
  Styled.heading "Options:" ++ Styled.plain "\n" ++
  helpLine (some 'D') "define" " <NAME=VALUE>"
    "Bind a variable up front instead of being prompted, e.g. `-D x=2,5`" ++
  helpLine (some 'r') "repl" ""
    "Keep reading expressions until `quit`. Cannot be combined with EXPRESSION" ++
  helpLine (some 'v') "verbose" "" "Print the parsed tree and its free variables to stderr" ++
  helpLine none "no-color" "" "Disable colored output" ++
  helpLine (some 'h') "help" "" "Print help" ++
  helpLine (some 'V') "version" "" "Print version"

def versionText : String :=
  "diffcalc 0.1.0\n"

/-- What a finished program has written, and the code it ends with. -/
structure Outcome where
  code : Nat
  output : String
  errors : String
deriving DecidableEq, Repr

/-- Ends the program without a dialogue. -/
def refuse (color : Bool) : Refusal → Outcome
  | .helpAsked => ⟨0, helpText.render color, ""⟩
  | .versionAsked => ⟨0, versionText, ""⟩
  | .unknownArgument => ⟨2, "", "error: unexpected argument\n"⟩
  | .missingValue => ⟨2, "", "error: a definition is missing\n"⟩
  | .badDefinition error => ⟨2, "", s!"error: {error.message}\n"⟩
  | .conflict => ⟨2, "", "error: two arguments cannot be used together\n"⟩
  | .unneededValue => ⟨2, "", "error: an option takes no value\n"⟩

def session (options : Options) : Session :=
  ⟨options.defines, options.verbose⟩

def conversation (options : Options) : Conversation :=
  .ofSession (session options)

/-- Holds the dialogue that the options ask for. A conversation that comes to its end has shown what
there was to show. -/
def play (options : Options) (script : List Reading) : Played (Except Fault Bool) :=
  if options.converse then
    let played := (conversation options).run script
    ⟨played.events, played.result.map fun _ => true, played.rest⟩
  else (session options).singleRound options.expression script

def code : Except Fault Bool → Nat
  | .ok true => 0
  | _ => 1

def lastNote : Except Fault Bool → List Styled
  | .ok _ => []
  | .error fault => [Report.errorMark ++ .plain s!" {fault.chain}"]

/-- Runs the program. Colours are shown if they are wanted and not switched off. -/
def run (arguments : List String) (color : Bool) (input : List UInt8) : Outcome :=
  match Options.ofArguments arguments with
  | .error refusal => refuse color refusal
  | .ok options =>
      let shown := color && !options.noColor
      let played := play options (Reading.script input)
      ⟨code played.result, played.output shown,
        played.notes shown ++ writtenLines shown (lastNote played.result)⟩

end Program

end Secant
