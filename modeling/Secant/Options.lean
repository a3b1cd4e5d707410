import Secant.Definition

/-!
What is asked for on the command line. Arguments are taken from left to right, and the first that
cannot be taken decides. A definition in an argument of its own is read when the next argument is
taken up, so an argument that is not known at all is refused before a bad definition in front of it.
-/

namespace Secant

structure Options where
  expression : Option String
  /-- Definitions in the order in which they were given. -/
  defines : List Definition
  converse : Bool
  verbose : Bool
  noColor : Bool

/-- Why a command line is not carried out as options. -/
inductive Refusal
  | unknownArgument
  | missingValue
  | badDefinition (error : DefinitionError)
  /-- A flag is given twice, or a conversation is asked for together with an expression. -/
  | conflict
  | unneededValue
  | helpAsked
  | versionAsked
deriving DecidableEq, Repr

namespace Options

def none : Options :=
  ⟨.none, [], false, false, false⟩

inductive Flag
  | converse
  | verbose
  | noColor
  | help
  | version
deriving DecidableEq, Repr

def Flag.ofLetter? : Char → Option Flag
  | 'r' => some .converse
  | 'v' => some .verbose
  | 'h' => some .help
  | 'V' => some .version
  | _ => .none

def Flag.ofWord? : String → Option Flag
  | "repl" => some .converse
  | "verbose" => some .verbose
  | "no-color" => some .noColor
  | "help" => some .help
  | "version" => some .version
  | _ => .none

inductive Announced
  | nothing
  | toCome
  | unread (text : String)
deriving DecidableEq, Repr

structure Progress where
  options : Options
  announced : Announced
  /-- All further arguments are expressions, whatever they look like. -/
  escaped : Bool

def define (options : Options) (text : String) : Except Refusal Options :=
  match Definition.ofText text with
  | .ok definition => .ok { options with defines := options.defines ++ [definition] }
  | .error error => .error (.badDefinition error)

namespace Progress

def start : Progress :=
  ⟨.none, .nothing, false⟩

/-- Reads the definition that was announced, if one was. -/
def settle (progress : Progress) : Except Refusal Progress :=
  match progress.announced with
  | .nothing => .ok progress
  | .toCome => .error .missingValue
  | .unread text => do
      let options ← progress.options.define text
      return { progress with options := options, announced := .nothing }

def once (given : Bool) (options : Options) : Except Refusal Options :=
  if given then .error .conflict else .ok options

def raise (options : Options) : Flag → Except Refusal Options
  | .converse => once options.converse { options with converse := true }
  | .verbose => once options.verbose { options with verbose := true }
  | .noColor => once options.noColor { options with noColor := true }
  | .help => .error .helpAsked
  | .version => .error .versionAsked

def takeFlag (progress : Progress) (flag : Flag) : Except Refusal Progress := do
  let progress ← progress.settle
  let options ← raise progress.options flag
  return { progress with options := options }

def takeDefinition (progress : Progress) (text : String) : Except Refusal Progress := do
  let progress ← progress.settle
  let options ← progress.options.define text
  return { progress with options := options }

def announce (progress : Progress) : Except Refusal Progress := do
  let progress ← progress.settle
  return { progress with announced := .toCome }

def takeExpression (progress : Progress) (text : String) : Except Refusal Progress :=
  match progress.options.expression with
  | some _ => .error .unknownArgument
  | .none => do
      let progress ← progress.settle
      return { progress with options := { progress.options with expression := some text } }

/-- Letters behind one dash. A definition takes all letters that are left. -/
def takeLetters (progress : Progress) : List Char → Except Refusal Progress
  | [] => .ok progress
  | 'D' :: [] => progress.announce
  | 'D' :: '=' :: value => progress.takeDefinition (String.ofList value)
  | 'D' :: value => progress.takeDefinition (String.ofList value)
  | letter :: letters =>
      match Flag.ofLetter? letter with
      | some flag => do (← progress.takeFlag flag).takeLetters letters
      | .none => .error .unknownArgument

def takeWord (progress : Progress) (word : String) (value : Option String) :
    Except Refusal Progress :=
  if word = "define" then
    match value with
    | some value => progress.takeDefinition value
    | .none => progress.announce
  else
    match Flag.ofWord? word, value with
    | some flag, .none => progress.takeFlag flag
    | some _, some _ => .error .unneededValue
    | .none, _ => .error .unknownArgument

/-- An argument that is no flag: the definition announced before it, or the expression. -/
def takePlain (progress : Progress) (text : String) : Except Refusal Progress :=
  match progress.announced with
  | .toCome => .ok { progress with announced := .unread text }
  | _ => progress.takeExpression text

def take (progress : Progress) (argument : String) : Except Refusal Progress :=
  if progress.escaped then progress.takeExpression argument
  else
    match argument.toList with
    | ['-', '-'] => .ok { progress with escaped := true }
    | '-' :: '-' :: word =>
        let name := String.ofList (word.takeWhile (· ≠ '='))
        match word.dropWhile (· ≠ '=') with
        | [] => progress.takeWord name .none
        | _ :: value => progress.takeWord name (some (String.ofList value))
    | '-' :: letter :: letters => progress.takeLetters (letter :: letters)
    | _ => progress.takePlain argument

end Progress

def ofArguments (arguments : List String) : Except Refusal Options := do
  let progress ← arguments.foldlM Progress.take .start
  let options := (← progress.settle).options
  if options.converse ∧ options.expression.isSome then .error .conflict else return options

end Options

end Secant
