import Secant.Program

/-!
The command line. The dialogues decide everything; here lines are read for them and written.
-/

namespace Secant

def isOn (setting : Option String) : Option Bool :=
  setting.map (· ≠ "0")

/-- Colours are shown on a terminal, unless settings force them, forbid them or switch them off. -/
def wantsColor (force forbid allow : Option String) (terminal : Bool) : Bool :=
  if isOn force = some true then true
  else if forbid.isSome then false
  else (isOn allow).getD true && terminal

/-- The bytes of the next line up to and with its end, behind those already read. -/
partial def readLine (stream : IO.FS.Stream) (line : ByteArray) : IO ByteArray := do
  let bytes ← stream.read 1
  if bytes.isEmpty then return line
  else if bytes[0]? = some 10 then return line ++ bytes
  else readLine stream (line ++ bytes)

def perform (color typed : Bool) : Event → IO Unit
  | .prompted prompt =>
      if typed then do
        IO.print (prompt.render color)
        (← IO.getStdout).flush
      else return ()
  | .wrote text => IO.println (text.render color)
  | .noted text => IO.eprintln (text.render color)
  | .remembered _ => return ()

partial def converse {σ α : Type} (color typed : Bool) (dialogue : Dialogue σ α) :
    Turn σ α → IO α
  | ⟨events, .done result⟩ => do
      events.forM (perform color typed)
      return result
  | ⟨events, .wait state⟩ => do
      events.forM (perform color typed)
      perform color typed (.prompted (dialogue.prompt state))
      let bytes ← readLine (← IO.getStdin) .empty
      if bytes.isEmpty then
        let (last, result) := dialogue.close state
        last.forM (perform color typed)
        return result
      else converse color typed dialogue (dialogue.reply state (.ofBytes bytes.toList))

def runDialogue (options : Options) (wanted : Bool) : IO UInt32 := do
  let color := wanted && !options.noColor
  let typed ← (← IO.getStdin).isTty
  let result ←
    if options.converse then do
      let conversation := Program.conversation options
      let ended ← converse color typed conversation.dialogue conversation.begin
      pure (ended.map fun _ => true)
    else
      let session := Program.session options
      converse color typed session.singleDialogue (session.singleTurn options.expression)
  (Program.lastNote result).forM fun text => IO.eprintln (text.render color)
  return (Program.code result).toUInt32

end Secant

def main (arguments : List String) : IO UInt32 := do
  let wanted := Secant.wantsColor (← IO.getEnv "CLICOLOR_FORCE") (← IO.getEnv "NO_COLOR")
    (← IO.getEnv "CLICOLOR") (← (← IO.getStdout).isTty)
  match Secant.Options.ofArguments arguments with
  | .ok options => Secant.runDialogue options wanted
  | .error refusal => do
      let outcome := Secant.Program.refuse wanted refusal
      IO.print outcome.output
      IO.eprint outcome.errors
      return outcome.code.toUInt32
