import Secant.Text.Styled

/-!
Conversations line by line. A dialogue is in some state, in which it asks for a line under a prompt
and answers what it gets by a turn: things that happen, and either a state to wait in or a result.
Played against a script of lines it uses them in order and leaves those it did not ask for.
-/

namespace Secant

open Text (Styled)

/-- What comes when a line is asked for. -/
inductive Reading
  | line (text : String)
  | failed (message : String)
deriving DecidableEq, Repr

inductive Event
  | prompted (prompt : Styled)
  | wrote (text : Styled)
  /-- A line was written beside the output, for diagnosis. -/
  | noted (text : Styled)
  | remembered (line : String)
deriving DecidableEq, Repr

inductive Next (σ α : Type)
  | wait (state : σ)
  | done (result : α)

structure Turn (σ α : Type) where
  events : List Event
  next : Next σ α

structure Dialogue (σ α : Type) where
  prompt : σ → Styled
  reply : σ → Reading → Turn σ α
  /-- What happens if the input is at its end. -/
  close : σ → List Event × α

/-- A dialogue played to its end. -/
structure Played (α : Type) where
  events : List Event
  result : α
  rest : List Reading

variable {σ τ α β : Type}

def Dialogue.play (dialogue : Dialogue σ α) : Turn σ α → List Reading → Played α
  | ⟨events, .done result⟩, script => ⟨events, result, script⟩
  | ⟨events, .wait state⟩, [] =>
      let (last, result) := dialogue.close state
      ⟨events ++ .prompted (dialogue.prompt state) :: last, result, []⟩
  | ⟨events, .wait state⟩, reading :: script =>
      let later := dialogue.play (dialogue.reply state reading) script
      ⟨events ++ .prompted (dialogue.prompt state) :: later.events, later.result, later.rest⟩

/-- A turn of one dialogue as a turn of another, in which its result has a sequel. -/
def Turn.embed (turn : Turn σ α) (wait : σ → τ) (sequel : α → Turn τ β) : Turn τ β :=
  match turn.next with
  | .wait state => ⟨turn.events, .wait (wait state)⟩
  | .done result => ⟨turn.events ++ (sequel result).events, (sequel result).next⟩

namespace Event

def prompt? : Event → Option Styled
  | prompted prompt => some prompt
  | _ => none

def written? : Event → Option Styled
  | wrote text => some text
  | _ => none

def noted? : Event → Option Styled
  | noted text => some text
  | _ => none

def remembered? : Event → Option String
  | remembered line => some line
  | _ => none

end Event

def writtenLines (color : Bool) (texts : List Styled) : String :=
  String.join (texts.map fun text => text.render color ++ "\n")

namespace Played

def prompts (played : Played α) (color : Bool) : List String :=
  (played.events.filterMap Event.prompt?).map (·.render color)

def output (played : Played α) (color : Bool) : String :=
  writtenLines color (played.events.filterMap Event.written?)

def notes (played : Played α) (color : Bool) : String :=
  writtenLines color (played.events.filterMap Event.noted?)

def history (played : Played α) : List String :=
  played.events.filterMap Event.remembered?

end Played

end Secant
