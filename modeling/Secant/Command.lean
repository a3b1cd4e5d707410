import Secant.Definition
import Secant.Text.Styled

/-!
Commands by their names. A line runs the command whose name it is, or, for a command that takes
arguments, with which it begins before a blank. Of several that match, the one with the longest name
is run, and of those the one registered first; so the registry keeps its commands in that order.
-/

namespace Secant

open Text (Styled)

inductive CommandAnswer
  | say (text : Styled)
  | refuse (message : String)
  | leave
  /-- Leaves the line to be read as an expression. -/
  | decline
deriving DecidableEq, Repr

/-- What a command may look at and change. -/
structure CommandContext where
  defines : List Definition

structure Command where
  name : String
  takesArguments : Bool
  run : String → CommandContext → CommandAnswer × CommandContext

namespace Command

def matchesLine (command : Command) (line : String) : Bool :=
  line == command.name ||
    (command.takesArguments && (command.name.toList ++ [' ']).isPrefixOf line.toList)

def arguments (command : Command) (line : String) : String :=
  Text.trim (String.ofList (line.toList.drop command.name.length))

end Command

namespace Registry

/-- Puts a command behind all whose names take as many bytes or more. -/
def insert (command : Command) : List Command → List Command
  | [] => [command]
  | first :: rest =>
      if first.name.utf8ByteSize < command.name.utf8ByteSize then command :: first :: rest
      else first :: insert command rest

theorem mem_insert_iff {command other : Command} {commands : List Command} :
    other ∈ insert command commands ↔ other = command ∨ other ∈ commands := by
  induction commands with
  | nil => simp [insert]
  | cons first rest ih =>
      unfold insert
      split
      · simp
      · simp only [List.mem_cons, ih]
        grind

theorem descending_insert {command : Command} {commands : List Command}
    (h : commands.Pairwise fun a b => b.name.utf8ByteSize ≤ a.name.utf8ByteSize) :
    (insert command commands).Pairwise fun a b => b.name.utf8ByteSize ≤ a.name.utf8ByteSize := by
  induction commands with
  | nil => simp [insert]
  | cons first rest ih =>
      obtain ⟨hfirst, hrest⟩ := List.pairwise_cons.1 h
      unfold insert
      split
      · rename_i hlt
        refine List.pairwise_cons.2 ⟨?_, h⟩
        intro other hmem
        rcases List.mem_cons.1 hmem with rfl | hmem
        · omega
        · have := hfirst other hmem
          omega
      · rename_i hle
        refine List.pairwise_cons.2 ⟨?_, ih hrest⟩
        intro other hmem
        rcases mem_insert_iff.1 hmem with rfl | hmem
        · omega
        · exact hfirst other hmem

end Registry

/-- Commands in the order in which a line is held against them. -/
structure Registry where
  commands : List Command
  descending : commands.Pairwise fun a b => b.name.utf8ByteSize ≤ a.name.utf8ByteSize

namespace Registry

def empty : Registry :=
  ⟨[], .nil⟩

def register (registry : Registry) (command : Command) : Registry :=
  ⟨insert command registry.commands, descending_insert registry.descending⟩

def names (registry : Registry) : List String :=
  registry.commands.map (·.name)

def execute (registry : Registry) (line : String) (context : CommandContext) :
    CommandAnswer × CommandContext :=
  match registry.commands.find? fun command => command.matchesLine line with
  | some command => command.run (command.arguments line) context
  | none => (.decline, context)

end Registry

end Secant
