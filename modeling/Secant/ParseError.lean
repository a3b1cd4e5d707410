/-!
What can be wrong with the text of an expression, and where.
-/

namespace Secant

inductive ParseError
  | unexpectedCharacter (ch : Char) (position : Nat)
  | invalidNumber (text : String) (position : Nat)
  | unknownFunction (name : String) (position : Nat)
  /-- A token other than the only one that may stand here. -/
  | expected (what found : String) (position : Nat)
  /-- A token that begins no operand. -/
  | unexpectedToken (token : String) (position : Nat)
  | tooDeep (limit position : Nat)
deriving DecidableEq, Repr

namespace ParseError

def position : ParseError → Nat
  | unexpectedCharacter _ position => position
  | invalidNumber _ position => position
  | unknownFunction _ position => position
  | expected _ _ position => position
  | unexpectedToken _ position => position
  | tooDeep _ position => position

def message : ParseError → String
  | unexpectedCharacter ch position => s!"Unexpected character '{ch}' at position {position}"
  | invalidNumber text position => s!"Invalid number '{text}' at position {position}"
  | unknownFunction name _ => s!"Unknown function '{name}'"
  | expected what found position => s!"Expected {what}, found '{found}' (position {position})"
  | unexpectedToken token position => s!"Unexpected token '{token}' at position {position}"
  | tooDeep limit position =>
      s!"Expression nested deeper than {limit} levels at position {position}"

end ParseError

end Secant
