/-!
The binary operators and their signs.
-/

namespace Secant

inductive Op
  | add
  | sub
  | mul
  | div
  | pow
deriving DecidableEq, Repr

namespace Op

def symbol : Op → Char
  | add => '+'
  | sub => '-'
  | mul => '*'
  | div => '/'
  | pow => '^'

def joinsTerms : Op → Bool
  | add | sub => true
  | _ => false

def joinsFactors : Op → Bool
  | mul | div => true
  | _ => false

end Op

end Secant
