import Secant.Builtin
import Secant.Decimal.Numeral
import Secant.Token.Lexer

/-!
Reading an expression from tokens, by the grammar

    expression := term (('+' | '-') term)*
    term       := power (('*' | '/') power)*
    power      := unary ('^' power)?
    unary      := '+' unary | '-' unary | primary
    primary    := NUMBER | NAME | NAME '(' arguments ')' | '(' expression ')'
    arguments  := (expression (',' expression)*)?

A phrase is given the number of levels that it may still go down. Signs, parentheses, calls and
exponents go down by one; in a chain of sums or products each further operand stands one level below
the operand before it. A phrase that is read leaves the levels as they were. One that fails keeps
what it had taken, and a parser that goes on after a failure goes on with what is left.

Plus signs before an operand and parentheses leave no trace in the tree.
-/

namespace Secant

/-- Tokens yet to be read, and the levels an expression may still go down. -/
structure Parser where
  rest : List Token
  levels : Nat

namespace Parser

def maxLevels : Nat :=
  256

/-- An error, and the parser as it was when the error was met. -/
structure Failure where
  error : ParseError
  parser : Parser

def current : List Token → Token
  | [] => .eofAt 0
  | token :: _ => token

def tooDeep (rest : List Token) : Failure :=
  ⟨.tooDeep maxLevels (current rest).start, ⟨rest, 0⟩⟩

def notExpected (levels : Nat) (what : String) (rest : List Token) : Failure :=
  ⟨.expected what (current rest).text (current rest).start, ⟨rest, levels⟩⟩

def closeParen (levels : Nat) (what : String) : List Token → Except Failure (List Token)
  | ⟨.rightParen, _, _⟩ :: rest => .ok rest
  | rest => .error (notExpected levels what rest)

/-- The items of a list behind its first, each after a comma. There are no more of them than tokens,
so a `count` of the tokens does not run out. -/
def moreItems (item : List Token → Except Failure (Expr × List Token)) :
    Nat → List Token → Except Failure (List Expr × List Token)
  | count + 1, ⟨.comma, _, _⟩ :: rest => do
      let (first, rest) ← item rest
      let (others, rest) ← moreItems item count rest
      return (first :: others, rest)
  | _, rest => .ok ([], rest)

mutual

def expression (levels : Nat) (tokens : List Token) : Except Failure (Expr × List Token) := do
  let (left, rest) ← term levels tokens
  moreTerms levels left rest
termination_by 8 * levels + 6

def moreTerms (levels : Nat) (left : Expr) (tokens : List Token) :
    Except Failure (Expr × List Token) :=
  match tokens with
  | ⟨.op sign, _, _⟩ :: rest =>
      if sign.joinsTerms then
        match levels with
        | 0 => .error (tooDeep rest)
        | inner + 1 => do
            let (right, rest) ← term inner rest
            moreTerms inner (.binary sign left right) rest
      else .ok (left, tokens)
  | _ => .ok (left, tokens)
termination_by 8 * levels

def term (levels : Nat) (tokens : List Token) : Except Failure (Expr × List Token) := do
  let (left, rest) ← power levels tokens
  moreFactors levels left rest
termination_by 8 * levels + 5

def moreFactors (levels : Nat) (left : Expr) (tokens : List Token) :
    Except Failure (Expr × List Token) :=
  match tokens with
  | ⟨.op sign, _, _⟩ :: rest =>
      if sign.joinsFactors then
        match levels with
        | 0 => .error (tooDeep rest)
        | inner + 1 => do
            let (right, rest) ← power inner rest
            moreFactors inner (.binary sign left right) rest
      else .ok (left, tokens)
  | _ => .ok (left, tokens)
termination_by 8 * levels

def power (levels : Nat) (tokens : List Token) : Except Failure (Expr × List Token) := do
  let (base, rest) ← unary levels tokens
  match rest with
  | ⟨.op .pow, _, _⟩ :: behind =>
      match levels with
      | 0 => .error (tooDeep behind)
      | inner + 1 => do
          let (exponent, rest) ← power inner behind
          return (.binary .pow base exponent, rest)
  | _ => return (base, rest)
termination_by 8 * levels + 4

def unary (levels : Nat) (tokens : List Token) : Except Failure (Expr × List Token) :=
  match tokens with
  | ⟨.op .add, _, _⟩ :: rest =>
      match levels with
      | 0 => .error (tooDeep rest)
      | inner + 1 => unary inner rest
  | ⟨.op .sub, _, _⟩ :: rest =>
      match levels with
      | 0 => .error (tooDeep rest)
      | inner + 1 => do
          let (operand, rest) ← unary inner rest
          return (.neg operand, rest)
  | _ => primary levels tokens
termination_by 8 * levels + 3

def primary (levels : Nat) (tokens : List Token) : Except Failure (Expr × List Token) :=
  match tokens with
  | ⟨.number text, start, _⟩ :: rest =>
      match Decimal.number? text with
      | some value => .ok (.number value, rest)
      | none => .error ⟨.invalidNumber text start, ⟨rest, levels⟩⟩
  | ⟨.name name, start, _⟩ :: ⟨.leftParen, _, _⟩ :: rest =>
      match levels with
      | 0 => .error (tooDeep rest)
      | inner + 1 => call inner name start rest
  | ⟨.name name, _, _⟩ :: rest =>
      match Constant.value? (Text.lower name) with
      | some value => .ok (.number value, rest)
      | none => .ok (.var name, rest)
  | ⟨.leftParen, _, _⟩ :: rest =>
      match levels with
      | 0 => .error (tooDeep rest)
      | inner + 1 => do
          let (e, rest) ← expression inner rest
          let rest ← closeParen levels "')'" rest
          return (e, rest)
  | _ =>
      .error ⟨.unexpectedToken (current tokens).text (current tokens).start, ⟨tokens, levels⟩⟩
termination_by 8 * levels + 2

/-- A call, from behind its opening parenthesis. Whether there is such a function is asked last. -/
def call (levels : Nat) (name : String) (start : Nat) (tokens : List Token) :
    Except Failure (Expr × List Token) := do
  let (args, rest) ← arguments levels tokens
  let rest ← closeParen levels s!"')' after arguments of {name}" rest
  if Builtin.isFunction (Text.lower name) then return (.callNamed name args, rest)
  else .error ⟨.unknownFunction name start, ⟨rest, levels⟩⟩
termination_by 8 * levels + 8

def arguments (levels : Nat) (tokens : List Token) : Except Failure (List Expr × List Token) :=
  match tokens with
  | ⟨.rightParen, _, _⟩ :: _ => .ok ([], tokens)
  | _ => do
      let (first, rest) ← expression levels tokens
      let (others, rest) ← moreItems (expression levels) rest.length rest
      return (first :: others, rest)
termination_by 8 * levels + 7

end

/-- A parser at the front of some tokens. An end is put behind them if there is none. -/
def ofTokens (tokens : List Token) : Parser :=
  match tokens.getLast? with
  | none => ⟨[.eofAt 0], maxLevels⟩
  | some last => ⟨if last.isEof then tokens else tokens ++ [.eofAt last.stop], maxLevels⟩

/-- Reads one expression up to the end of the tokens, which is not consumed. -/
def parse (parser : Parser) : Except ParseError Expr × Parser :=
  match expression parser.levels parser.rest with
  | .error failure => (.error failure.error, failure.parser)
  | .ok (e, rest) =>
      if (current rest).isEof then (.ok e, ⟨rest, parser.levels⟩)
      else
        let failure := notExpected parser.levels "end of expression" rest
        (.error failure.error, failure.parser)

def requests : Nat → Parser → List (Except ParseError Expr)
  | 0, _ => []
  | count + 1, parser => parser.parse.1 :: parser.parse.2.requests count

end Parser

namespace Expr

def ofTokens (tokens : List Token) : Except ParseError Expr :=
  (Parser.ofTokens tokens).parse.1

def ofText (text : String) : Except ParseError Expr := do
  ofTokens (← tokenize text)

end Expr

end Secant
