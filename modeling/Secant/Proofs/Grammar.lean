import Secant.Builtin
import Secant.Decimal.Numeral
import Secant.Token

/-!
The grammar of expressions as a relation, without a parser. A phrase is a list of lexemes; it stands
for a tree, and it goes down a number of levels. A number and a bare name stay where they are. A
sign, a call and a pair of parentheses are one level above the deepest thing inside, and a power is
one level above its exponent and level with its base. In a chain of sums or products the first
operand stands level with the chain and every further one a level below the one before it.
-/

namespace Secant.Grammar

mutual

/-- Terms with additive signs between them, grouped from the left; `signs` is how many. -/
inductive Expression : List Lexeme → Expr → (signs levels : Nat) → Prop
  | single {phrase : List Lexeme} {e : Expr} {marks levels : Nat} :
      Term phrase e marks levels → Expression phrase e 0 levels
  | join {phrase next : List Lexeme} {left right : Expr} {sign : Op}
      {signs marks levels below : Nat} :
      Expression phrase left signs levels → sign.joinsTerms = true →
        Term next right marks below →
        Expression (phrase ++ .op sign :: next) (.binary sign left right) (signs + 1)
          (max levels (signs + 1 + below))

/-- Powers with multiplicative signs between them, grouped from the left; `marks` is how many. -/
inductive Term : List Lexeme → Expr → (marks levels : Nat) → Prop
  | single {phrase : List Lexeme} {e : Expr} {levels : Nat} :
      Power phrase e levels → Term phrase e 0 levels
  | join {phrase next : List Lexeme} {left right : Expr} {sign : Op} {marks levels below : Nat} :
      Term phrase left marks levels → sign.joinsFactors = true → Power next right below →
        Term (phrase ++ .op sign :: next) (.binary sign left right) (marks + 1)
          (max levels (marks + 1 + below))

/-- Bases and exponents, grouped from the right. -/
inductive Power : List Lexeme → Expr → (levels : Nat) → Prop
  | base {phrase : List Lexeme} {e : Expr} {levels : Nat} :
      Unary phrase e levels → Power phrase e levels
  | raise {phrase next : List Lexeme} {base exponent : Expr} {levels below : Nat} :
      Unary phrase base levels → Power next exponent below →
        Power (phrase ++ .op .pow :: next) (.binary .pow base exponent) (max levels (below + 1))

/-- An operand with the signs before it, of which a plus leaves no trace. -/
inductive Unary : List Lexeme → Expr → (levels : Nat) → Prop
  | primary {phrase : List Lexeme} {e : Expr} {levels : Nat} :
      Primary phrase e levels → Unary phrase e levels
  | plus {phrase : List Lexeme} {e : Expr} {levels : Nat} :
      Unary phrase e levels → Unary (.op .add :: phrase) e (levels + 1)
  | minus {phrase : List Lexeme} {e : Expr} {levels : Nat} :
      Unary phrase e levels → Unary (.op .sub :: phrase) (.neg e) (levels + 1)

inductive Primary : List Lexeme → Expr → (levels : Nat) → Prop
  | number {text : String} {value : Float} :
      Decimal.number? text = some value → Primary [.number text] (.number value) 0
  | constant {name : String} {value : Float} :
      Constant.value? (Text.lower name) = some value → Primary [.name name] (.number value) 0
  | var {name : String} :
      Constant.value? (Text.lower name) = none → Primary [.name name] (.var name) 0
  | call {phrase : List Lexeme} {name : String} {args : List Expr} {levels : Nat} :
      Arguments phrase args levels → Builtin.isFunction (Text.lower name) = true →
        Primary (.name name :: .leftParen :: (phrase ++ [.rightParen])) (.callNamed name args)
          (levels + 1)
  | paren {phrase : List Lexeme} {e : Expr} {signs levels : Nat} :
      Expression phrase e signs levels →
        Primary (.leftParen :: (phrase ++ [.rightParen])) e (levels + 1)

inductive Arguments : List Lexeme → List Expr → (levels : Nat) → Prop
  | none : Arguments [] [] 0
  | some {phrase : List Lexeme} {args : List Expr} {levels : Nat} :
      Items phrase args levels → Arguments phrase args levels

/-- One or more expressions, apart by commas. -/
inductive Items : List Lexeme → List Expr → (levels : Nat) → Prop
  | last {phrase : List Lexeme} {e : Expr} {signs levels : Nat} :
      Expression phrase e signs levels → Items phrase [e] levels
  | cons {phrase next : List Lexeme} {e : Expr} {args : List Expr} {signs levels others : Nat} :
      Expression phrase e signs levels → Items next args others →
        Items (phrase ++ .comma :: next) (e :: args) (max levels others)

end

/-- A whole sentence, the tree it stands for, and the levels it goes down. -/
def Sentence (phrase : List Lexeme) (e : Expr) (levels : Nat) : Prop :=
  ∃ signs, Expression phrase e signs levels

/-- A chain goes down at least a level for every sign in it. -/
theorem Expression.signs_le {phrase : List Lexeme} {e : Expr} {signs levels : Nat} :
    Expression phrase e signs levels → signs ≤ levels
  | .single _ => Nat.zero_le _
  | .join _ _ _ => by omega

theorem Term.marks_le {phrase : List Lexeme} {e : Expr} {marks levels : Nat} :
    Term phrase e marks levels → marks ≤ levels
  | .single _ => Nat.zero_le _
  | .join _ _ _ => by omega

/-! The end of a text is no part of a sentence. -/

mutual

theorem Expression.eof_notMem {phrase : List Lexeme} {e : Expr} {signs levels : Nat} :
    Expression phrase e signs levels → .eof ∉ phrase
  | .single h => h.eof_notMem
  | .join h _ h' => by simp [h.eof_notMem, h'.eof_notMem]

theorem Term.eof_notMem {phrase : List Lexeme} {e : Expr} {marks levels : Nat} :
    Term phrase e marks levels → .eof ∉ phrase
  | .single h => h.eof_notMem
  | .join h _ h' => by simp [h.eof_notMem, h'.eof_notMem]

theorem Power.eof_notMem {phrase : List Lexeme} {e : Expr} {levels : Nat} :
    Power phrase e levels → .eof ∉ phrase
  | .base h => h.eof_notMem
  | .raise h h' => by simp [h.eof_notMem, h'.eof_notMem]

theorem Unary.eof_notMem {phrase : List Lexeme} {e : Expr} {levels : Nat} :
    Unary phrase e levels → .eof ∉ phrase
  | .primary h => h.eof_notMem
  | .plus h => by simp [h.eof_notMem]
  | .minus h => by simp [h.eof_notMem]

theorem Primary.eof_notMem {phrase : List Lexeme} {e : Expr} {levels : Nat} :
    Primary phrase e levels → .eof ∉ phrase
  | .number _ => by simp
  | .constant _ => by simp
  | .var _ => by simp
  | .call h _ => by simp [h.eof_notMem]
  | .paren h => by simp [h.eof_notMem]

theorem Arguments.eof_notMem {phrase : List Lexeme} {args : List Expr} {levels : Nat} :
    Arguments phrase args levels → .eof ∉ phrase
  | .none => by simp
  | .some h => h.eof_notMem

theorem Items.eof_notMem {phrase : List Lexeme} {args : List Expr} {levels : Nat} :
    Items phrase args levels → .eof ∉ phrase
  | .last h => h.eof_notMem
  | .cons h h' => by simp [h.eof_notMem, h'.eof_notMem]

end

end Secant.Grammar
