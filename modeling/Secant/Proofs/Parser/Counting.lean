import Secant.Proofs.Except
import Secant.Proofs.Parser.Locality

/-!
Reading with counters. Here the tokens are kept, and next to them the place up to which they are
read and the number of levels gone down. Who goes down a level counts it, and who comes back with an
expression gives it back; whoever fails leaves it counted. So there are steps that may be impossible
to make: to look at a token behind the last, or to give back more levels than there were.

No such step is ever made, as long as there is an end among the tokens, and what is read is what is
read without counters.
-/

namespace Secant.Counting

open Secant.Parser (Failure Reader maxLevels)

structure Cursor where
  place : Nat
  depth : Nat

/-- Why there is no expression: an error, or a step that cannot be made. -/
inductive Stop
  | parse (error : ParseError)
  | crash

/-- Moves the cursor, and leaves it where it was when something goes wrong. -/
abbrev Run (α : Type) : Type :=
  EStateM Stop Cursor α

/-! ### Steps -/

section

variable (tokens : List Token)

def look : Run Token := fun cursor =>
  match tokens[cursor.place]? with
  | some token => .ok token cursor
  | none => .error .crash cursor

/-- Takes the token that is looked at, but for an end. -/
def advance : Run Unit := do
  let token ← look tokens
  unless token.isEof do
    modify fun cursor => { cursor with place := cursor.place + 1 }

def descend : Run Unit := do
  modify fun cursor => { cursor with depth := cursor.depth + 1 }
  if maxLevels < (← get).depth then
    throw (.parse (.tooDeep maxLevels (← look tokens).start))

def ascend (count : Nat) : Run Unit := do
  if count ≤ (← get).depth then
    modify fun cursor => { cursor with depth := cursor.depth - count }
  else throw .crash

def sign? (asked : Op → Bool) : Run (Option Op) := do
  match (← look tokens).lexeme with
  | .op sign =>
      if asked sign then
        advance tokens
        return some sign
      else return none
  | _ => return none

def expect (lexeme : Lexeme) (what : String) : Run Unit := do
  let token ← look tokens
  if token.lexeme = lexeme then advance tokens
  else throw (.parse (.expected what token.text token.start))

/-- Does something a level down. All that goes down is given a bound to how often that may still
happen, which is only there to show that it comes to an end. -/
def nested {α : Type} (bound : Nat) (body : (inner : Nat) → inner < bound → Run α) : Run α := do
  descend tokens
  match bound, body with
  | 0, _ => throw .crash
  | inner + 1, body =>
      let a ← body inner (Nat.lt_succ_self inner)
      ascend 1
      return a

/-- Operands joined by operators, each a level below the one before it. All levels are given back
behind the last. -/
def chain (joins : Op → Bool) :
    (bound : Nat) → ((inner : Nat) → inner < bound → Run Expr) → Nat → Expr → Run Expr
  | bound, operand, chained, left => do
      match ← sign? tokens joins with
      | none =>
          ascend chained
          return left
      | some sign =>
          descend tokens
          match bound, operand with
          | 0, _ => throw .crash
          | inner + 1, operand =>
              let right ← operand inner (Nat.lt_succ_self inner)
              chain joins inner (fun level h => operand level (Nat.lt_succ_of_lt h)) (chained + 1)
                (.binary sign left right)

def moreItems (item : Run Expr) : Nat → Run (List Expr)
  | 0 => throw .crash
  | count + 1 => do
      if (← look tokens).lexeme = .comma then
        advance tokens
        let first ← item
        let others ← moreItems item count
        return first :: others
      else return []

/-! ### The procedures -/

mutual

def expression (bound : Nat) : Run Expr := do
  let left ← term bound
  chain tokens Op.joinsTerms bound (fun inner _ => term inner) 0 left
termination_by 8 * bound + 6

def term (bound : Nat) : Run Expr := do
  let left ← power bound
  chain tokens Op.joinsFactors bound (fun inner _ => power inner) 0 left
termination_by 8 * bound + 5

def power (bound : Nat) : Run Expr := do
  let base ← unary bound
  match ← sign? tokens (· == .pow) with
  | some _ =>
      let exponent ← nested tokens bound fun inner _ => power inner
      return .binary .pow base exponent
  | none => return base
termination_by 8 * bound + 4

def unary (bound : Nat) : Run Expr := do
  match ← sign? tokens (· == .add) with
  | some _ => nested tokens bound fun inner _ => unary inner
  | none =>
      match ← sign? tokens (· == .sub) with
      | some _ =>
          let operand ← nested tokens bound fun inner _ => unary inner
          return .neg operand
      | none => primary bound
termination_by 8 * bound + 3

def primary (bound : Nat) : Run Expr := do
  let token ← look tokens
  match token.lexeme with
  | .number text =>
      advance tokens
      match Decimal.number? text with
      | some value => return .number value
      | none => throw (.parse (.invalidNumber text token.start))
  | .name name =>
      advance tokens
      if (← look tokens).lexeme = .leftParen then
        advance tokens
        nested tokens bound fun inner _ => call inner name token.start
      else return Parser.named name
  | .leftParen =>
      advance tokens
      let inside ← nested tokens bound fun inner _ => expression inner
      expect tokens .rightParen "')'"
      return inside
  | _ => throw (.parse (.unexpectedToken token.text token.start))
termination_by 8 * bound + 2

def call (bound : Nat) (name : String) (start : Nat) : Run Expr := do
  let args ← arguments bound
  expect tokens .rightParen s!"')' after arguments of {name}"
  if Builtin.isFunction (Text.lower name) then return .callNamed name args
  else throw (.parse (.unknownFunction name start))
termination_by 8 * bound + 8

def arguments (bound : Nat) : Run (List Expr) := do
  if (← look tokens).lexeme = .rightParen then return []
  else
    let first ← expression bound
    let others ← moreItems tokens (expression bound) tokens.length
    return first :: others
termination_by 8 * bound + 7

end

def parse : Run Expr := do
  let e ← expression tokens maxLevels
  expect tokens .eof "end of expression"
  return e

end

/-- An expression may begin with it. -/
def opens : Lexeme → Bool
  | .number _ | .name _ | .leftParen => true
  | .op sign => sign == .add || sign == .sub
  | _ => false

/-! ### Single steps -/

section

variable {tokens : List Token} {cursor : Cursor} {token : Token}

theorem look_eq (h : tokens[cursor.place]? = some token) :
    look tokens cursor = .ok token cursor := by
  rw [look, h]

theorem advance_eq (h : tokens[cursor.place]? = some token) (hend : token.isEof = false) :
    advance tokens cursor = .ok () ⟨cursor.place + 1, cursor.depth⟩ := by
  rw [advance, run_bind_of_ok (look_eq h), hend]
  rfl

theorem advance_eq_of_end (h : tokens[cursor.place]? = some token) (hend : token.isEof = true) :
    advance tokens cursor = .ok () cursor := by
  rw [advance, run_bind_of_ok (look_eq h), hend]
  rfl

theorem descend_eq_ite :
    descend tokens cursor =
      (if maxLevels < cursor.depth + 1 then do
          throw (.parse (.tooDeep maxLevels (← look tokens).start))
        else pure () : Run Unit) ⟨cursor.place, cursor.depth + 1⟩ :=
  rfl

theorem descend_eq (h : cursor.depth < maxLevels) :
    descend tokens cursor = .ok () ⟨cursor.place, cursor.depth + 1⟩ := by
  rw [descend_eq_ite, if_neg (Nat.not_lt.2 h)]
  rfl

theorem descend_eq_tooDeep (h : tokens[cursor.place]? = some token)
    (hdepth : maxLevels ≤ cursor.depth) :
    descend tokens cursor =
      .error (.parse (.tooDeep maxLevels token.start)) ⟨cursor.place, cursor.depth + 1⟩ := by
  have hlook : look tokens ⟨cursor.place, cursor.depth + 1⟩ =
      .ok token ⟨cursor.place, cursor.depth + 1⟩ := look_eq h
  rw [descend_eq_ite, if_pos (Nat.lt_succ_of_le hdepth), run_bind_of_ok hlook]
  rfl

theorem ascend_eq {count : Nat} (h : count ≤ cursor.depth) :
    ascend count cursor = .ok () ⟨cursor.place, cursor.depth - count⟩ := by
  have hchecked : ascend count cursor =
      (if count ≤ cursor.depth then
          modify fun cursor => { cursor with depth := cursor.depth - count }
        else throw .crash : Run Unit) cursor := rfl
  rw [hchecked, if_pos h]
  rfl

theorem sign?_eq_some {asked : Op → Bool} {sign : Op} {start stop : Nat}
    (h : tokens[cursor.place]? = some ⟨.op sign, start, stop⟩) (hasked : asked sign = true) :
    sign? tokens asked cursor = .ok (some sign) ⟨cursor.place + 1, cursor.depth⟩ := by
  rw [sign?, run_bind_of_ok (look_eq h)]
  simp only [hasked, if_true]
  rw [run_bind_of_ok (advance_eq h rfl)]
  rfl

theorem sign?_eq_none {asked : Op → Bool} (h : tokens[cursor.place]? = some token)
    (hasked : ∀ sign, token.lexeme = .op sign → asked sign = false) :
    sign? tokens asked cursor = .ok none cursor := by
  rw [sign?, run_bind_of_ok (look_eq h)]
  cases hlexeme : token.lexeme with
  | op sign =>
      simp only [hasked sign hlexeme]
      rfl
  | _ => rfl

theorem expect_eq {what : String} (h : tokens[cursor.place]? = some token) :
    expect tokens token.lexeme what cursor = advance tokens cursor := by
  rw [expect, run_bind_of_ok (look_eq h), if_pos rfl]

theorem expect_eq_error {lexeme : Lexeme} {what : String}
    (h : tokens[cursor.place]? = some token) (hne : token.lexeme ≠ lexeme) :
    expect tokens lexeme what cursor =
      .error (.parse (.expected what token.text token.start)) cursor := by
  rw [expect, run_bind_of_ok (look_eq h), if_neg hne]
  rfl

theorem primary_eq_error {bound : Nat} (h : tokens[cursor.place]? = some token)
    (hopens : opens token.lexeme = false) :
    primary tokens bound cursor =
      .error (.parse (.unexpectedToken token.text token.start)) cursor := by
  rw [primary, run_bind_of_ok (look_eq h)]
  cases hlexeme : token.lexeme with
  | number | name | leftParen =>
      rw [hlexeme] at hopens
      cases hopens
  | op | rightParen | comma | eof => rfl

theorem unary_eq_error {bound : Nat} (h : tokens[cursor.place]? = some token)
    (hopens : opens token.lexeme = false) :
    unary tokens bound cursor =
      .error (.parse (.unexpectedToken token.text token.start)) cursor := by
  have hnone (sign : Op) (hlexeme : token.lexeme = .op sign) :
      (sign == .add) = false ∧ (sign == .sub) = false := by
    rw [hlexeme] at hopens
    exact Bool.or_eq_false_iff.1 hopens
  rw [unary, run_bind_of_ok (sign?_eq_none h fun sign hlexeme => (hnone sign hlexeme).1)]
  dsimp only
  rw [run_bind_of_ok (sign?_eq_none h fun sign hlexeme => (hnone sign hlexeme).2)]
  exact primary_eq_error h hopens

/-- Before a token that no expression begins with, nothing changes. -/
theorem parse_eq_error (h : tokens[cursor.place]? = some token)
    (hopens : opens token.lexeme = false) :
    parse tokens cursor = .error (.parse (.unexpectedToken token.text token.start)) cursor := by
  rw [parse]
  refine run_bind_of_error ?_
  rw [expression]
  refine run_bind_of_error ?_
  rw [term]
  refine run_bind_of_error ?_
  rw [power]
  exact run_bind_of_error (unary_eq_error h hopens)

end

end Secant.Counting
