import Secant.ParseError
import Secant.Text.Blank
import Secant.Text.Digit
import Secant.Text.Letter
import Secant.Token

/-!
Cutting a text into tokens. A number token is the longest run that may be a number: digits, the
first point, the first exponent mark and a sign straight behind that mark; whether it is a number is
for the reader of numbers to say. A name begins with a letter or an underscore and goes on with
alphanumeric characters, underscores and dollar signs.
-/

namespace Secant

open Text

def startsName (c : Char) : Bool :=
  isLetter c || c == '_'

def continuesName (c : Char) : Bool :=
  isAlphanumeric c || c == '_' || c == '$'

/-- What a number token has shown so far. -/
structure NumeralScan where
  pointSeen : Bool
  markSeen : Bool
  /-- The character before was the exponent mark. -/
  signAllowed : Bool

namespace NumeralScan

def start : NumeralScan :=
  ⟨false, false, false⟩

def step? (scan : NumeralScan) (c : Char) : Option NumeralScan :=
  if isDigit c then some { scan with signAllowed := false }
  else if c = '.' ∧ !scan.pointSeen then some { scan with pointSeen := true, signAllowed := false }
  else if (c = 'e' ∨ c = 'E') ∧ !scan.markSeen then
    some { scan with markSeen := true, signAllowed := true }
  else if (c = '+' ∨ c = '-') ∧ scan.signAllowed then some { scan with signAllowed := false }
  else none

/-- The longest run from the front that `step?` accepts, and what is left. -/
def split : NumeralScan → List Char → List Char × List Char
  | _, [] => ([], [])
  | scan, c :: cs =>
      match scan.step? c with
      | some next => (c :: (next.split cs).1, (next.split cs).2)
      | none => ([], c :: cs)

theorem split_append (scan : NumeralScan) (cs : List Char) :
    (scan.split cs).1 ++ (scan.split cs).2 = cs := by
  induction cs generalizing scan with
  | nil => rfl
  | cons c cs ih =>
      unfold split
      split
      · rename_i next _
        simp [ih next]
      · rfl

end NumeralScan

def symbol? : Char → Option Lexeme
  | '+' => some (.op .add)
  | '-' => some (.op .sub)
  | '*' => some (.op .mul)
  | '/' => some (.op .div)
  | '^' => some (.op .pow)
  | '(' => some .leftParen
  | ')' => some .rightParen
  | ',' => some .comma
  | _ => none

def startsNumber (c : Char) (cs : List Char) : Bool :=
  isDigit c || (c == '.' && cs.head?.any isDigit)

/-- The lexeme at the front of `c :: cs`, its width, and the text behind it. -/
def lexeme? (c : Char) (cs : List Char) : Option (Lexeme × Nat × List Char) :=
  if startsNumber c cs then
    let (text, rest) := NumeralScan.start.split (c :: cs)
    some (.number (String.ofList text), text.length, rest)
  else if startsName c then
    let more := cs.takeWhile continuesName
    some (.name (String.ofList (c :: more)), more.length + 1, cs.dropWhile continuesName)
  else (symbol? c).map fun lexeme => (lexeme, 1, cs)

/-- A text and how far it has been read. -/
structure Lexer where
  rest : List Char
  position : Nat

namespace Lexer

def ofText (text : String) : Lexer :=
  ⟨text.toList, 0⟩

/-- The next token, and the lexer behind it. Blanks are passed over in any case, but a character
that begins no token is not consumed. -/
def next (lexer : Lexer) : Except ParseError Token × Lexer :=
  let start := lexer.position + (lexer.rest.takeWhile isBlank).length
  match lexer.rest.dropWhile isBlank with
  | [] => (.ok (.eofAt start), ⟨[], start⟩)
  | c :: cs =>
      match lexeme? c cs with
      | some (lexeme, width, rest) => (.ok ⟨lexeme, start, start + width⟩, ⟨rest, start + width⟩)
      | none => (.error (.unexpectedCharacter c start), ⟨c :: cs, start⟩)

theorem split_start_ne_nil {c : Char} {cs : List Char} (h : startsNumber c cs = true) :
    (NumeralScan.start.split (c :: cs)).1 ≠ [] := by
  have hstep : ∃ next, NumeralScan.start.step? c = some next := by
    simp only [startsNumber, Bool.or_eq_true, Bool.and_eq_true, beq_iff_eq] at h
    rcases h with hdigit | ⟨rfl, -⟩
    · exact ⟨.start, by simp [NumeralScan.step?, hdigit, NumeralScan.start]⟩
    · exact ⟨⟨true, false, false⟩, rfl⟩
  obtain ⟨next, hnext⟩ := hstep
  simp [NumeralScan.split, hnext]

theorem length_rest_lt_of_lexeme? {c : Char} {cs rest : List Char} {lexeme : Lexeme} {width : Nat}
    (h : lexeme? c cs = some (lexeme, width, rest)) : rest.length < (c :: cs).length := by
  unfold lexeme? at h
  split at h
  · rename_i hnumber
    have hlength := congrArg List.length (NumeralScan.split_append .start (c :: cs))
    have hpos := List.length_pos_iff.2 (split_start_ne_nil hnumber)
    simp only [Option.some.injEq, Prod.mk.injEq] at h
    obtain ⟨-, -, rfl⟩ := h
    rw [List.length_append] at hlength
    omega
  · split at h
    · simp only [Option.some.injEq, Prod.mk.injEq] at h
      obtain ⟨-, -, rfl⟩ := h
      exact Nat.lt_succ_of_le (List.dropWhile_sublist _).length_le
    · obtain ⟨_, -, h⟩ := Option.map_eq_some_iff.1 h
      simp only [Prod.mk.injEq] at h
      obtain ⟨-, -, rfl⟩ := h
      simp

/-- Only the end leaves as much to read as there was. -/
theorem length_rest_lt {lexer after : Lexer} {token : Token}
    (h : lexer.next = (.ok token, after)) (hne : token.isEof = false) :
    after.rest.length < lexer.rest.length := by
  unfold next at h
  split at h
  · cases h
    cases hne
  · rename_i c cs hrest
    split at h
    · rename_i lexeme width rest hlexeme
      cases h
      have hblank := (List.dropWhile_sublist (l := lexer.rest) isBlank).length_le
      rw [hrest] at hblank
      exact Nat.lt_of_lt_of_le (length_rest_lt_of_lexeme? hlexeme) hblank
    · cases h

def tokens (lexer : Lexer) : Except ParseError (List Token) :=
  match hnext : lexer.next with
  | (.error error, _) => .error error
  | (.ok token, after) =>
      if hend : token.isEof then .ok [token]
      else
        have := length_rest_lt hnext (by simpa using hend)
        after.tokens.map (token :: ·)
termination_by lexer.rest.length

def requests : Nat → Lexer → List (Except ParseError Token)
  | 0, _ => []
  | count + 1, lexer => lexer.next.1 :: lexer.next.2.requests count

end Lexer

def tokenize (text : String) : Except ParseError (List Token) :=
  (Lexer.ofText text).tokens

end Secant
