import Secant.Proofs.Except
import Secant.Token.Lexer

/-!
Cutting a text one lexeme after another: what the lexer makes of a text whose first character is no
blank is the lexeme there and then what it makes of the rest.
-/

namespace Secant

open Text

theorem symbol?_ne_eof {c : Char} {lexeme : Lexeme} (h : symbol? c = some lexeme) :
    lexeme ≠ .eof := by
  rintro rfl
  unfold symbol? at h
  split at h <;> simp at h

theorem lexeme?_ne_eof {c : Char} {cs rest : List Char} {lexeme : Lexeme} {width : Nat}
    (h : lexeme? c cs = some (lexeme, width, rest)) : lexeme ≠ .eof := by
  unfold lexeme? at h
  split at h
  · simp only [Option.some.injEq, Prod.mk.injEq] at h
    obtain ⟨rfl, -⟩ := h
    simp
  · split at h
    · simp only [Option.some.injEq, Prod.mk.injEq] at h
      obtain ⟨rfl, -⟩ := h
      simp
    · obtain ⟨found, hfound, h⟩ := Option.map_eq_some_iff.1 h
      simp only [Prod.mk.injEq] at h
      obtain ⟨rfl, -⟩ := h
      exact symbol?_ne_eof hfound

namespace Lexer

theorem next_cons {c : Char} {cs rest : List Char} {lexeme : Lexeme} {width : Nat}
    (hblank : isBlank c = false) (h : lexeme? c cs = some (lexeme, width, rest)) (place : Nat) :
    next ⟨c :: cs, place⟩ = (.ok ⟨lexeme, place, place + width⟩, ⟨rest, place + width⟩) := by
  simp [next, hblank, h]

theorem next_eq_error {c : Char} {cs : List Char} (hblank : isBlank c = false)
    (h : lexeme? c cs = none) (place : Nat) :
    next ⟨c :: cs, place⟩ = (.error (.unexpectedCharacter c place), ⟨c :: cs, place⟩) := by
  simp [next, hblank, h]

theorem tokens_eq (lexer : Lexer) :
    lexer.tokens = lexer.next.1.bind fun token =>
      if token.isEof then .ok [token] else lexer.next.2.tokens.map (token :: ·) := by
  rw [tokens]
  split
  · rename_i error after hnext
    simp [hnext, Except.bind]
  · rename_i token after hnext
    simp [hnext, Except.bind]

theorem tokens_of_next {lexer after : Lexer} {token : Token}
    (hnext : lexer.next = (.ok token, after)) (hend : token.isEof = false) :
    lexer.tokens = after.tokens.map (token :: ·) := by
  rw [tokens_eq, hnext]
  simp [Except.bind, hend]

theorem tokens_of_end {lexer after : Lexer} {token : Token}
    (hnext : lexer.next = (.ok token, after)) (hend : token.isEof = true) :
    lexer.tokens = .ok [token] := by
  rw [tokens_eq, hnext]
  simp [Except.bind, hend]

theorem tokens_of_error {lexer after : Lexer} {error : ParseError}
    (hnext : lexer.next = (.error error, after)) : lexer.tokens = .error error := by
  rw [tokens_eq, hnext]
  rfl

@[simp] theorem tokens_nil (place : Nat) : tokens ⟨[], place⟩ = .ok [.eofAt place] :=
  tokens_of_end rfl rfl

theorem tokens_cons {c : Char} {cs rest : List Char} {lexeme : Lexeme} {width : Nat}
    (hblank : isBlank c = false) (h : lexeme? c cs = some (lexeme, width, rest)) (place : Nat) :
    tokens ⟨c :: cs, place⟩ =
      (tokens ⟨rest, place + width⟩).map (⟨lexeme, place, place + width⟩ :: ·) := by
  have hend : Token.isEof ⟨lexeme, place, place + width⟩ = false := by
    simpa [Token.isEof] using lexeme?_ne_eof h
  exact tokens_of_next (next_cons hblank h place) hend

/-- The first token of a text that does not begin with a blank is the lexeme there. -/
theorem exists_lexeme_of_tokens {c : Char} {cs : List Char} {place : Nat} {tokens : List Token}
    (hblank : isBlank c = false) (h : Lexer.tokens ⟨c :: cs, place⟩ = .ok tokens) :
    ∃ lexeme width rest behind, lexeme? c cs = some (lexeme, width, rest) ∧
      tokens = ⟨lexeme, place, place + width⟩ :: behind := by
  cases hlexeme : lexeme? c cs with
  | none =>
      rw [tokens_of_error (next_eq_error hblank hlexeme place)] at h
      cases h
  | some found =>
      obtain ⟨lexeme, width, rest⟩ := found
      rw [tokens_cons hblank hlexeme] at h
      obtain ⟨behind, -, rfl⟩ := map_eq_ok_iff.1 h
      exact ⟨lexeme, width, rest, behind, rfl, rfl⟩

end Lexer

end Secant
