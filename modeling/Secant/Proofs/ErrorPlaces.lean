import Mathlib
import Secant.Proofs.Parser.Locality
import Secant.Proofs.Spans
import Secant.Proofs.Spelling

/-!
Where errors point. Every error gives a place in the text, and what it says of that place is so: the
character it shows is the one there, and the number, the name or the token it shows is one that the
text is cut into and that begins there. The end of the text is shown as a word, which may be typed
as a name too.
-/

namespace Secant

namespace Token

/-- The token is one that the text is cut into. -/
def IsOf (token : Token) (text : String) : Prop :=
  ∃ tokens, tokenize text = .ok tokens ∧ token ∈ tokens

variable {token : Token} {text : String}

theorem IsOf.isTyped (h : token.IsOf text) : token.lexeme.IsTyped := by
  obtain ⟨tokens, htokens, hmem⟩ := h
  exact Lexer.isTyped_of_tokens _ htokens token hmem

theorem IsOf.eq_eofAt_or_standsIn (h : token.IsOf text) :
    token = .eofAt text.length ∨ token.isEof = false ∧ token.StandsIn text.toList := by
  obtain ⟨tokens, htokens, hmem⟩ := h
  obtain ⟨front, rfl, hfront⟩ := (tiles_of_tokenize htokens).exists_front
  rw [String.length_toList, List.mem_append, List.mem_singleton] at hmem
  exact hmem.symm.imp_right (hfront token)

theorem IsOf.start_le_length (h : token.IsOf text) : token.start ≤ text.length := by
  obtain rfl | ⟨-, hstands⟩ := h.eq_eofAt_or_standsIn
  · exact Nat.le_refl _
  · have hlt := hstands.start_lt_stop
    have hle := hstands.stop_le_length
    rw [String.length_toList] at hle
    omega

theorem IsOf.standsIn (h : token.IsOf text) (hne : token.lexeme ≠ .eof) :
    token.StandsIn text.toList := by
  obtain rfl | ⟨-, hstands⟩ := h.eq_eofAt_or_standsIn
  · exact absurd rfl hne
  · exact hstands

end Token

theorem Tiles.start_eq_iff {cs : List Char} {place : Nat} {tokens : List Token}
    (h : Tiles cs place tokens) {token other : Token} (htoken : token ∈ tokens)
    (hother : other ∈ tokens) : token.start = other.start ↔ token = other := by
  have hsymm : Std.Symm fun first second : Token => first.start ≠ second.start :=
    ⟨fun _ _ => Ne.symm⟩
  have hapart := (h.pairwise_start.imp Nat.ne_of_lt).forall htoken hother
  exact ⟨fun hstart => by_contra fun hne => hapart hne hstart, congrArg Token.start⟩

theorem Lexeme.IsTyped.text_eq_eof_iff {lexeme : Lexeme} (h : lexeme.IsTyped) :
    lexeme.text = "EOF" ↔ lexeme = .eof ∨ lexeme = .name "EOF" := by
  cases lexeme with
  | number text =>
      obtain ⟨first, more, rfl, hfirst⟩ := h
      refine iff_of_false (fun heq => ?_) (by simp)
      have hlist := congrArg String.toList heq
      rw [Lexeme.text, String.toList_ofList] at hlist
      cases hlist
      revert hfirst
      decide
  | name text => simp [Lexeme.text]
  | op sign => cases sign <;> simp [Lexeme.text, Op.symbol]
  | leftParen | rightParen | comma => simp [Lexeme.text]
  | eof => simp [Lexeme.text]

/-! ### The tokens of a text and the parser -/

namespace Parser

theorem ofTokens_of_tokenize {text : String} {tokens : List Token}
    (h : tokenize text = .ok tokens) : ofTokens tokens = ⟨tokens, maxLevels⟩ := by
  obtain ⟨front, rfl, -⟩ := (tiles_of_tokenize h).exists_front
  simp [ofTokens, Token.isEof, Token.eofAt]

/-- The token that reading stops at is one of the tokens of the text. With anything else behind that
token, reading stops there again. -/
theorem exists_stop {text : String} {tokens : List Token} (htokens : tokenize text = .ok tokens)
    {failure : Failure} (h : wholly maxLevels tokens = .error failure) :
    ∃ taken token behind, tokens = taken ++ token :: behind ∧
      failure.parser.rest = token :: behind ∧ Tells failure.error taken token ∧
        ∀ other, (parse ⟨taken ++ token :: other, maxLevels⟩).1 = .error failure.error := by
  obtain ⟨taken, hsplit, hnoEnd, htells, hagain⟩ := (local_wholly _ tokens).exists_of_error h
  cases hrest : failure.parser.rest with
  | nil =>
      rw [hrest, List.append_nil] at hsplit
      obtain ⟨front, hfront, -⟩ := (tiles_of_tokenize htokens).exists_front
      have hmem : Token.eofAt text.toList.length ∈ taken := by
        rw [← hsplit, hfront]
        exact List.mem_append_right front List.mem_cons_self
      exact absurd (hnoEnd _ hmem) (by simp [Token.isEof, Token.eofAt])
  | cons token behind =>
      rw [hrest] at hsplit htells hagain
      exact ⟨taken, token, behind, hsplit, rfl, htells, fun other =>
        parse_eq_error_iff.2 ⟨_, hagain (token :: other) rfl, rfl⟩⟩

end Parser

namespace Expr

/-- A text is not read because it is not cut into tokens or because its tokens are not read. -/
theorem ofText_eq_error_iff {text : String} {error : ParseError} :
    ofText text = .error error ↔
      tokenize text = .error error ∨
        ∃ tokens, tokenize text = .ok tokens ∧
          ∃ failure, Parser.wholly Parser.maxLevels tokens = .error failure ∧
            failure.error = error := by
  refine bind_eq_error_iff.trans (or_congr_right (exists_congr fun tokens => ?_))
  refine and_congr_right fun htokens => ?_
  rw [ofTokens, Parser.ofTokens_of_tokenize htokens]
  exact Parser.parse_eq_error_iff

end Expr

/-! ### What errors say -/

/-- What the error says of the text is so. -/
def ParseError.Fits (text : String) : ParseError → Prop
  | unexpectedCharacter c position => text.toList[position]? = some c
  | invalidNumber shown position =>
      ∃ token : Token, token.IsOf text ∧ token.lexeme = .number shown ∧ token.start = position ∧
        token.StandsIn text.toList
  | unknownFunction name position =>
      ∃ (before : List Token) (token paren : Token) (behind : List Token),
        tokenize text = .ok (before ++ token :: paren :: behind) ∧
        token.lexeme = .name name ∧ token.start = position ∧ token.StandsIn text.toList ∧
          paren.lexeme = .leftParen ∧ Builtin.isFunction (Text.lower name) = false
  | expected _ found position =>
      ∃ token : Token, token.IsOf text ∧ token.start = position ∧ token.text = found ∧
        (found = "EOF" ↔ token.isEof = true ∨ token.lexeme = .name "EOF")
  | unexpectedToken shown position =>
      ∃ token : Token, token.IsOf text ∧ token.start = position ∧ token.text = shown ∧
        (shown = "EOF" ↔ token.isEof = true)
  | tooDeep limit position =>
      limit = 256 ∧ ∃ token : Token, token.IsOf text ∧ token.start = position

namespace ParseError

variable {text : String} {error : ParseError}

theorem fits_of_tokenize (h : tokenize text = .error error) :
    error.position ≤ text.length ∧ error.Fits text := by
  obtain ⟨c, position, hget, rfl⟩ :=
    Lexer.exists_of_tokens_eq_error _ (Lexer.isIn_ofText text) h
  have hlt := (List.getElem?_eq_some_iff.1 hget).1
  rw [String.length_toList] at hlt
  exact ⟨Nat.le_of_lt hlt, hget⟩

/-- What reading tells of the tokens holds of the text. -/
theorem fits_of_tells {taken behind : List Token} {token : Token}
    (htokens : tokenize text = .ok (taken ++ token :: behind))
    (h : Parser.Tells error taken token) :
    error.position ≤ text.length ∧ error.Fits text := by
  have hof (other : Token) (hmem : other ∈ taken ++ [token]) : other.IsOf text :=
    ⟨_, htokens, by rw [List.append_cons]; exact List.mem_append_left behind hmem⟩
  have hstop := hof token (by simp)
  have htext := hstop.isTyped.text_eq_eof_iff
  cases h with
  | @invalidNumber shown start stop _ _ hmem hnumber =>
      have hnumberOf := hof ⟨.number shown, start, stop⟩ (by simp [hmem])
      exact ⟨hnumberOf.start_le_length, _, hnumberOf, rfl, rfl, hnumberOf.standsIn (by simp)⟩
  | @unknownFunction name start stop start' stop' _ _ hcall hfunction =>
      have hmem := hcall.subset List.mem_cons_self
      have hnameOf := hof ⟨.name name, start, stop⟩ (List.mem_append_left _ hmem)
      obtain ⟨before, after, rfl⟩ := hcall
      refine ⟨hnameOf.start_le_length, before, _, ⟨.leftParen, start', stop'⟩,
        after ++ token :: behind, ?_, rfl, rfl, hnameOf.standsIn (by simp), rfl, hfunction⟩
      simpa using htokens
  | expected =>
      refine ⟨hstop.start_le_length, token, hstop, rfl, rfl, ?_⟩
      simpa [Token.isEof, Token.text] using htext
  | unexpectedToken hname =>
      refine ⟨hstop.start_le_length, token, hstop, rfl, rfl, ?_⟩
      simpa [Token.isEof, Token.text, hname] using htext
  | tooDeep => exact ⟨hstop.start_le_length, rfl, token, hstop, rfl⟩

end ParseError

namespace Expr

/-- An error of a text gives a place in it, at which the text is as the error says. -/
theorem fits_of_ofText {text : String} {error : ParseError} (h : ofText text = .error error) :
    error.position ≤ text.length ∧ error.Fits text := by
  obtain htokenize | ⟨tokens, htokens, failure, hfailure, rfl⟩ := ofText_eq_error_iff.1 h
  · exact ParseError.fits_of_tokenize htokenize
  · obtain ⟨taken, token, behind, rfl, -, htells, -⟩ := Parser.exists_stop htokens hfailure
    exact ParseError.fits_of_tells htokens htells

/-- The mark of an exponent is part of the number token, and so is the sign behind it. The blank
before the token takes more than a byte. -/
theorem fits_of_ofText_exponent :
    ofText "-\u00a01.5e+ x" = .error (.invalidNumber "1.5e+" 2) ∧
      (ParseError.invalidNumber "1.5e+" 2).position ≤ "-\u00a01.5e+ x".length ∧
        (ParseError.invalidNumber "1.5e+" 2).Fits "-\u00a01.5e+ x" := by
  have hread : ofText "-\u00a01.5e+ x" = .error (.invalidNumber "1.5e+" 2) := by cbv
  exact ⟨hread, fits_of_ofText hread⟩

theorem expression_name (levels : Nat) (name : String) (start stop : Nat) {rest : List Token}
    (hparen : (Parser.current rest).lexeme ≠ .leftParen)
    (hop : ∀ sign, (Parser.current rest).lexeme ≠ .op sign) :
    Parser.expression levels (⟨.name name, start, stop⟩ :: rest) =
      .ok (Parser.named name, rest) := by
  rw [Parser.expression, Parser.term, Parser.power_eq,
    Parser.unary_of_ne (by simp [Parser.current]) (by simp [Parser.current]),
    Parser.primary_name hparen]
  simp only [bind, Except.bind]
  rw [Parser.exponent_of_ne (hop .pow)]
  dsimp only
  rw [Parser.isChain_moreFactors.of_not_joins fun sign h => absurd h (hop sign)]
  dsimp only
  rw [Parser.isChain_moreTerms.of_not_joins fun sign h => absurd h (hop sign)]

/-- The token that should not be there is a name. -/
theorem not_forall_expected_eof :
    ¬∀ (text what found : String) (position : Nat),
      ofText text = .error (.expected what found position) →
        ∃ token : Token, token.IsOf text ∧ token.start = position ∧ token.text = found ∧
          (found = "EOF" ↔ token.isEof = true) := by
  intro h
  have htokenize :
      tokenize "x EOF" = .ok [⟨.name "x", 0, 1⟩, ⟨.name "EOF", 2, 5⟩, .eofAt 5] := by cbv
  have hread : ofText "x EOF" = .error (.expected "end of expression" "EOF" 2) := by
    refine ofText_eq_error_iff.2 (.inr ⟨_, htokenize, ?_⟩)
    rw [Parser.wholly,
      expression_name _ _ _ _ (by simp [Parser.current]) (by simp [Parser.current])]
    exact ⟨_, rfl, rfl⟩
  obtain ⟨token, ⟨tokens, htokens, hmem⟩, hstart, -, hend⟩ := h _ _ _ _ hread
  rw [htokenize] at htokens
  cases htokens
  have heof := hend.1 rfl
  simp only [List.mem_cons, List.not_mem_nil, or_false] at hmem
  obtain rfl | rfl | rfl := hmem
  · cases hstart
  · cases heof
  · cases hstart

end Expr

end Secant
