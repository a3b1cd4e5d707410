import Secant.Proofs.ErrorPlaces
import Secant.Proofs.Parser.Places
import Secant.Proofs.Parser.Sentences

/-!
The blanks between tokens. A text is cut into lexemes, and the texts of these with any blanks
between them are cut into the same lexemes again: a blank breaks off whatever is before it, and what
was cut off once, though it may be no number, is cut off again. As where tokens stand makes no
difference to how they are read, what was read is read again, and what was refused is refused at the
same token and for the same reason.
-/

namespace Secant

open Text

/-! ### Texts of the same lexemes -/

def Blanks (cs : List Char) : Prop :=
  ∀ c ∈ cs, isBlank c = true

instance : DecidablePred Blanks :=
  fun cs => List.decidableBAll (fun c => isBlank c = true) cs

/-- The texts of the lexemes one behind the other, with blanks behind each of them. There has to be
a blank between two of them. -/
inductive Spaced : List Lexeme → List Char → Prop
  | nil : Spaced [] []
  | cons {lexeme : Lexeme} {phrase : List Lexeme} {gap cs : List Char} :
      Blanks gap → (phrase ≠ [] → gap ≠ []) → Spaced phrase cs →
        Spaced (lexeme :: phrase) (lexeme.text.toList ++ (gap ++ cs))

/-- The text is that of the lexemes, spaced out with blanks between them, before the first and
behind the last. -/
def SpacedOut (phrase : List Lexeme) (text : String) : Prop :=
  ∃ front cs, Blanks front ∧ Spaced phrase cs ∧ text.toList = front ++ cs

theorem Spaced.spells {phrase : List Lexeme} {cs : List Char} (h : Spaced phrase cs)
    (hcut : ∀ lexeme ∈ phrase, lexeme.IsCut) : Spells cs phrase := by
  induction h with
  | nil => exact spells_nil
  | @cons lexeme phrase gap cs hgap hne hspaced ih =>
      obtain ⟨hlexeme, hphrase⟩ := List.forall_mem_cons.1 hcut
      -- Without a blank the lexeme might go on into the next one, so only the last may have none.
      have hbreaks : Breaks (gap ++ cs) := by
        cases gap with
        | nil =>
            obtain rfl : phrase = [] := by simpa using hne
            cases hspaced
            exact breaks_nil
        | cons c gap => exact breaks_cons (.inl (hgap c List.mem_cons_self)) _
      exact hlexeme.spells.append ((ih hphrase).blanks hgap) hbreaks

theorem map_lexeme_of_tokenize {text : String} {tokens : List Token}
    (h : tokenize text = .ok tokens) :
    tokens.map Token.lexeme = Token.sentence tokens ++ [.eof] := by
  obtain ⟨front, rfl, hfront⟩ := (tiles_of_tokenize h).exists_front
  have hnot : ∀ token ∈ front, (!token.isEof) = true := fun token hmem => by
    rw [(hfront token hmem).1]
    rfl
  rw [Token.sentence, List.takeWhile_append_of_pos hnot]
  simp [Token.isEof, Token.eofAt]

theorem isCut_of_mem_sentence {text : String} {tokens : List Token} {lexeme : Lexeme}
    (h : tokenize text = .ok tokens) (hmem : lexeme ∈ Token.sentence tokens) : lexeme.IsCut := by
  obtain ⟨token, htoken, hend, rfl⟩ := Token.exists_of_mem_sentence hmem
  refine (Lexer.isCut_of_tokens _ h token htoken).resolve_left fun heof => ?_
  rw [hend] at heof
  cases heof

theorem exists_tokens_of_spacedOut {text text' : String} {tokens : List Token}
    (h : tokenize text = .ok tokens) (hspaced : SpacedOut (Token.sentence tokens) text') :
    ∃ tokens', tokenize text' = .ok tokens' ∧
      tokens'.map Token.lexeme = tokens.map Token.lexeme := by
  obtain ⟨front, cs, hfront, hspaced, htext⟩ := hspaced
  have hspells := (hspaced.spells fun _ => isCut_of_mem_sentence h).blanks hfront
  rw [← htext] at hspells
  rw [map_lexeme_of_tokenize h]
  exact hspells.exists_tokens

/-! ### Reading -/

namespace Expr

theorem ofText_eq_parse {text : String} {tokens : List Token} (h : tokenize text = .ok tokens) :
    ofText text = (Parser.parse ⟨tokens, Parser.maxLevels⟩).1 := by
  rw [ofText, h, ← Parser.ofTokens_of_tokenize h]
  rfl

/-- Both texts are read as one tree, or both are refused, with errors that differ in their places
only, which are those of tokens with the same number. -/
def ReadAlike (text text' : String) (tokens tokens' : List Token) : Prop :=
  (∃ e, ofText text = .ok e ∧ ofText text' = .ok e) ∨
    ∃ (error : ParseError) (index : Nat) (token token' : Token),
      tokens[index]? = some token ∧ tokens'[index]? = some token' ∧
        token.start = error.position ∧ ofText text = .error error ∧
          ofText text' = .error (error.moveTo token'.start)

/-- Blanks between tokens make no difference: the texts of the tokens of a text, spaced out, are cut
into the same lexemes and read alike. -/
theorem ofText_of_spacedOut {text text' : String} {tokens : List Token}
    (h : tokenize text = .ok tokens) (hspaced : SpacedOut (Token.sentence tokens) text') :
    ∃ tokens', tokenize text' = .ok tokens' ∧
      tokens'.map Token.lexeme = tokens.map Token.lexeme ∧
        ReadAlike text text' tokens tokens' := by
  obtain ⟨tokens', h', hmap⟩ := exists_tokens_of_spacedOut h hspaced
  refine ⟨tokens', h', hmap, ?_⟩
  have hlexemes := map_lexeme_of_tokenize h
  have htwins : Parser.Twins (fun place place' => ∃ (index : Nat) (token token' : Token),
      tokens[index]? = some token ∧ tokens'[index]? = some token' ∧
        token.start = place ∧ token'.start = place') tokens tokens' :=
    .of_map_lexeme hlexemes (hmap.trans hlexemes)
      fun index token token' htoken htoken' => ⟨index, token, token', htoken, htoken', rfl, rfl⟩
  rw [ReadAlike, ofText_eq_parse h, ofText_eq_parse h']
  obtain hok | ⟨error, _, ⟨index, token, token', htoken, htoken', hstart, rfl⟩, hread⟩ :=
    htwins.parse Parser.maxLevels
  · exact .inl hok
  · exact .inr ⟨error, index, token, token', htoken, htoken', hstart, hread⟩

/-- The blanks of the second text are a tab, a line break and a space, and a no-break space. Its
first token is no number, with or without them. -/
theorem ofText_of_spacedOut_exponent :
    tokenize "2e+*x" = .ok [⟨.number "2e+", 0, 3⟩, ⟨.op .mul, 3, 4⟩, ⟨.name "x", 4, 5⟩, .eofAt 5] ∧
      SpacedOut [.number "2e+", .op .mul, .name "x"] "\t2e+\n *\u00a0x" ∧
        ∃ tokens', tokenize "\t2e+\n *\u00a0x" = .ok tokens' ∧
          tokens'.map Token.lexeme = [.number "2e+", .op .mul, .name "x", .eof] ∧
            ReadAlike "2e+*x" "\t2e+\n *\u00a0x"
              [⟨.number "2e+", 0, 3⟩, ⟨.op .mul, 3, 4⟩, ⟨.name "x", 4, 5⟩, .eofAt 5] tokens' := by
  have htokenize : tokenize "2e+*x" =
      .ok [⟨.number "2e+", 0, 3⟩, ⟨.op .mul, 3, 4⟩, ⟨.name "x", 4, 5⟩, .eofAt 5] := by cbv
  have hspaced : SpacedOut [.number "2e+", .op .mul, .name "x"] "\t2e+\n *\u00a0x" := by
    have hlast : Spaced [.name "x"] _ := .cons (by decide : Blanks []) (by simp) .nil
    have hbehind : Spaced [.op .mul, .name "x"] _ :=
      .cons (by decide : Blanks ['\u00a0']) (by simp) hlast
    have hall : Spaced [.number "2e+", .op .mul, .name "x"] _ :=
      .cons (by decide : Blanks ['\n', ' ']) (by simp) hbehind
    exact ⟨['\t'], _, by decide, hall, by decide⟩
  exact ⟨htokenize, hspaced, ofText_of_spacedOut htokenize hspaced⟩

end Expr

end Secant
