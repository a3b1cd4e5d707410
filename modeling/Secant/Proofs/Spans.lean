import Secant.Proofs.Except
import Secant.Proofs.Lexer

/-!
Where tokens stand. From any place in a text the lexer passes over blanks, and what it finds behind
them is the end, or a token whose text is what the text holds there, or a character that begins
none. So the tokens of a text tile it: they stand one behind the other, each spells what is at its
place, and between them there are blanks only.
-/

namespace Secant

open Text

namespace Token

def Covers (token : Token) (place : Nat) : Prop :=
  token.start ≤ place ∧ place < token.stop

/-- The token has a stretch of the text, and what stands there is the token's own text. -/
structure StandsIn (token : Token) (cs : List Char) : Prop where
  start_lt_stop : token.start < token.stop
  stop_le_length : token.stop ≤ cs.length
  extract_eq : cs.extract token.start token.stop = token.text.toList

end Token

def BlankBetween (cs : List Char) (place stop : Nat) : Prop :=
  ∀ position c, place ≤ position → position < stop → cs[position]? = some c → isBlank c = true

/-- From `place` on there are blanks, a token, blanks, a token and so on, and behind the last blanks
there is the end. -/
inductive Tiles (cs : List Char) : Nat → List Token → Prop
  | eof {place : Nat} : place ≤ cs.length → BlankBetween cs place cs.length →
      Tiles cs place [.eofAt cs.length]
  | token {place : Nat} {token : Token} {tokens : List Token} :
      place ≤ token.start → BlankBetween cs place token.start → token.isEof = false →
        token.StandsIn cs → Tiles cs token.stop tokens → Tiles cs place (token :: tokens)

/-! ### One token -/

theorem toList_text_of_symbol? {c : Char} {lexeme : Lexeme} (h : symbol? c = some lexeme) :
    lexeme.text.toList = [c] := by
  unfold symbol? at h
  split at h <;> cases h <;> rfl

theorem text_append_of_lexeme? {c : Char} {cs rest : List Char} {lexeme : Lexeme} {width : Nat}
    (h : lexeme? c cs = some (lexeme, width, rest)) :
    lexeme.text.toList ++ rest = c :: cs ∧ width = lexeme.text.toList.length ∧ 0 < width := by
  unfold lexeme? at h
  split at h
  · rename_i hnumber
    cases h
    have hpos := List.length_pos_iff.2 (Lexer.split_start_ne_nil hnumber)
    rw [Lexeme.text, String.toList_ofList]
    exact ⟨NumeralScan.split_append .start (c :: cs), rfl, hpos⟩
  · split at h
    · cases h
      simp [Lexeme.text, List.takeWhile_append_dropWhile]
    · obtain ⟨found, hfound, h⟩ := Option.map_eq_some_iff.1 h
      cases h
      simp [toList_text_of_symbol? hfound]

namespace Lexer

/-- What is still to be read is the text from the position on. -/
def IsIn (lexer : Lexer) (cs : List Char) : Prop :=
  ∃ before, cs = before ++ lexer.rest ∧ lexer.position = before.length

theorem isIn_ofText (text : String) : (ofText text).IsIn text.toList :=
  ⟨[], rfl, rfl⟩

theorem exists_blanks_next (lexer : Lexer) :
    ∃ blanks behind, lexer.rest = blanks ++ behind ∧ (∀ c ∈ blanks, isBlank c = true) ∧
      (∀ c ∈ behind.head?, isBlank c = false) ∧ ∀ start, start = lexer.position + blanks.length →
        lexer.next =
          match behind with
          | [] => (.ok (.eofAt start), ⟨[], start⟩)
          | c :: cs =>
              match lexeme? c cs with
              | some (lexeme, width, rest) =>
                  (.ok ⟨lexeme, start, start + width⟩, ⟨rest, start + width⟩)
              | none => (.error (.unexpectedCharacter c start), ⟨c :: cs, start⟩) := by
  refine ⟨lexer.rest.takeWhile isBlank, lexer.rest.dropWhile isBlank,
    List.takeWhile_append_dropWhile.symm, List.all_eq_true.1 List.all_takeWhile,
    fun c hc => eq_false_of_head?_dropWhile hc, ?_⟩
  rintro start rfl
  rfl

/-- Behind the blanks that a request for the next token passes over there is the end, a token or a
character that begins none. -/
theorem next_cases {lexer : Lexer} {cs : List Char} (h : lexer.IsIn cs) :
    ∃ start, lexer.position ≤ start ∧ BlankBetween cs lexer.position start ∧
      ((start = cs.length ∧ lexer.next = (.ok (.eofAt cs.length), ⟨[], cs.length⟩)) ∨
        (∃ token after, lexer.next = (.ok token, after) ∧ token.isEof = false ∧
          token.start = start ∧ token.StandsIn cs ∧ after.position = token.stop ∧ after.IsIn cs) ∨
        ∃ c after, cs[start]? = some c ∧
          lexer.next = (.error (.unexpectedCharacter c start), after) ∧
          after.position = start ∧ after.IsIn cs) := by
  obtain ⟨before, hcs, hposition⟩ := h
  obtain ⟨blanks, behind, hrest, hblanks, -, hnext⟩ := lexer.exists_blanks_next
  have hsplit : cs = before ++ blanks ++ behind := by rw [hcs, hrest, List.append_assoc]
  have hnext := hnext (before ++ blanks).length (by rw [hposition, List.length_append])
  refine ⟨(before ++ blanks).length, ?_, ?_, ?_⟩
  · rw [hposition, List.length_append]
    exact Nat.le_add_right _ _
  · intro position c hlow hhigh hget
    rw [hposition] at hlow
    rw [hsplit, List.getElem?_append_left hhigh, List.getElem?_append_right hlow] at hget
    exact hblanks c (List.mem_of_getElem? hget)
  · cases behind with
    | nil =>
        rw [List.append_nil] at hsplit
        subst hsplit
        exact .inl ⟨rfl, hnext⟩
    | cons c tail =>
        right
        cases hlexeme : lexeme? c tail with
        | none =>
            simp only [hlexeme] at hnext
            exact .inr ⟨c, _, by simp [hsplit], hnext, rfl, before ++ blanks, hsplit, rfl⟩
        | some found =>
            obtain ⟨lexeme, width, rest⟩ := found
            simp only [hlexeme] at hnext
            obtain ⟨htext, rfl, hpos⟩ := text_append_of_lexeme? hlexeme
            have hfull : cs = before ++ blanks ++ (lexeme.text.toList ++ rest) := by
              rw [hsplit, htext]
            have hne : lexeme ≠ .eof := lexeme?_ne_eof hlexeme
            refine .inl ⟨_, _, hnext, by simpa [Token.isEof] using hne, rfl, ⟨?_, ?_, ?_⟩, rfl,
              before ++ blanks ++ lexeme.text.toList, ?_, ?_⟩
            · exact Nat.lt_add_of_pos_right hpos
            · rw [hfull]
              simp only [List.length_append]
              omega
            · rw [hfull, List.extract_eq_take_drop, List.drop_left, Nat.add_sub_cancel_left,
                List.take_left]
              rfl
            · exact hfull.trans (List.append_assoc _ _ _).symm
            · exact List.length_append.symm

/-! ### All tokens -/

/-- A text that is cut into tokens is tiled by them. -/
theorem tiles_of_tokens {cs : List Char} (lexer : Lexer) (h : lexer.IsIn cs) {tokens : List Token}
    (htokens : lexer.tokens = .ok tokens) : Tiles cs lexer.position tokens := by
  induction hlength : lexer.rest.length using Nat.strongRecOn generalizing lexer tokens with
  | ind length ih =>
      obtain ⟨start, hle, hblank, ⟨rfl, hend⟩ |
        ⟨token, after, hnext, hne, rfl, hstands, hstop, hin⟩ | ⟨c, after, -, herror, -⟩⟩ :=
          next_cases h
      · rw [tokens_of_end hend rfl] at htokens
        cases htokens
        exact .eof hle hblank
      · rw [tokens_of_next hnext hne] at htokens
        obtain ⟨others, hothers, rfl⟩ := map_eq_ok_iff.1 htokens
        have hrest := ih _ (hlength ▸ length_rest_lt hnext hne) after hin hothers rfl
        rw [hstop] at hrest
        exact .token hle hblank hne hstands hrest
      · rw [tokens_of_error herror] at htokens
        cases htokens

/-- A text that is not cut into tokens holds a character that begins none. -/
theorem exists_of_tokens_eq_error {cs : List Char} (lexer : Lexer) (h : lexer.IsIn cs)
    {error : ParseError} (htokens : lexer.tokens = .error error) :
    ∃ c position, cs[position]? = some c ∧ error = .unexpectedCharacter c position := by
  induction hlength : lexer.rest.length using Nat.strongRecOn generalizing lexer with
  | ind length ih =>
      obtain ⟨start, -, -, ⟨-, hend⟩ | ⟨token, after, hnext, hne, -, -, -, hin⟩ |
        ⟨c, after, hget, herror, -⟩⟩ := next_cases h
      · rw [tokens_of_end hend rfl] at htokens
        cases htokens
      · rw [tokens_of_next hnext hne, map_eq_error_iff] at htokens
        exact ih _ (hlength ▸ length_rest_lt hnext hne) after hin htokens rfl
      · rw [tokens_of_error herror] at htokens
        cases htokens
        exact ⟨c, start, hget, rfl⟩

end Lexer

namespace Tiles

variable {cs : List Char} {place : Nat} {tokens : List Token}

theorem exists_front (h : Tiles cs place tokens) :
    ∃ front, tokens = front ++ [.eofAt cs.length] ∧
      ∀ token ∈ front, token.isEof = false ∧ token.StandsIn cs := by
  induction h with
  | eof => exact ⟨[], rfl, by simp⟩
  | @token _ token _ _ _ hne hstands _ ih =>
      obtain ⟨front, rfl, hfront⟩ := ih
      exact ⟨token :: front, rfl, List.forall_mem_cons.2 ⟨⟨hne, hstands⟩, hfront⟩⟩

theorem le_start (h : Tiles cs place tokens) : ∀ token ∈ tokens, place ≤ token.start := by
  induction h with
  | eof hle => simpa [Token.eofAt] using hle
  | token hle _ _ hstands _ ih =>
      refine List.forall_mem_cons.2 ⟨hle, fun token hmem => ?_⟩
      have hstop := ih token hmem
      have hlt := hstands.start_lt_stop
      omega

theorem pairwise (h : Tiles cs place tokens) :
    tokens.Pairwise fun first second => first.stop ≤ second.start := by
  induction h with
  | eof => exact List.pairwise_singleton _ _
  | token _ _ _ _ hrest ih => exact List.pairwise_cons.2 ⟨hrest.le_start, ih⟩

theorem pairwise_start (h : Tiles cs place tokens) :
    tokens.Pairwise fun first second => first.start < second.start := by
  induction h with
  | eof => exact List.pairwise_singleton _ _
  | token _ _ _ hstands hrest ih =>
      refine List.pairwise_cons.2 ⟨fun other hother => ?_, ih⟩
      exact Nat.lt_of_lt_of_le hstands.start_lt_stop (hrest.le_start other hother)

theorem isBlank_of_not_covers (h : Tiles cs place tokens) {position : Nat} {c : Char}
    (hplace : place ≤ position) (hget : cs[position]? = some c)
    (houtside : ∀ token ∈ tokens, ¬token.Covers position) : isBlank c = true := by
  induction h with
  | eof _ hblank =>
      exact hblank position c hplace (List.getElem?_eq_some_iff.1 hget).1 hget
  | @token _ token _ _ hblank _ _ _ ih =>
      obtain ⟨hfirst, hrest⟩ := List.forall_mem_cons.1 houtside
      by_cases hstart : position < token.start
      · exact hblank position c hplace hstart hget
      · have hstop : token.stop ≤ position := by
          apply Nat.le_of_not_lt
          exact fun hlt => hfirst ⟨Nat.le_of_not_lt hstart, hlt⟩
        exact ih hstop hrest

end Tiles

theorem tiles_of_tokenize {text : String} {tokens : List Token} (h : tokenize text = .ok tokens) :
    Tiles text.toList 0 tokens :=
  Lexer.tiles_of_tokens _ (Lexer.isIn_ofText text) h

/-- Nothing of a text is lost in its tokens and nothing is added: the end stands at the end of the
text and nowhere else, all other tokens have a stretch of the text, which is what they spell, they
stand in order and apart, and what belongs to none is blank. -/
theorem tokenize_covers {text : String} {tokens : List Token} (h : tokenize text = .ok tokens) :
    (∃ front, tokens = front ++ [.eofAt text.length] ∧
        ∀ token ∈ front, token.isEof = false ∧ token.start < token.stop ∧
          token.stop ≤ text.length ∧
            text.toList.extract token.start token.stop = token.text.toList) ∧
      (tokens.Pairwise fun first second => first.stop ≤ second.start) ∧
      ∀ position c, text.toList[position]? = some c →
        (∀ token ∈ tokens, ¬token.Covers position) → isBlank c = true := by
  have htiles := tiles_of_tokenize h
  refine ⟨?_, htiles.pairwise, fun position c => htiles.isBlank_of_not_covers (Nat.zero_le _)⟩
  obtain ⟨front, hsplit, hfront⟩ := htiles.exists_front
  rw [String.length_toList] at hsplit
  refine ⟨front, hsplit, fun token hmem => ?_⟩
  obtain ⟨hne, hstands⟩ := hfront token hmem
  have hstop := hstands.stop_le_length
  rw [String.length_toList] at hstop
  exact ⟨hne, hstands.start_lt_stop, hstop, hstands.extract_eq⟩

def sumText : String :=
  "π2 +.5e-3\u00a0x\n"

def sumTokens : List Token :=
  [⟨.name "π2", 0, 2⟩, ⟨.op .add, 3, 4⟩, ⟨.number ".5e-3", 4, 9⟩, ⟨.name "x", 10, 11⟩, .eofAt 12]

theorem tokenize_sumText : tokenize sumText = .ok sumTokens := by
  have hname : (Lexer.ofText sumText).next =
      (.ok ⟨.name "π2", 0, 2⟩, ⟨" +.5e-3\u00a0x\n".toList, 2⟩) := rfl
  have hsign : Lexer.next ⟨" +.5e-3\u00a0x\n".toList, 2⟩ =
      (.ok ⟨.op .add, 3, 4⟩, ⟨".5e-3\u00a0x\n".toList, 4⟩) := rfl
  have hnumber : Lexer.next ⟨".5e-3\u00a0x\n".toList, 4⟩ =
      (.ok ⟨.number ".5e-3", 4, 9⟩, ⟨"\u00a0x\n".toList, 9⟩) := rfl
  have hvariable : Lexer.next ⟨"\u00a0x\n".toList, 9⟩ =
      (.ok ⟨.name "x", 10, 11⟩, ⟨"\n".toList, 11⟩) := rfl
  have hend : Lexer.next ⟨"\n".toList, 11⟩ = (.ok (.eofAt 12), ⟨[], 12⟩) := rfl
  rw [tokenize, Lexer.tokens_of_next hname rfl, Lexer.tokens_of_next hsign rfl,
    Lexer.tokens_of_next hnumber rfl, Lexer.tokens_of_next hvariable rfl,
    Lexer.tokens_of_end hend rfl]
  rfl

/-- Between the number and the name there is a blank that is no ASCII character, and there is a line
break at the end. -/
theorem tokenize_covers_sum :
    tokenize sumText = .ok sumTokens ∧
      (∃ front, sumTokens = front ++ [.eofAt sumText.length] ∧
        ∀ token ∈ front, token.isEof = false ∧ token.start < token.stop ∧
          token.stop ≤ sumText.length ∧
            sumText.toList.extract token.start token.stop = token.text.toList) ∧
      (sumTokens.Pairwise fun first second => first.stop ≤ second.start) ∧
      ∀ position c, sumText.toList[position]? = some c →
        (∀ token ∈ sumTokens, ¬token.Covers position) → isBlank c = true :=
  ⟨tokenize_sumText, tokenize_covers tokenize_sumText⟩

end Secant
