import Secant.Proofs.Parser.Completeness
import Secant.Proofs.Parser.Soundness

/-!
What is read as an expression: exactly the sentences of the grammar that go down no more levels than
there are. Both readings of a sentence would be answers of one run of the parser, so a sentence
stands for one tree only, and goes down one number of levels.
-/

namespace Secant

/-- What stands before the first end. -/
def Token.sentence (tokens : List Token) : List Lexeme :=
  (tokens.takeWhile fun token => !token.isEof).map Token.lexeme

theorem Token.exists_of_mem_sentence {tokens : List Token} {lexeme : Lexeme}
    (h : lexeme ∈ Token.sentence tokens) :
    ∃ token ∈ tokens, token.isEof = false ∧ token.lexeme = lexeme := by
  obtain ⟨token, hmem, hlexeme⟩ := List.mem_map.1 h
  have hend := List.all_eq_true.1 List.all_takeWhile token hmem
  exact ⟨token, (List.takeWhile_sublist _).subset hmem, by simpa using hend, hlexeme⟩

theorem Token.sentence_eq {tokens : List Token} {phrase behind : List Lexeme}
    (h : tokens.map Token.lexeme = phrase ++ .eof :: behind) (hphrase : .eof ∉ phrase) :
    Token.sentence tokens = phrase := by
  induction phrase generalizing tokens with
  | nil =>
      obtain ⟨eof, rest, rfl, heof, -⟩ := List.map_eq_cons_iff.1 h
      simp [Token.sentence, Token.isEof, heof]
  | cons first phrase ih =>
      obtain ⟨token, rest, rfl, rfl, hrest⟩ := List.map_eq_cons_iff.1 h
      obtain ⟨hfirst, hphrase⟩ := not_or.1 (mt List.mem_cons.2 hphrase)
      have hnot : token.isEof = false := by simpa [Token.isEof] using Ne.symm hfirst
      have ih := ih hrest hphrase
      rw [Token.sentence] at ih ⊢
      simp [hnot, ih]

namespace Grammar

open Secant.Parser

theorem Sentence.eof_notMem {phrase : List Lexeme} {e : Expr} {needed : Nat}
    (h : Sentence phrase e needed) : .eof ∉ phrase := by
  obtain ⟨_, h⟩ := h
  exact h.eof_notMem

/-- A sentence is read up to what ends it, if the levels suffice, and is too deep if they do not. -/
theorem Sentence.takes {phrase : List Lexeme} {e : Expr} {needed : Nat}
    (h : Sentence phrase e needed) {tokens rest : List Token} (levels : Nat)
    (htokens : tokens.map Token.lexeme = phrase) (hrest : Ends 1 rest) :
    Takes needed levels (.ok (e, rest)) (expression levels (tokens ++ rest)) := by
  obtain ⟨_, h⟩ := h
  exact (h.takes levels htokens hrest.succ).of_moreTerms hrest

/-- The grammar is not ambiguous. -/
theorem Sentence.unique {phrase : List Lexeme} {e e' : Expr} {needed needed' : Nat}
    (h : Sentence phrase e needed) (h' : Sentence phrase e' needed') :
    e' = e ∧ needed' = needed := by
  let tokens : List Token := phrase.map fun lexeme => ⟨lexeme, 0, 0⟩
  have htokens : tokens.map Token.lexeme = phrase := by simp [tokens, Function.comp_def]
  have hend : Ends 1 [] := Nat.zero_lt_one
  have hread levels := h.takes levels htokens hend
  have hread' levels := h'.takes levels htokens hend
  -- Each sentence is read at the levels of the other, so neither needs more than the other does.
  have hok := (hread needed).enough (Nat.le_refl _)
  have hle := (hread' needed).le_of_ok hok
  have hge := (hread needed').le_of_ok ((hread' needed').enough (Nat.le_refl _))
  rw [(hread' needed).enough hle] at hok
  cases hok
  exact ⟨rfl, Nat.le_antisymm hle hge⟩

end Grammar

namespace Parser

open Grammar

theorem exists_eof_of_mem {tokens : List Token} (h : ∃ token ∈ tokens, token.isEof = true) :
    ∃ eof behind, eof.isEof = true ∧
      tokens = (tokens.takeWhile fun token => !token.isEof) ++ eof :: behind := by
  induction tokens with
  | nil => simp at h
  | cons first rest ih =>
      by_cases hfirst : first.isEof = true
      · exact ⟨first, rest, hfirst, by simp [hfirst]⟩
      · obtain ⟨token, hmem, htoken⟩ := h
        rcases List.mem_cons.1 hmem with rfl | hmem
        · exact absurd htoken hfirst
        · obtain ⟨eof, behind, heof, hrest⟩ := ih ⟨token, hmem, htoken⟩
          exact ⟨eof, behind, heof, by simpa [hfirst] using hrest⟩

theorem takeWhile_append_eofAt (tokens : List Token) (place : Nat) :
    ((tokens ++ [Token.eofAt place]).takeWhile fun token => !token.isEof) =
      tokens.takeWhile fun token => !token.isEof := by
  induction tokens with
  | nil => rfl
  | cons first rest ih => simp [List.takeWhile_cons, ih]

theorem exists_rest_ofTokens (tokens : List Token) :
    ∃ eof behind, eof.isEof = true ∧
      (ofTokens tokens).rest = (tokens.takeWhile fun token => !token.isEof) ++ eof :: behind := by
  unfold ofTokens
  split
  · rename_i hlast
    rw [List.getLast?_eq_none_iff] at hlast
    subst hlast
    exact ⟨.eofAt 0, [], rfl, rfl⟩
  · rename_i last hlast
    split
    · rename_i heof
      exact exists_eof_of_mem ⟨last, List.mem_of_getLast? hlast, heof⟩
    · have hmem : ∃ token ∈ tokens ++ [.eofAt last.stop], token.isEof = true :=
        ⟨.eofAt last.stop, by simp, rfl⟩
      obtain ⟨eof, behind, heof, hsplit⟩ := exists_eof_of_mem hmem
      rw [takeWhile_append_eofAt] at hsplit
      exact ⟨eof, behind, heof, hsplit⟩

theorem exists_ofTokens_append (front : List Token) (token : Token) (tokens : List Token) :
    ∃ other, ofTokens (front ++ token :: tokens) = ⟨front ++ token :: other, maxLevels⟩ := by
  unfold ofTokens
  split
  · rename_i hlast
    simp at hlast
  · rename_i last hlast
    split
    · exact ⟨tokens, rfl⟩
    · exact ⟨tokens ++ [.eofAt last.stop], by simp⟩

theorem isEof_eq_false_of_notMem {phrase : List Token} (h : .eof ∉ phrase.map Token.lexeme) :
    ∀ token ∈ phrase, token.isEof = false := by
  intro token hmem
  have hne : token.lexeme ≠ .eof := fun heq => h (heq ▸ List.mem_map_of_mem hmem)
  simp [Token.isEof, hne]

/-- Where an end stands behind a phrase that holds none, it is the first. -/
theorem phrase_eq_of_append_eq {before behind phrase rest : List Token} {eof : Token}
    (hbefore : ∀ token ∈ before, token.isEof = false) (heof : eof.isEof = true)
    (hphrase : ∀ token ∈ phrase, token.isEof = false) (hrest : (current rest).isEof = true)
    (h : before ++ eof :: behind = phrase ++ rest) : phrase = before := by
  -- Of the two, the longer would hold the end that comes behind the shorter.
  rcases List.append_eq_append_iff.1 h with ⟨middle, rfl, hmiddle⟩ | ⟨middle, rfl, rfl⟩
  · cases middle with
    | nil => simp
    | cons token middle =>
        cases hmiddle
        rw [hphrase eof (by simp)] at heof
        cases heof
  · cases middle with
    | nil => simp
    | cons token middle =>
        have hfirst := hbefore token (by simp)
        simp [current, hfirst] at hrest

end Parser

namespace Expr

open Grammar

theorem exists_tokens_of_ofText {text : String} {e : Expr} (h : ofText text = .ok e) :
    ∃ tokens, tokenize text = .ok tokens ∧ ofTokens tokens = .ok e :=
  bind_eq_ok_iff.1 h

theorem levels_ofTokens (tokens : List Token) :
    (Parser.ofTokens tokens).levels = Parser.maxLevels := by
  unfold Parser.ofTokens
  split <;> rfl

theorem exists_sentence_of_ofTokens {tokens : List Token} {e : Expr} (h : ofTokens tokens = .ok e) :
    ∃ needed ≤ Parser.maxLevels, Sentence (Token.sentence tokens) e needed := by
  obtain ⟨eof, behind, heof, hrest⟩ := Parser.exists_rest_ofTokens tokens
  unfold ofTokens Parser.parse at h
  rw [hrest, levels_ofTokens] at h
  split at h
  · cases h
  · rename_i rest hread
    split at h
    · rename_i hend
      cases h
      obtain ⟨phrase, needed, hsplit, hphrase, hneeded⟩ := Parser.expression_sound _ _ hread
      have hbefore : ∀ token ∈ tokens.takeWhile fun token => !token.isEof,
          token.isEof = false := by
        intro token hmem
        simpa using List.all_eq_true.1 List.all_takeWhile token hmem
      have hnone := Parser.isEof_eq_false_of_notMem hphrase.eof_notMem
      obtain rfl := Parser.phrase_eq_of_append_eq hbefore heof hnone hend hsplit
      exact ⟨needed, hneeded, hphrase⟩
    · cases h

/-- A parser at the front of a sentence takes all of it, up to the first end. -/
theorem exists_takes_of_sentence {tokens : List Token} {e : Expr} {needed : Nat}
    (h : Sentence (Token.sentence tokens) e needed) :
    ∃ eof behind, eof.isEof = true ∧
      Parser.Takes needed Parser.maxLevels (.ok (e, eof :: behind))
        (Parser.expression (Parser.ofTokens tokens).levels (Parser.ofTokens tokens).rest) := by
  obtain ⟨eof, behind, heof, hrest⟩ := Parser.exists_rest_ofTokens tokens
  have hpull : Parser.pull eof.lexeme = 0 := by
    have hlexeme : eof.lexeme = .eof := by simpa [Token.isEof] using heof
    rw [hlexeme]
    rfl
  rw [hrest, levels_ofTokens]
  exact ⟨eof, behind, heof,
    h.takes Parser.maxLevels rfl (Parser.ends_of_pull_eq_zero hpull behind)⟩

theorem ofTokens_of_sentence {tokens : List Token} {e : Expr} {needed : Nat}
    (h : Sentence (Token.sentence tokens) e needed) (hneeded : needed ≤ Parser.maxLevels) :
    ofTokens tokens = .ok e := by
  obtain ⟨eof, behind, heof, hread⟩ := exists_takes_of_sentence h
  unfold ofTokens Parser.parse
  rw [hread.enough hneeded]
  simp [Parser.current, heof]

theorem exists_tooDeep_of_sentence {tokens : List Token} {e : Expr} {needed : Nat}
    (h : Sentence (Token.sentence tokens) e needed) (hneeded : Parser.maxLevels < needed) :
    ∃ position, ofTokens tokens = .error (.tooDeep Parser.maxLevels position) := by
  obtain ⟨eof, behind, heof, hread⟩ := exists_takes_of_sentence h
  obtain ⟨position, parser, hshort⟩ := hread.short hneeded
  refine ⟨position, ?_⟩
  unfold ofTokens Parser.parse
  rw [hshort]

/-- Tokens are read as a tree exactly if what stands before their first end is a sentence that goes
down no more levels than there are. The tree is then the only one that the sentence stands for. -/
theorem ofTokens_eq_ok_iff (tokens : List Token) (e : Expr) :
    ofTokens tokens = .ok e ↔
      ∃ needed ≤ Parser.maxLevels, Sentence (Token.sentence tokens) e needed ∧
        ∀ e' needed', Sentence (Token.sentence tokens) e' needed' → e' = e ∧ needed' = needed := by
  constructor
  · intro h
    obtain ⟨needed, hneeded, hsentence⟩ := exists_sentence_of_ofTokens h
    exact ⟨needed, hneeded, hsentence, fun e' needed' h' => hsentence.unique h'⟩
  · rintro ⟨needed, hneeded, hsentence, -⟩
    exact ofTokens_of_sentence hsentence hneeded

end Expr

end Secant
