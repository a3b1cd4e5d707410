import Secant.Expr.Parser
import Secant.Proofs.Except
import Secant.Proofs.Grammar

/-!
Only sentences are read. Whatever a phrase of the parser takes off the front of the tokens is a
phrase of the grammar that stands for the tree it returns, and goes down no more levels than it was
given.
-/

namespace Secant.Parser

open Grammar

theorem exists_of_closeParen {levels : Nat} {what : String} {tokens rest : List Token}
    (h : closeParen levels what tokens = .ok rest) :
    ∃ start stop, tokens = ⟨.rightParen, start, stop⟩ :: rest := by
  unfold closeParen at h
  split at h
  · cases h
    exact ⟨_, _, rfl⟩
  · cases h

/-- The tokens begin with a phrase of some kind that goes down at most `levels` levels, and go on
with `rest`. -/
def Begins (kind : List Lexeme → Nat → Prop) (levels : Nat) (tokens rest : List Token) : Prop :=
  ∃ phrase needed, tokens = phrase ++ rest ∧ kind (phrase.map Token.lexeme) needed ∧ needed ≤ levels

theorem moreItems_sound {item : List Token → Except Failure (Expr × List Token)} {levels : Nat}
    (hitem : ∀ {tokens e rest}, item tokens = .ok (e, rest) →
      Begins (Sentence · e ·) levels tokens rest)
    {count : Nat} {first : List Lexeme} {e : Expr} {needed : Nat} (hfirst : Sentence first e needed)
    (hneeded : needed ≤ levels) {tokens rest : List Token} {args : List Expr}
    (h : moreItems item count tokens = .ok (args, rest)) :
    Begins (fun phrase needed => Items (first ++ phrase) (e :: args) needed)
      levels tokens rest := by
  -- There is no list of no items, so the item before the comma goes along as the first.
  induction count generalizing first e needed tokens args with
  | zero =>
      cases h
      obtain ⟨_, hfirst⟩ := hfirst
      exact ⟨[], needed, rfl, by simpa using .last hfirst, hneeded⟩
  | succ count ih =>
      rw [moreItems.eq_def] at h
      split at h
      · rename_i start stop behind heq
        cases heq
        obtain ⟨⟨next, middle⟩, hnext, hbehind⟩ := bind_eq_ok_iff.1 h
        obtain ⟨⟨others, rest⟩, hmore, hdone⟩ := bind_eq_ok_iff.1 hbehind
        cases hdone
        obtain ⟨phrase, below, rfl, hphrase, hbelow⟩ := hitem hnext
        obtain ⟨more, deepest, rfl, hitems, hdeepest⟩ := ih hphrase hbelow hmore
        obtain ⟨_, hfirst⟩ := hfirst
        refine ⟨⟨.comma, start, stop⟩ :: (phrase ++ more), max needed deepest, ?_, ?_, ?_⟩
        · rw [List.cons_append, List.append_assoc]
        · simpa using Items.cons hfirst hitems
        · omega
      · cases h
        obtain ⟨_, hfirst⟩ := hfirst
        exact ⟨[], needed, rfl, by simpa using .last hfirst, hneeded⟩

mutual

theorem expression_sound (levels : Nat) (tokens : List Token) {e : Expr} {rest : List Token}
    (h : expression levels tokens = .ok (e, rest)) :
    Begins (Sentence · e ·) levels tokens rest := by
  rw [expression] at h
  obtain ⟨⟨left, middle⟩, hterm, hmore⟩ := bind_eq_ok_iff.1 h
  obtain ⟨first, needed, rfl, ⟨marks, hfirst⟩, hneeded⟩ := term_sound levels tokens hterm
  obtain ⟨phrase, deepest, rfl, hphrase, hdeepest⟩ :=
    moreTerms_sound levels middle (.single hfirst) (by omega) hmore
  exact ⟨first ++ phrase, deepest, by simp, by simpa using hphrase, by omega⟩
termination_by 8 * levels + 6

theorem moreTerms_sound (levels : Nat) (tokens : List Token) {first : List Lexeme}
    {left e : Expr} {signs needed : Nat} {rest : List Token}
    (hfirst : Expression first left signs needed) (hneeded : needed ≤ signs + levels)
    (h : moreTerms levels left tokens = .ok (e, rest)) :
    Begins (fun phrase needed => Sentence (first ++ phrase) e needed) (signs + levels) tokens
      rest := by
  have hnone : Begins (fun phrase needed => Sentence (first ++ phrase) left needed)
      (signs + levels) tokens tokens :=
    ⟨[], needed, rfl, by simpa using ⟨signs, hfirst⟩, hneeded⟩
  rw [moreTerms.eq_def] at h
  split at h
  · rename_i sign start stop behind
    split at h
    · rename_i hsign
      split at h
      · cases h
      · rename_i inner
        obtain ⟨⟨right, middle⟩, hterm, hmore⟩ := bind_eq_ok_iff.1 h
        obtain ⟨next, below, rfl, ⟨marks, hnext⟩, hbelow⟩ := term_sound inner behind hterm
        -- The chain with one more term is the left operand of the signs still to come.
        obtain ⟨phrase, deepest, rfl, hphrase, hdeepest⟩ :=
          moreTerms_sound inner middle (.join hfirst hsign hnext) (by omega) hmore
        exact ⟨⟨.op sign, start, stop⟩ :: (next ++ phrase), deepest, by simp,
          by simpa using hphrase, by omega⟩
    · cases h
      exact hnone
  · cases h
    exact hnone
termination_by 8 * levels

theorem term_sound (levels : Nat) (tokens : List Token) {e : Expr} {rest : List Token}
    (h : term levels tokens = .ok (e, rest)) :
    Begins (fun phrase needed => ∃ marks, Term phrase e marks needed) levels tokens rest := by
  rw [term] at h
  obtain ⟨⟨left, middle⟩, hpower, hmore⟩ := bind_eq_ok_iff.1 h
  obtain ⟨first, needed, rfl, hfirst, hneeded⟩ := power_sound levels tokens hpower
  obtain ⟨phrase, deepest, rfl, hphrase, hdeepest⟩ :=
    moreFactors_sound levels middle (.single hfirst) (by omega) hmore
  exact ⟨first ++ phrase, deepest, by simp, by simpa using hphrase, by omega⟩
termination_by 8 * levels + 5

theorem moreFactors_sound (levels : Nat) (tokens : List Token) {first : List Lexeme}
    {left e : Expr} {marks needed : Nat} {rest : List Token}
    (hfirst : Term first left marks needed) (hneeded : needed ≤ marks + levels)
    (h : moreFactors levels left tokens = .ok (e, rest)) :
    Begins (fun phrase needed => ∃ marks, Term (first ++ phrase) e marks needed) (marks + levels)
      tokens rest := by
  have hnone : Begins (fun phrase needed => ∃ marks, Term (first ++ phrase) left marks needed)
      (marks + levels) tokens tokens :=
    ⟨[], needed, rfl, by simpa using ⟨marks, hfirst⟩, hneeded⟩
  rw [moreFactors.eq_def] at h
  split at h
  · rename_i sign start stop behind
    split at h
    · rename_i hsign
      split at h
      · cases h
      · rename_i inner
        obtain ⟨⟨right, middle⟩, hpower, hmore⟩ := bind_eq_ok_iff.1 h
        obtain ⟨next, below, rfl, hnext, hbelow⟩ := power_sound inner behind hpower
        obtain ⟨phrase, deepest, rfl, hphrase, hdeepest⟩ :=
          moreFactors_sound inner middle (.join hfirst hsign hnext) (by omega) hmore
        exact ⟨⟨.op sign, start, stop⟩ :: (next ++ phrase), deepest, by simp,
          by simpa using hphrase, by omega⟩
    · cases h
      exact hnone
  · cases h
    exact hnone
termination_by 8 * levels

theorem power_sound (levels : Nat) (tokens : List Token) {e : Expr} {rest : List Token}
    (h : power levels tokens = .ok (e, rest)) : Begins (Power · e ·) levels tokens rest := by
  rw [power] at h
  obtain ⟨⟨base, middle⟩, hunary, hmiddle⟩ := bind_eq_ok_iff.1 h
  obtain ⟨first, needed, rfl, hfirst, hneeded⟩ := unary_sound levels tokens hunary
  dsimp only at hmiddle
  split at hmiddle
  · rename_i start stop behind
    split at hmiddle
    · cases hmiddle
    · rename_i inner
      obtain ⟨⟨exponent, middle⟩, hpower, hdone⟩ := bind_eq_ok_iff.1 hmiddle
      cases hdone
      obtain ⟨next, below, rfl, hnext, hbelow⟩ := power_sound inner behind hpower
      exact ⟨first ++ ⟨.op .pow, start, stop⟩ :: next, max needed (below + 1), by simp,
        by simpa using .raise hfirst hnext, by omega⟩
  · cases hmiddle
    exact ⟨first, needed, rfl, .base hfirst, hneeded⟩
termination_by 8 * levels + 4

theorem unary_sound (levels : Nat) (tokens : List Token) {e : Expr} {rest : List Token}
    (h : unary levels tokens = .ok (e, rest)) : Begins (Unary · e ·) levels tokens rest := by
  rw [unary.eq_def] at h
  split at h
  · rename_i start stop behind
    split at h
    · cases h
    · rename_i inner
      obtain ⟨phrase, needed, rfl, hphrase, hneeded⟩ := unary_sound inner behind h
      exact ⟨⟨.op .add, start, stop⟩ :: phrase, needed + 1, rfl, .plus hphrase, by omega⟩
  · rename_i start stop behind
    split at h
    · cases h
    · rename_i inner
      obtain ⟨⟨operand, middle⟩, hunary, hdone⟩ := bind_eq_ok_iff.1 h
      cases hdone
      obtain ⟨phrase, needed, rfl, hphrase, hneeded⟩ := unary_sound inner behind hunary
      exact ⟨⟨.op .sub, start, stop⟩ :: phrase, needed + 1, rfl, .minus hphrase, by omega⟩
  · obtain ⟨phrase, needed, rfl, hphrase, hneeded⟩ := primary_sound levels tokens h
    exact ⟨phrase, needed, rfl, .primary hphrase, hneeded⟩
termination_by 8 * levels + 3

theorem primary_sound (levels : Nat) (tokens : List Token) {e : Expr} {rest : List Token}
    (h : primary levels tokens = .ok (e, rest)) : Begins (Primary · e ·) levels tokens rest := by
  rw [primary.eq_def] at h
  split at h
  · rename_i text start stop behind
    split at h
    · rename_i value hvalue
      cases h
      exact ⟨[⟨.number text, start, stop⟩], 0, rfl, .number hvalue, Nat.zero_le _⟩
    · cases h
  · rename_i name start stop start' stop' behind
    split at h
    · cases h
    · rename_i inner
      obtain ⟨phrase, needed, rfl, ⟨inside, args, hinside, hargs, hfunction, rfl⟩, hneeded⟩ :=
        call_sound inner name start behind h
      refine ⟨⟨.name name, start, stop⟩ :: ⟨.leftParen, start', stop'⟩ :: phrase, needed + 1,
        by simp, ?_, by omega⟩
      simpa [hinside] using Primary.call hargs hfunction
  · rename_i name start stop behind _
    split at h
    · rename_i value hvalue
      cases h
      exact ⟨[⟨.name name, start, stop⟩], 0, rfl, .constant hvalue, Nat.zero_le _⟩
    · rename_i hvalue
      cases h
      exact ⟨[⟨.name name, start, stop⟩], 0, rfl, .var hvalue, Nat.zero_le _⟩
  · rename_i start stop behind
    split at h
    · cases h
    · rename_i inner
      obtain ⟨⟨body, middle⟩, hbody, hbehind⟩ := bind_eq_ok_iff.1 h
      obtain ⟨after, hclose, hdone⟩ := bind_eq_ok_iff.1 hbehind
      cases hdone
      obtain ⟨phrase, needed, rfl, ⟨signs, hphrase⟩, hneeded⟩ := expression_sound inner behind hbody
      obtain ⟨start', stop', rfl⟩ := exists_of_closeParen hclose
      exact ⟨⟨.leftParen, start, stop⟩ :: (phrase ++ [⟨.rightParen, start', stop'⟩]), needed + 1,
        by simp, by simpa using .paren hphrase, by omega⟩
  · cases h
termination_by 8 * levels + 2

theorem call_sound (levels : Nat) (name : String) (start : Nat) (tokens : List Token) {e : Expr}
    {rest : List Token} (h : call levels name start tokens = .ok (e, rest)) :
    Begins (fun phrase needed => ∃ inside args, phrase = inside ++ [.rightParen] ∧
      Arguments inside args needed ∧ Builtin.isFunction (Text.lower name) = true ∧
        e = .callNamed name args) levels tokens rest := by
  rw [call] at h
  obtain ⟨⟨args, middle⟩, hargs, hbehind⟩ := bind_eq_ok_iff.1 h
  obtain ⟨after, hclose, hdone⟩ := bind_eq_ok_iff.1 hbehind
  obtain ⟨phrase, needed, rfl, hphrase, hneeded⟩ := arguments_sound levels tokens hargs
  obtain ⟨start', stop', rfl⟩ := exists_of_closeParen hclose
  split at hdone
  · rename_i hfunction
    cases hdone
    exact ⟨phrase ++ [⟨.rightParen, start', stop'⟩], needed, by simp,
      ⟨_, args, by simp, hphrase, hfunction, rfl⟩, hneeded⟩
  · cases hdone
termination_by 8 * levels + 8

theorem arguments_sound (levels : Nat) (tokens : List Token) {args : List Expr}
    {rest : List Token} (h : arguments levels tokens = .ok (args, rest)) :
    Begins (Arguments · args ·) levels tokens rest := by
  rw [arguments.eq_def] at h
  split at h
  · cases h
    exact ⟨[], 0, rfl, .none, Nat.zero_le _⟩
  · obtain ⟨⟨e, middle⟩, hfirst, hbehind⟩ := bind_eq_ok_iff.1 h
    obtain ⟨⟨others, after⟩, hmore, hdone⟩ := bind_eq_ok_iff.1 hbehind
    cases hdone
    obtain ⟨first, needed, rfl, hphrase, hneeded⟩ := expression_sound levels tokens hfirst
    obtain ⟨phrase, deepest, rfl, hitems, hdeepest⟩ :=
      moreItems_sound (expression_sound levels _) hphrase hneeded hmore
    exact ⟨first ++ phrase, deepest, by simp, by simpa using .some hitems, hdeepest⟩
termination_by 8 * levels + 7

end

end Secant.Parser
