import Secant.Proofs.Parser.Pairing

/-!
Where tokens stand makes no difference to how they are read. The same lexemes, standing at other
places, are read as the same tree or up to the same token, and the error met there is the same but
for the place it gives, which is that of the same token.
-/

namespace Secant

namespace ParseError

def moveTo (place : Nat) : ParseError → ParseError
  | unexpectedCharacter ch _ => unexpectedCharacter ch place
  | invalidNumber text _ => invalidNumber text place
  | unknownFunction name _ => unknownFunction name place
  | expected what found _ => expected what found place
  | unexpectedToken token _ => unexpectedToken token place
  | tooDeep limit _ => tooDeep limit place

end ParseError

namespace Parser

/-- The same lexemes, the last of them an end, which stand at places that `places` relates, each
token of the one list and the token with the same number of the other. -/
inductive Twins (places : Nat → Nat → Prop) : List Token → List Token → Prop
  | eof {start stop start' stop' : Nat} : places start start' →
      Twins places [⟨.eof, start, stop⟩] [⟨.eof, start', stop'⟩]
  | cons {lexeme : Lexeme} {start stop start' stop' : Nat} {rest rest' : List Token} :
      places start start' → Twins places rest rest' →
        Twins places (⟨lexeme, start, stop⟩ :: rest) (⟨lexeme, start', stop'⟩ :: rest')

/-- The same is read, and twins are left, or the same error is met, told of a related place. -/
inductive SameRead {α : Type} (places : Nat → Nat → Prop) :
    Except Failure (α × List Token) → Except Failure (α × List Token) → Prop
  | ok (a : α) {rest rest' : List Token} : Twins places rest rest' →
      SameRead places (.ok (a, rest)) (.ok (a, rest'))
  | error {error : ParseError} {place : Nat} {parser parser' : Parser} :
      places error.position place →
        SameRead places (.error ⟨error, parser⟩) (.error ⟨error.moveTo place, parser'⟩)

section

variable {places : Nat → Nat → Prop} {tokens tokens' rest rest' : List Token} {α β : Type}

/-! ### Twins -/

namespace Twins

theorem lexeme_eq (h : Twins places tokens tokens') :
    (current tokens').lexeme = (current tokens).lexeme := by
  cases h <;> rfl

theorem text_eq (h : Twins places tokens tokens') :
    (current tokens').text = (current tokens).text :=
  congrArg Lexeme.text h.lexeme_eq

theorem start (h : Twins places tokens tokens') :
    places (current tokens).start (current tokens').start := by
  cases h with
  | eof hplaces => exact hplaces
  | cons hplaces _ => exact hplaces

/-- Tokens of the same lexemes are twins by whatever holds of the places of two with one number. -/
theorem of_map_lexeme {phrase : List Lexeme} (h : tokens.map Token.lexeme = phrase ++ [.eof])
    (h' : tokens'.map Token.lexeme = phrase ++ [.eof])
    (hplaces : ∀ (index : Nat) (token token' : Token), tokens[index]? = some token →
      tokens'[index]? = some token' → places token.start token'.start) :
    Twins places tokens tokens' := by
  induction phrase generalizing tokens tokens' with
  | nil =>
      obtain ⟨⟨_, start, stop⟩, rest, rfl, rfl, hrest⟩ := List.map_eq_cons_iff.1 h
      obtain ⟨⟨_, start', stop'⟩, rest', rfl, rfl, hrest'⟩ := List.map_eq_cons_iff.1 h'
      obtain rfl := List.map_eq_nil_iff.1 hrest
      obtain rfl := List.map_eq_nil_iff.1 hrest'
      exact .eof (hplaces 0 _ _ rfl rfl)
  | cons lexeme phrase ih =>
      obtain ⟨⟨_, start, stop⟩, rest, rfl, rfl, hrest⟩ := List.map_eq_cons_iff.1 h
      obtain ⟨⟨_, start', stop'⟩, rest', rfl, rfl, hrest'⟩ := List.map_eq_cons_iff.1 h'
      have hbehind := ih hrest hrest' fun index => hplaces (index + 1)
      exact .cons (hplaces 0 _ _ rfl rfl) hbehind

theorem exists_cons {lexeme : Lexeme} (h : Twins places tokens tokens')
    (hlexeme : (current tokens).lexeme = lexeme) (hne : lexeme ≠ .eof) :
    ∃ start stop start' stop' rest rest', tokens = ⟨lexeme, start, stop⟩ :: rest ∧
      tokens' = ⟨lexeme, start', stop'⟩ :: rest' ∧ places start start' ∧
        Twins places rest rest' := by
  cases h with
  | eof => exact absurd hlexeme.symm hne
  | cons hplaces hrest =>
      cases hlexeme
      exact ⟨_, _, _, _, _, _, rfl, rfl, hplaces, hrest⟩

end Twins

/-! ### Readings of twins -/

/-- The same trees are read from twins, and errors are told of related places. -/
def twinned (places : Nat → Nat → Prop) : Pairing where
  tokens := Twins places
  trees := Eq
  failures failure failure' :=
    ∃ place, places failure.error.position place ∧ failure'.error = failure.error.moveTo place
  parts _ := False

theorem calls_twinned {start start' : Nat} (h : places start start') (name : String) :
    (twinned places).Calls name start name start' where
  isFunction_eq := rfl
  callNamed {args args'} hargs := by
    have heq : args = args' := by simpa [twinned] using hargs
    exact congrArg (Expr.callNamed name) heq
  unknown _ _ _ := ⟨start', h, rfl⟩
  unclosed _ hrest := ⟨_, hrest.start, by rw [notExpected, hrest.text_eq]; rfl⟩

theorem Twins.meets (h : Twins places tokens tokens') :
    (twinned places).Meets tokens tokens' := by
  cases h with
  | eof => exact .eof rfl rfl
  | @cons lexeme start stop start' stop' rest rest' hplaces hrest =>
      cases lexeme with
      | number text =>
          cases hvalue : Decimal.number? text with
          | some value => exact .number hvalue hvalue rfl hrest
          | none => exact .invalid hvalue hvalue fun _ => ⟨start', hplaces, rfl⟩
      | name name =>
          by_cases hparen : (current rest).lexeme = .leftParen
          · obtain ⟨_, _, _, _, _, _, rfl, rfl, -, hrest⟩ := hrest.exists_cons hparen (by simp)
            exact .call (calls_twinned hplaces name) hrest
          · exact .name hparen (by rwa [hrest.lexeme_eq]) rfl hrest
      | op | leftParen | rightParen | comma => exact .symbol trivial hrest
      | eof => exact .eof rfl rfl

theorem lawful_twinned (places : Nat → Nat → Prop) : (twinned places).Lawful where
  meets h := h.meets
  neg h := congrArg Expr.neg h
  binary op _ _ _ _ hleft hright := congrArg₂ (Expr.binary op) hleft hright
  tooDeep h := ⟨_, h.start, rfl⟩
  notExpected levels what h := ⟨_, h.start, by rw [notExpected, h.text_eq]; rfl⟩
  unexpected levels h _ := ⟨_, h.start, by rw [h.text_eq]; rfl⟩

theorem sameRead_wholly (levels : Nat) (h : Twins places tokens tokens') :
    SameRead places (wholly levels tokens) (wholly levels tokens') := by
  have hreads := (lawful_twinned places).wholly levels h
  generalize wholly levels tokens = read at hreads ⊢
  generalize wholly levels tokens' = read' at hreads ⊢
  cases hreads with
  | ok htrees hrest =>
      cases htrees
      exact .ok _ hrest
  | @error failure failure' hfailures =>
      obtain ⟨_, parser⟩ := failure
      obtain ⟨_, parser'⟩ := failure'
      obtain ⟨place, hplaces, rfl⟩ := hfailures
      exact .error hplaces
  | parted hparts => exact hparts.elim

/-- The parser answers with the same tree or with the same error, told of the same token. -/
theorem Twins.parse (levels : Nat) (h : Twins places tokens tokens') :
    (∃ e, (Parser.parse ⟨tokens, levels⟩).1 = .ok e ∧ (Parser.parse ⟨tokens', levels⟩).1 = .ok e) ∨
      ∃ (error : ParseError) (place : Nat), places error.position place ∧
        (Parser.parse ⟨tokens, levels⟩).1 = .error error ∧
          (Parser.parse ⟨tokens', levels⟩).1 = .error (error.moveTo place) := by
  have hread := sameRead_wholly levels h
  rw [parse_fst, parse_fst]
  generalize wholly levels tokens = read at hread ⊢
  generalize wholly levels tokens' = read' at hread ⊢
  cases hread with
  | ok e => exact .inl ⟨e, rfl, rfl⟩
  | error hplaces => exact .inr ⟨_, _, hplaces, rfl, rfl⟩

end

end Parser

end Secant
