import Mathlib.Data.List.Forall2
import Secant.Proofs.Parser.Locality

/-!
Two readings side by side. Where the tokens on both sides are of the same kinds, the parser takes
the same steps on both, so that what it reads is related as the tokens are, and so are the failures
it meets. Only numbers may tell the two apart, since whether a text is a number shows when it is
read: from a token on that is none on the second side, nothing more is asked of the first.
-/

namespace Secant

/-- A lexeme that is always spelled the same, but for the end. -/
def Lexeme.IsSymbol : Lexeme → Prop
  | op _ | leftParen | rightParen | comma => True
  | number _ | name _ | eof => False

namespace Parser

/-- What is to hold between two readings. -/
structure Pairing where
  tokens : List Token → List Token → Prop
  trees : Expr → Expr → Prop
  failures : Failure → Failure → Prop
  /-- A failure at which the second reading parts from the first. -/
  parts : Failure → Prop

namespace Pairing

variable (P : Pairing)

/-- Calls by the two names, with arguments that are related, come to related trees or failures. -/
structure Calls (name : String) (start : Nat) (other : String) (start' : Nat) : Prop where
  isFunction_eq : Builtin.isFunction (Text.lower other) = Builtin.isFunction (Text.lower name)
  callNamed : ∀ {args args' : List Expr}, List.Forall₂ P.trees args args' →
    P.trees (.callNamed name args) (.callNamed other args')
  unknown : ∀ {rest rest' : List Token} (levels : Nat), P.tokens rest rest' →
    Builtin.isFunction (Text.lower name) = false →
      P.failures ⟨.unknownFunction name start, ⟨rest, levels⟩⟩
        ⟨.unknownFunction other start', ⟨rest', levels⟩⟩
  unclosed : ∀ {rest rest' : List Token} (levels : Nat), P.tokens rest rest' →
    P.failures (notExpected levels s!"')' after arguments of {name}" rest)
      (notExpected levels s!"')' after arguments of {other}" rest')

/-- What may stand at the front on both sides. -/
inductive Meets : List Token → List Token → Prop
  | eof {tokens tokens' : List Token} :
      (current tokens).lexeme = .eof → (current tokens').lexeme = .eof → Meets tokens tokens'
  | symbol {lexeme : Lexeme} {start stop start' stop' : Nat} {rest rest' : List Token} :
      lexeme.IsSymbol → P.tokens rest rest' →
        Meets (⟨lexeme, start, stop⟩ :: rest) (⟨lexeme, start', stop'⟩ :: rest')
  | number {text text' : String} {value value' : Float} {start stop start' stop' : Nat}
      {rest rest' : List Token} :
      Decimal.number? text = some value → Decimal.number? text' = some value' →
        P.trees (.number value) (.number value') → P.tokens rest rest' →
          Meets (⟨.number text, start, stop⟩ :: rest) (⟨.number text', start', stop'⟩ :: rest')
  | invalid {text text' : String} {start stop start' stop' : Nat} {rest rest' : List Token} :
      Decimal.number? text = none → Decimal.number? text' = none →
        (∀ levels, P.failures ⟨.invalidNumber text start, ⟨rest, levels⟩⟩
          ⟨.invalidNumber text' start', ⟨rest', levels⟩⟩) →
          Meets (⟨.number text, start, stop⟩ :: rest) (⟨.number text', start', stop'⟩ :: rest')
  | parting {text text' : String} {start stop start' stop' : Nat} {rest rest' : List Token} :
      Decimal.number? text' = none →
        (∀ levels, P.parts ⟨.invalidNumber text' start', ⟨rest', levels⟩⟩) →
          Meets (⟨.number text, start, stop⟩ :: rest) (⟨.number text', start', stop'⟩ :: rest')
  | name {name name' : String} {start stop start' stop' : Nat} {rest rest' : List Token} :
      (current rest).lexeme ≠ .leftParen → (current rest').lexeme ≠ .leftParen →
        P.trees (named name) (named name') → P.tokens rest rest' →
          Meets (⟨.name name, start, stop⟩ :: rest) (⟨.name name', start', stop'⟩ :: rest')
  | call {name name' : String} {start stop start' stop' opened closed opened' closed' : Nat}
      {rest rest' : List Token} :
      P.Calls name start name' start' → P.tokens rest rest' →
        Meets (⟨.name name, start, stop⟩ :: ⟨.leftParen, opened, closed⟩ :: rest)
          (⟨.name name', start', stop'⟩ :: ⟨.leftParen, opened', closed'⟩ :: rest')

/-- What a pairing has to keep up for single tokens and single nodes, so that the parser keeps it up
throughout. -/
structure Lawful : Prop where
  meets : ∀ {tokens tokens' : List Token}, P.tokens tokens tokens' → P.Meets tokens tokens'
  neg : ∀ {e e' : Expr}, P.trees e e' → P.trees (.neg e) (.neg e')
  binary : ∀ (op : Op) {left left' right right' : Expr}, P.trees left left' →
    P.trees right right' → P.trees (.binary op left right) (.binary op left' right')
  tooDeep : ∀ {rest rest' : List Token}, P.tokens rest rest' →
    P.failures (Parser.tooDeep rest) (Parser.tooDeep rest')
  notExpected : ∀ {rest rest' : List Token} (levels : Nat) (what : String), P.tokens rest rest' →
    P.failures (Parser.notExpected levels what rest) (Parser.notExpected levels what rest')
  unexpected : ∀ {tokens tokens' : List Token} (levels : Nat), P.tokens tokens tokens' →
    (∀ name, (current tokens).lexeme ≠ .name name) →
      P.failures ⟨.unexpectedToken (current tokens).text (current tokens).start, ⟨tokens, levels⟩⟩
        ⟨.unexpectedToken (current tokens').text (current tokens').start, ⟨tokens', levels⟩⟩

/-- What two readings come to: things of these kinds, or failures, or the second has parted. -/
inductive Reads {α : Type} (values : α → α → Prop) :
    Except Failure (α × List Token) → Except Failure (α × List Token) → Prop
  | ok {a a' : α} {rest rest' : List Token} : values a a' → P.tokens rest rest' →
      Reads values (.ok (a, rest)) (.ok (a', rest'))
  | error {failure failure' : Failure} : P.failures failure failure' →
      Reads values (.error failure) (.error failure')
  | parted {read : Except Failure (α × List Token)} {failure' : Failure} : P.parts failure' →
      Reads values read (.error failure')

section

variable {P : Pairing} {tokens tokens' rest rest' : List Token} {α β : Type} {levels : Nat}
  {values : α → α → Prop} {others : β → β → Prop}

/-! ### Tokens on both sides -/

theorem Meets.lexeme_ne (h : P.Meets tokens tokens') {lexeme : Lexeme}
    (hne : (current tokens).lexeme ≠ lexeme) (hsymbol : lexeme.IsSymbol) :
    (current tokens').lexeme ≠ lexeme := by
  cases h with
  | symbol => exact hne
  | eof hend hend' => rwa [hend', ← hend]
  | number | invalid | parting | name | call =>
      rintro rfl
      exact hsymbol

theorem Meets.isEof_eq (h : P.Meets tokens tokens') :
    (current tokens').isEof = (current tokens).isEof := by
  cases h with
  | eof hend hend' => rw [Token.isEof, Token.isEof, hend, hend']
  | symbol | number | invalid | parting | name | call => rfl

theorem Meets.exists_cons (h : P.Meets tokens tokens') {lexeme : Lexeme}
    (hlexeme : (current tokens).lexeme = lexeme) (hsymbol : lexeme.IsSymbol) :
    ∃ start stop start' stop' rest rest', tokens = ⟨lexeme, start, stop⟩ :: rest ∧
      tokens' = ⟨lexeme, start', stop'⟩ :: rest' ∧ P.tokens rest rest' := by
  subst hlexeme
  cases h with
  | symbol _ hrest => exact ⟨_, _, _, _, _, _, rfl, rfl, hrest⟩
  | eof hend =>
      rw [hend] at hsymbol
      exact hsymbol.elim
  | number | invalid | parting | name | call => exact hsymbol.elim

/-! ### How readings are put together -/

theorem Reads.bind {first first' : Except Failure (α × List Token)}
    {second second' : α × List Token → Except Failure (β × List Token)}
    (h : P.Reads values first first')
    (hsecond : ∀ a a' rest rest', values a a' → P.tokens rest rest' →
      P.Reads others (second (a, rest)) (second' (a', rest'))) :
    P.Reads others (first >>= second) (first' >>= second') := by
  cases h with
  | ok hvalue hrest => exact hsecond _ _ _ _ hvalue hrest
  | error hfailure => exact .error hfailure
  | parted hparts => exact .parted hparts

theorem Reads.map {first first' : Except Failure (α × List Token)}
    (h : P.Reads values first first') {f f' : α → β}
    (hf : ∀ a a', values a a' → others (f a) (f' a')) :
    P.Reads others (first >>= fun read => .ok (f read.1, read.2))
      (first' >>= fun read => .ok (f' read.1, read.2)) :=
  h.bind fun a a' _ _ hvalue hrest => .ok (hf a a' hvalue) hrest

namespace Lawful

theorem deeper (hP : P.Lawful) {next next' : Nat → Reader α} (h : P.tokens rest rest')
    (hnext : ∀ inner < levels, P.Reads values (next inner rest) (next' inner rest')) :
    P.Reads values (Parser.deeper levels next rest) (Parser.deeper levels next' rest') := by
  cases levels with
  | zero => exact .error (hP.tooDeep h)
  | succ inner => exact hnext inner (Nat.lt_succ_self inner)

theorem closeParen (hP : P.Lawful) {what what' : String} {next next' : Reader α}
    (hwhat : ∀ {rest rest' : List Token}, P.tokens rest rest' →
      P.failures (Parser.notExpected levels what rest) (Parser.notExpected levels what' rest'))
    (h : P.tokens tokens tokens')
    (hnext : ∀ rest rest', P.tokens rest rest' → P.Reads values (next rest) (next' rest')) :
    P.Reads values (Parser.closeParen levels what tokens >>= next)
      (Parser.closeParen levels what' tokens' >>= next') := by
  have hmeets := hP.meets h
  by_cases hlexeme : (current tokens).lexeme = .rightParen
  · obtain ⟨start, stop, start', stop', rest, rest', rfl, rfl, hrest⟩ :=
      hmeets.exists_cons hlexeme trivial
    exact hnext rest rest' hrest
  · have hlexeme' : (current tokens').lexeme ≠ .rightParen :=
      hmeets.lexeme_ne hlexeme trivial
    rw [closeParen_of_ne hlexeme, closeParen_of_ne hlexeme']
    exact .error (hwhat h)

/-- The items behind the first, with all of the tokens counted, of which there may be more on the
one side than on the other. -/
theorem moreItems (hP : P.Lawful) {item : Reader Expr}
    (hitem : ∀ tokens tokens', P.tokens tokens tokens' →
      P.Reads P.trees (item tokens) (item tokens'))
    (hle : ∀ tokens e rest, item tokens = .ok (e, rest) → rest.length ≤ tokens.length)
    (h : P.tokens tokens tokens') :
    P.Reads (List.Forall₂ P.trees) (Parser.moreItems item tokens.length tokens)
      (Parser.moreItems item tokens'.length tokens') := by
  induction hlength : tokens.length using Nat.strongRecOn generalizing tokens tokens' with
  | ind length ih =>
      subst hlength
      have hmeets := hP.meets h
      by_cases hlexeme : (current tokens).lexeme = .comma
      · obtain ⟨start, stop, start', stop', rest, rest', rfl, rfl, hrest⟩ :=
          hmeets.exists_cons hlexeme trivial
        rw [List.length_cons, List.length_cons, moreItems_comma hle, moreItems_comma hle]
        have hfirst := hitem rest rest' hrest
        generalize hread : item rest = first at hfirst
        generalize item rest' = first' at hfirst
        cases hfirst with
        | @ok e e' behind behind' htree hbehind =>
            have hshorter := Nat.lt_succ_of_le (hle _ _ _ hread)
            exact (ih _ hshorter hbehind rfl).map fun _ _ htrees => .cons htree htrees
        | error hfailure => exact .error hfailure
        | parted hparts => exact .parted hparts
      · have hlexeme' : (current tokens').lexeme ≠ .comma :=
          hmeets.lexeme_ne hlexeme trivial
        rw [moreItems_of_ne hlexeme, moreItems_of_ne hlexeme']
        exact .ok .nil h

/-- A chain of operands is read alike on both sides, each operand a level below the one before. -/
theorem chain (hP : P.Lawful) {joins : Op → Bool} {operand : Nat → Reader Expr}
    {more : Nat → Expr → Reader Expr} (hchain : IsChain joins operand more) (levels : Nat)
    (hoperand : ∀ inner < levels, ∀ tokens tokens', P.tokens tokens tokens' →
      P.Reads P.trees (operand inner tokens) (operand inner tokens'))
    {left left' : Expr} (hleft : P.trees left left') (h : P.tokens tokens tokens') :
    P.Reads P.trees (more levels left tokens) (more levels left' tokens') := by
  induction levels using Nat.strongRecOn generalizing left left' tokens tokens' with
  | ind levels ih =>
      have hmeets := hP.meets h
      by_cases hjoins : ∃ sign, (current tokens).lexeme = .op sign ∧ joins sign = true
      · obtain ⟨sign, hlexeme, hsign⟩ := hjoins
        obtain ⟨start, stop, start', stop', rest, rest', rfl, rfl, hrest⟩ :=
          hmeets.exists_cons hlexeme trivial
        rw [hchain.joined hsign, hchain.joined hsign]
        refine hP.deeper hrest fun inner hinner => ?_
        exact (hoperand inner hinner rest rest' hrest).bind fun _ _ _ _ hright hbehind =>
          ih inner hinner (fun below hbelow => hoperand below (Nat.lt_trans hbelow hinner))
            (hP.binary sign hleft hright) hbehind
      · have hnone (sign : Op) (hlexeme : (current tokens).lexeme = .op sign) :
            joins sign = false := by
          simpa using not_and.1 (not_exists.1 hjoins sign) hlexeme
        have hnone' (sign : Op) (hlexeme : (current tokens').lexeme = .op sign) :
            joins sign = false :=
          hnone sign (by_contra fun hne => hmeets.lexeme_ne hne trivial hlexeme)
        rw [hchain.of_not_joins hnone, hchain.of_not_joins hnone']
        exact .ok hleft h

/-! ### The procedures -/

mutual

theorem expression (hP : P.Lawful) (levels : Nat) {tokens tokens' : List Token}
    (h : P.tokens tokens tokens') :
    P.Reads P.trees (Parser.expression levels tokens) (Parser.expression levels tokens') := by
  rw [expression.eq_def levels tokens, expression.eq_def levels tokens']
  exact (hP.term levels h).bind fun _ _ _ _ hleft hrest => hP.moreTerms levels hleft hrest
termination_by 8 * levels + 6

theorem moreTerms (hP : P.Lawful) (levels : Nat) {left left' : Expr}
    (hleft : P.trees left left') {tokens tokens' : List Token} (h : P.tokens tokens tokens') :
    P.Reads P.trees (Parser.moreTerms levels left tokens)
      (Parser.moreTerms levels left' tokens') :=
  hP.chain isChain_moreTerms levels (fun inner _ _ _ => hP.term inner) hleft h
termination_by 8 * levels

theorem term (hP : P.Lawful) (levels : Nat) {tokens tokens' : List Token}
    (h : P.tokens tokens tokens') :
    P.Reads P.trees (Parser.term levels tokens) (Parser.term levels tokens') := by
  rw [term.eq_def levels tokens, term.eq_def levels tokens']
  exact (hP.power levels h).bind fun _ _ _ _ hleft hrest => hP.moreFactors levels hleft hrest
termination_by 8 * levels + 5

theorem moreFactors (hP : P.Lawful) (levels : Nat) {left left' : Expr}
    (hleft : P.trees left left') {tokens tokens' : List Token} (h : P.tokens tokens tokens') :
    P.Reads P.trees (Parser.moreFactors levels left tokens)
      (Parser.moreFactors levels left' tokens') :=
  hP.chain isChain_moreFactors levels (fun inner _ _ _ => hP.power inner) hleft h
termination_by 8 * levels

theorem power (hP : P.Lawful) (levels : Nat) {tokens tokens' : List Token}
    (h : P.tokens tokens tokens') :
    P.Reads P.trees (Parser.power levels tokens) (Parser.power levels tokens') := by
  rw [power_eq, power_eq]
  exact (hP.unary levels h).bind fun _ _ _ _ hbase hrest => hP.exponent levels hbase hrest
termination_by 8 * levels + 4

theorem exponent (hP : P.Lawful) (levels : Nat) {base base' : Expr}
    (hbase : P.trees base base') {tokens tokens' : List Token} (h : P.tokens tokens tokens') :
    P.Reads P.trees (Parser.exponent levels base tokens)
      (Parser.exponent levels base' tokens') := by
  have hmeets := hP.meets h
  by_cases hpow : (current tokens).lexeme = .op .pow
  · obtain ⟨start, stop, start', stop', rest, rest', rfl, rfl, hrest⟩ :=
      hmeets.exists_cons hpow trivial
    rw [exponent_pow, exponent_pow]
    exact hP.deeper hrest fun inner _ => (hP.power inner hrest).map fun _ _ =>
      hP.binary .pow hbase
  · have hpow' : (current tokens').lexeme ≠ .op .pow := hmeets.lexeme_ne hpow trivial
    rw [exponent_of_ne hpow, exponent_of_ne hpow']
    exact .ok hbase h
termination_by 8 * levels

theorem unary (hP : P.Lawful) (levels : Nat) {tokens tokens' : List Token}
    (h : P.tokens tokens tokens') :
    P.Reads P.trees (Parser.unary levels tokens) (Parser.unary levels tokens') := by
  have hmeets := hP.meets h
  by_cases hadd : (current tokens).lexeme = .op .add
  · obtain ⟨start, stop, start', stop', rest, rest', rfl, rfl, hrest⟩ :=
      hmeets.exists_cons hadd trivial
    rw [unary_add, unary_add]
    exact hP.deeper hrest fun inner _ => hP.unary inner hrest
  by_cases hsub : (current tokens).lexeme = .op .sub
  · obtain ⟨start, stop, start', stop', rest, rest', rfl, rfl, hrest⟩ :=
      hmeets.exists_cons hsub trivial
    rw [unary_sub, unary_sub]
    exact hP.deeper hrest fun inner _ => (hP.unary inner hrest).map fun _ _ => hP.neg
  · have hadd' : (current tokens').lexeme ≠ .op .add := hmeets.lexeme_ne hadd trivial
    have hsub' : (current tokens').lexeme ≠ .op .sub := hmeets.lexeme_ne hsub trivial
    rw [unary_of_ne hadd hsub, unary_of_ne hadd' hsub']
    exact hP.primary levels h
termination_by 8 * levels + 3

theorem primary (hP : P.Lawful) (levels : Nat) {tokens tokens' : List Token}
    (h : P.tokens tokens tokens') :
    P.Reads P.trees (Parser.primary levels tokens) (Parser.primary levels tokens') := by
  cases hP.meets h with
  | eof hend hend' =>
      rw [primary_of_ne (by simp [hend]) (by simp [hend]) (by simp [hend]),
        primary_of_ne (by simp [hend']) (by simp [hend']) (by simp [hend'])]
      exact .error (hP.unexpected levels h (by simp [hend]))
  | @symbol lexeme start stop start' stop' rest rest' hsymbol hrest =>
      by_cases hparen : lexeme = .leftParen
      · subst hparen
        rw [primary_leftParen, primary_leftParen]
        exact hP.deeper hrest fun inner _ => (hP.expression inner hrest).bind
          fun _ _ _ _ hbody hbehind => hP.closeParen (fun h => hP.notExpected levels _ h) hbehind
            fun _ _ => .ok hbody
      · have hnumber (text : String) : lexeme ≠ .number text := by
          rintro rfl
          exact hsymbol
        have hname (name : String) : lexeme ≠ .name name := by
          rintro rfl
          exact hsymbol
        have hrefuses (start stop : Nat) (rest : List Token) :
            Parser.primary levels (⟨lexeme, start, stop⟩ :: rest) =
              .error ⟨.unexpectedToken lexeme.text start,
                ⟨⟨lexeme, start, stop⟩ :: rest, levels⟩⟩ :=
          primary_of_ne hnumber hname hparen
        rw [hrefuses, hrefuses]
        exact .error (hP.unexpected levels h hname)
  | number hvalue hvalue' htrees hrest =>
      rw [Parser.primary, Parser.primary, hvalue, hvalue']
      exact .ok htrees hrest
  | invalid hnone hnone' hfailures =>
      rw [Parser.primary, Parser.primary, hnone, hnone']
      exact .error (hfailures levels)
  | parting hnone' hparts =>
      rw [Parser.primary.eq_def levels (⟨.number _, _, _⟩ :: _), Parser.primary, hnone']
      exact .parted (hparts levels)
  | name hparen hparen' htrees hrest =>
      rw [primary_name hparen, primary_name hparen']
      exact .ok htrees hrest
  | call hcalls hrest =>
      rw [primary_call, primary_call]
      exact hP.deeper hrest fun inner _ => hP.call inner hcalls hrest
termination_by 8 * levels + 2

theorem call (hP : P.Lawful) (levels : Nat) {name name' : String} {start start' : Nat}
    (hcalls : P.Calls name start name' start') {tokens tokens' : List Token}
    (h : P.tokens tokens tokens') :
    P.Reads P.trees (Parser.call levels name start tokens)
      (Parser.call levels name' start' tokens') := by
  rw [call.eq_def levels name start, call.eq_def levels name' start']
  refine (hP.arguments levels h).bind fun args args' _ _ hargs hrest => ?_
  refine hP.closeParen (fun h => hcalls.unclosed levels h) hrest fun _ _ hbehind => ?_
  rw [hcalls.isFunction_eq]
  by_cases hfunction : Builtin.isFunction (Text.lower name) = true
  · rw [if_pos hfunction, if_pos hfunction]
    exact .ok (hcalls.callNamed hargs) hbehind
  · rw [if_neg hfunction, if_neg hfunction]
    exact .error (hcalls.unknown levels hbehind (by simpa using hfunction))
termination_by 8 * levels + 8

theorem arguments (hP : P.Lawful) (levels : Nat) {tokens tokens' : List Token}
    (h : P.tokens tokens tokens') :
    P.Reads (List.Forall₂ P.trees) (Parser.arguments levels tokens)
      (Parser.arguments levels tokens') := by
  have hmeets := hP.meets h
  by_cases hlexeme : (current tokens).lexeme = .rightParen
  · obtain ⟨start, stop, start', stop', rest, rest', rfl, rfl, -⟩ :=
      hmeets.exists_cons hlexeme trivial
    rw [Parser.arguments, Parser.arguments]
    exact .ok .nil h
  · have hlexeme' : (current tokens').lexeme ≠ .rightParen :=
      hmeets.lexeme_ne hlexeme trivial
    have hle (tokens : List Token) (e : Expr) (rest : List Token)
        (hread : Parser.expression levels tokens = .ok (e, rest)) :
        rest.length ≤ tokens.length :=
      (local_expression levels [] tokens).length_le hread
    rw [arguments_of_ne hlexeme, arguments_of_ne hlexeme']
    refine (hP.expression levels h).bind fun _ _ _ _ hfirst hrest => ?_
    exact (hP.moreItems (fun _ _ => hP.expression levels) hle hrest).map fun _ _ =>
      .cons hfirst
termination_by 8 * levels + 7

end

theorem wholly (hP : P.Lawful) (levels : Nat) (h : P.tokens tokens tokens') :
    P.Reads P.trees (Parser.wholly levels tokens) (Parser.wholly levels tokens') := by
  refine (hP.expression levels h).bind fun e e' rest rest' htrees hrest => ?_
  dsimp only
  rw [(hP.meets hrest).isEof_eq]
  split
  · exact .ok htrees hrest
  · exact .error (hP.notExpected levels _ hrest)

end Lawful

end

end Pairing

end Parser

end Secant
