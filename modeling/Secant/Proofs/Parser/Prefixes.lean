import Secant.Proofs.ErrorPlaces
import Secant.Proofs.Parser.Sentences

/-!
Reading stops as soon as it can. Where a token is found that may not stand there, everything before
it can still become a sentence: an operand is added if one is due, and then a parenthesis for every
one that is open. None of that goes down a level, so the levels that were there suffice. With the
token itself there is no way on, whatever comes behind it.
-/

namespace Secant

def ParseError.IsMisplaced : ParseError → Prop
  | expected .. => True
  | unexpectedToken .. => True
  | _ => False

namespace Parser

open Grammar

/-- Every name that a parenthesis comes behind is a function. -/
def CallsFunctions (tokens : List Token) : Prop :=
  ∀ name, [.name name, .leftParen] <:+: tokens.map Token.lexeme →
    Builtin.isFunction (Text.lower name) = true

/-- What the tokens hold before `rest` can be made a phrase of some kind that goes down at most
`levels` levels. -/
def Viable (kind : List Lexeme → Nat → Prop) (levels : Nat) (tokens rest : List Token) : Prop :=
  ∃ taken more needed, tokens = taken ++ rest ∧ kind (taken.map Token.lexeme ++ more) needed ∧
    needed ≤ levels

/-- Wherever reading meets a token that may not stand there, what it has taken is viable. -/
def FailsViably {α : Type} (kind : List Lexeme → α → Nat → Prop) (levels : Nat)
    (read : Reader α) : Prop :=
  ∀ ⦃tokens failure⦄, CallsFunctions tokens → failure.error.IsMisplaced →
    read tokens = .error failure →
      Viable (fun phrase needed => ∃ a, kind phrase a needed) levels tokens failure.parser.rest

section

variable {kind kind' : List Lexeme → Nat → Prop} {levels levels' : Nat}
  {tokens rest front : List Token} {failure : Failure}

theorem CallsFunctions.behind (h : CallsFunctions (front ++ tokens)) : CallsFunctions tokens := by
  intro name hname
  refine h name (hname.trans ?_)
  rw [List.map_append]
  exact (List.suffix_append _ _).isInfix

theorem CallsFunctions.tail {token : Token} (h : CallsFunctions (token :: tokens)) :
    CallsFunctions tokens :=
  behind (show CallsFunctions ([token] ++ tokens) from h)

theorem Begins.viable (h : Begins kind levels tokens rest) : Viable kind levels tokens rest := by
  obtain ⟨phrase, needed, hsplit, hphrase, hneeded⟩ := h
  exact ⟨phrase, [], needed, hsplit, by rwa [List.append_nil], hneeded⟩

/-- A phrase is put between others, and so is one that is still to be completed. -/
theorem Viable.within (h : Viable kind levels tokens rest) (front : List Token)
    (behind : List Lexeme)
    (hkind : ∀ phrase needed, kind phrase needed → needed ≤ levels →
      ∃ needed' ≤ levels', kind' (front.map Token.lexeme ++ phrase ++ behind) needed') :
    Viable kind' levels' (front ++ tokens) rest := by
  obtain ⟨taken, more, needed, rfl, hphrase, hneeded⟩ := h
  obtain ⟨needed', hneeded', hphrase'⟩ := hkind _ _ hphrase hneeded
  refine ⟨front ++ taken, more ++ behind, needed', (List.append_assoc _ _ _).symm, ?_, hneeded'⟩
  simpa using hphrase'

theorem Viable.mono (h : Viable kind levels tokens rest)
    (hkind : ∀ phrase needed, kind phrase needed → needed ≤ levels →
      ∃ needed' ≤ levels', kind' phrase needed') : Viable kind' levels' tokens rest :=
  h.within [] [] fun phrase needed hphrase hneeded => by
    simpa using hkind phrase needed hphrase hneeded

theorem primary_named (name : String) : Primary [.name name] (named name) 0 := by
  unfold named
  cases hvalue : Constant.value? (Text.lower name) with
  | some value => exact .constant hvalue
  | none => exact .var hvalue

theorem rest_of_closeParen {what : String} (h : closeParen levels what tokens = .error failure) :
    failure.parser.rest = tokens := by
  unfold closeParen at h
  split at h
  · cases h
  · cases h
    rfl

theorem Tells.position_eq {error : ParseError} {taken : List Token} {token : Token}
    (h : Tells error taken token) (hmisplaced : error.IsMisplaced) :
    error.position = token.start := by
  cases h with
  | invalidNumber | unknownFunction | tooDeep => exact hmisplaced.elim
  | expected | unexpectedToken => rfl

theorem not_isMisplaced_tooDeep : ¬(tooDeep tokens).error.IsMisplaced :=
  fun h => h

end

/-! ### Chains -/

/-- In a chain an operand is missing or one cannot go on. -/
theorem IsChain.viable {joins : Op → Bool} {operand : Nat → Reader Expr}
    {more : Nat → Expr → Reader Expr} (h : IsChain joins operand more)
    (Chain : List Lexeme → Expr → Nat → Nat → Prop) (Operand : List Lexeme → Expr → Nat → Prop)
    (hjoin : ∀ {first next left right sign signs needed below}, Chain first left signs needed →
      joins sign = true → Operand next right below →
        Chain (first ++ .op sign :: next) (.binary sign left right) (signs + 1)
          (max needed (signs + 1 + below)))
    (levels : Nat)
    (hsound : ∀ inner < levels, ∀ {tokens right rest}, operand inner tokens = .ok (right, rest) →
      Begins (Operand · right ·) inner tokens rest)
    (hviable : ∀ inner < levels, FailsViably Operand inner (operand inner))
    {first : List Lexeme} {left : Expr} {signs needed : Nat}
    (hfirst : Chain first left signs needed) (hneeded : needed ≤ signs + levels) :
    FailsViably (fun phrase e needed => ∃ signs, Chain (first ++ phrase) e signs needed)
      (signs + levels) (more levels left) := by
  intro tokens failure hcalls hmisplaced hread
  induction levels using Nat.strongRecOn generalizing tokens first left signs needed with
  | ind levels ih =>
      by_cases hjoins : ∃ sign, (current tokens).lexeme = .op sign ∧ joins sign = true
      · obtain ⟨sign, hlexeme, hsign⟩ := hjoins
        obtain ⟨start, stop, tokens, rfl⟩ := exists_cons_of_lexeme hlexeme (by simp)
        cases levels with
        | zero =>
            rw [h.zero hsign] at hread
            cases hread
            exact absurd hmisplaced not_isMisplaced_tooDeep
        | succ inner =>
            have hinner := Nat.lt_succ_self inner
            rw [h.succ hsign] at hread
            obtain hoperand | ⟨⟨right, middle⟩, hoperand, hmore⟩ := bind_eq_error_iff.1 hread
            · have hnext := hviable inner hinner hcalls.tail hmisplaced hoperand
              refine hnext.within [⟨.op sign, start, stop⟩] [] fun next below hnext hbelow => ?_
              obtain ⟨right, hright⟩ := hnext
              exact ⟨max needed (signs + 1 + below), by omega, .binary sign left right, signs + 1,
                by simpa using hjoin hfirst hsign hright⟩
            · -- The chain with one operand more is the left one of the signs still to come.
              obtain ⟨next, below, rfl, hnext, hbelow⟩ := hsound inner hinner hoperand
              have hrest := ih inner hinner (fun level hlevel => hsound level (by omega))
                (fun level hlevel => hviable level (by omega)) (hjoin hfirst hsign hnext)
                (by omega) hcalls.tail.behind hmore
              refine hrest.within (⟨.op sign, start, stop⟩ :: next) [] ?_
              rintro phrase deepest ⟨e, count, hchain⟩ hdeepest
              exact ⟨deepest, by omega, e, count, by simpa using hchain⟩
      · rw [h.of_not_joins fun sign hlexeme => ?_] at hread
        · cases hread
        · simpa using not_and.1 (not_exists.1 hjoins sign) hlexeme

/-! ### Lists of arguments -/

theorem moreItems_viable {item : Reader Expr} {levels : Nat}
    (hsound : ∀ {tokens e rest}, item tokens = .ok (e, rest) →
      Begins (Sentence · e ·) levels tokens rest)
    (hviable : FailsViably Sentence levels item) {count : Nat} {first : List Lexeme} {e : Expr}
    {needed : Nat} (hfirst : Sentence first e needed) (hneeded : needed ≤ levels) :
    FailsViably (fun phrase args needed => Items (first ++ phrase) (e :: args) needed) levels
      (moreItems item count) := by
  intro tokens failure hcalls hmisplaced hread
  induction count generalizing first e needed tokens with
  | zero => cases hread
  | succ count ih =>
      by_cases hlexeme : (current tokens).lexeme = .comma
      · obtain ⟨start, stop, tokens, rfl⟩ := exists_cons_of_lexeme hlexeme (by simp)
        rw [moreItems] at hread
        obtain hitem | ⟨⟨next, middle⟩, hitem, hbehind⟩ := bind_eq_error_iff.1 hread
        · have hnext := hviable hcalls.tail hmisplaced hitem
          refine hnext.within [⟨.comma, start, stop⟩] [] fun phrase below hphrase hbelow => ?_
          obtain ⟨next, _, hnext⟩ := hphrase
          obtain ⟨_, hfirst⟩ := hfirst
          exact ⟨max needed below, by omega, [next], by simpa using .cons hfirst (.last hnext)⟩
        · obtain hmore | ⟨_, -, hdone⟩ := bind_eq_error_iff.1 hbehind
          · obtain ⟨phrase, below, rfl, hphrase, hbelow⟩ := hsound hitem
            have hrest := ih hphrase hbelow hcalls.tail.behind hmore
            obtain ⟨_, hfirst⟩ := hfirst
            refine hrest.within (⟨.comma, start, stop⟩ :: phrase) [] ?_
            rintro more deepest ⟨args, hargs⟩ hdeepest
            exact ⟨max needed deepest, by omega, next :: args, by simpa using .cons hfirst hargs⟩
          · cases hdone
      · rw [moreItems_of_ne hlexeme] at hread
        cases hread

/-! ### All procedures -/

mutual

theorem expression_viable (levels : Nat) : FailsViably Sentence levels (expression levels) := by
  intro tokens failure hcalls hmisplaced hread
  rw [expression] at hread
  obtain hterm | ⟨⟨left, middle⟩, hterm, hmore⟩ := bind_eq_error_iff.1 hread
  · refine (term_viable levels hcalls hmisplaced hterm).mono ?_
    rintro phrase needed ⟨e, marks, hphrase⟩ hneeded
    exact ⟨needed, hneeded, e, 0, .single hphrase⟩
  · obtain ⟨first, needed, rfl, ⟨marks, hfirst⟩, hneeded⟩ := term_sound levels tokens hterm
    have hchain := isChain_moreTerms.viable Grammar.Expression
      (fun phrase e needed => ∃ marks, Term phrase e marks needed)
      (fun hfirst hsign ⟨_, hnext⟩ => .join hfirst hsign hnext) levels
      (fun inner _ => term_sound inner _) (fun inner _ => term_viable inner)
      (.single hfirst) (by omega) hcalls.behind hmisplaced hmore
    refine hchain.within first [] ?_
    rintro phrase deepest ⟨e, signs, hphrase⟩ hdeepest
    exact ⟨deepest, by omega, e, signs, by simpa using hphrase⟩
termination_by 8 * levels + 6

theorem term_viable (levels : Nat) :
    FailsViably (fun phrase e needed => ∃ marks, Term phrase e marks needed) levels
      (term levels) := by
  intro tokens failure hcalls hmisplaced hread
  rw [term] at hread
  obtain hpower | ⟨⟨left, middle⟩, hpower, hmore⟩ := bind_eq_error_iff.1 hread
  · refine (power_viable levels hcalls hmisplaced hpower).mono ?_
    rintro phrase needed ⟨e, hphrase⟩ hneeded
    exact ⟨needed, hneeded, e, 0, .single hphrase⟩
  · obtain ⟨first, needed, rfl, hfirst, hneeded⟩ := power_sound levels tokens hpower
    have hchain := isChain_moreFactors.viable Term Power .join levels
      (fun inner _ => power_sound inner _) (fun inner _ => power_viable inner)
      (.single hfirst) (by omega) hcalls.behind hmisplaced hmore
    refine hchain.within first [] ?_
    rintro phrase deepest ⟨e, marks, hphrase⟩ hdeepest
    exact ⟨deepest, by omega, e, marks, by simpa using hphrase⟩
termination_by 8 * levels + 5

theorem power_viable (levels : Nat) : FailsViably Power levels (power levels) := by
  intro tokens failure hcalls hmisplaced hread
  rw [power_eq] at hread
  obtain hunary | ⟨⟨base, middle⟩, hunary, hexponent⟩ := bind_eq_error_iff.1 hread
  · refine (unary_viable levels hcalls hmisplaced hunary).mono ?_
    rintro phrase needed ⟨e, hphrase⟩ hneeded
    exact ⟨needed, hneeded, e, .base hphrase⟩
  · obtain ⟨first, needed, rfl, hfirst, hneeded⟩ := unary_sound levels tokens hunary
    by_cases hpow : (current middle).lexeme = .op .pow
    · obtain ⟨start, stop, middle, rfl⟩ := exists_cons_of_lexeme hpow (by simp)
      cases levels with
      | zero =>
          cases hexponent
          exact absurd hmisplaced not_isMisplaced_tooDeep
      | succ inner =>
          rw [exponent] at hexponent
          obtain hpower | ⟨_, -, hdone⟩ := bind_eq_error_iff.1 hexponent
          · have hnext := power_viable inner hcalls.behind.tail hmisplaced hpower
            rw [List.append_cons]
            refine hnext.within (first ++ [⟨.op .pow, start, stop⟩]) [] ?_
            rintro phrase below ⟨e, hphrase⟩ hbelow
            exact ⟨max needed (below + 1), by omega, .binary .pow base e,
              by simpa using .raise hfirst hphrase⟩
          · cases hdone
    · rw [exponent_of_ne hpow] at hexponent
      cases hexponent
termination_by 8 * levels + 4

theorem unary_viable (levels : Nat) : FailsViably Unary levels (unary levels) := by
  intro tokens failure hcalls hmisplaced hread
  rw [unary.eq_def] at hread
  split at hread
  · rename_i start stop behind
    split at hread
    · cases hread
      exact absurd hmisplaced not_isMisplaced_tooDeep
    · rename_i inner
      refine (unary_viable inner hcalls.tail hmisplaced hread).within
        [⟨.op .add, start, stop⟩] [] ?_
      rintro phrase needed ⟨e, hphrase⟩ hneeded
      exact ⟨needed + 1, by omega, e, by simpa using .plus hphrase⟩
  · rename_i start stop behind
    split at hread
    · cases hread
      exact absurd hmisplaced not_isMisplaced_tooDeep
    · rename_i inner
      obtain hunary | ⟨_, -, hdone⟩ := bind_eq_error_iff.1 hread
      · refine (unary_viable inner hcalls.tail hmisplaced hunary).within
          [⟨.op .sub, start, stop⟩] [] ?_
        rintro phrase needed ⟨e, hphrase⟩ hneeded
        exact ⟨needed + 1, by omega, .neg e, by simpa using .minus hphrase⟩
      · cases hdone
  · refine (primary_viable levels hcalls hmisplaced hread).mono ?_
    rintro phrase needed ⟨e, hphrase⟩ hneeded
    exact ⟨needed, hneeded, e, .primary hphrase⟩
termination_by 8 * levels + 3

theorem primary_viable (levels : Nat) : FailsViably Primary levels (primary levels) := by
  intro tokens failure hcalls hmisplaced hread
  rw [primary.eq_def] at hread
  split at hread
  · split at hread
    · cases hread
    · cases hread
      exact hmisplaced.elim
  · rename_i name start stop start' stop' behind
    split at hread
    · cases hread
      exact absurd hmisplaced not_isMisplaced_tooDeep
    · rename_i inner
      have hfunction : Builtin.isFunction (Text.lower name) = true :=
        hcalls name ⟨[], behind.map Token.lexeme, rfl⟩
      refine (call_viable inner start hfunction hcalls.tail.tail hmisplaced hread).within
        [⟨.name name, start, stop⟩, ⟨.leftParen, start', stop'⟩] [] ?_
      rintro phrase needed ⟨_, inside, args, rfl, hargs, rfl⟩ hneeded
      exact ⟨needed + 1, by omega, .callNamed name args, by simpa using .call hargs hfunction⟩
  · split at hread
    · cases hread
    · cases hread
  · rename_i start stop behind
    split at hread
    · cases hread
      exact absurd hmisplaced not_isMisplaced_tooDeep
    · rename_i inner
      have hparen (phrase : List Lexeme) (needed : Nat) :
          (∃ e, Sentence phrase e needed) → needed ≤ inner →
            ∃ needed' ≤ inner + 1, ∃ e,
              Primary ([⟨.leftParen, start, stop⟩].map Token.lexeme ++ phrase ++ [.rightParen]) e
                needed' := by
        rintro ⟨e, signs, hphrase⟩ hneeded
        exact ⟨needed + 1, by omega, e, by simpa using .paren hphrase⟩
      obtain hbody | ⟨⟨body, middle⟩, hbody, hbehind⟩ := bind_eq_error_iff.1 hread
      · exact (expression_viable inner hcalls.tail hmisplaced hbody).within
          [⟨.leftParen, start, stop⟩] [.rightParen] hparen
      · obtain hclose | ⟨_, -, hdone⟩ := bind_eq_error_iff.1 hbehind
        · -- All that is missing is the closing parenthesis.
          rw [rest_of_closeParen hclose]
          exact (expression_sound inner behind hbody).viable.within
            [⟨.leftParen, start, stop⟩] [.rightParen]
            fun phrase needed hphrase => hparen phrase needed ⟨body, hphrase⟩
        · cases hdone
  · -- An operand is due, and every name is one.
    cases hread
    exact ⟨[], [.name "x"], 0, rfl, ⟨_, primary_named "x"⟩, Nat.zero_le _⟩
termination_by 8 * levels + 2

theorem call_viable (levels : Nat) {name : String} (start : Nat)
    (hfunction : Builtin.isFunction (Text.lower name) = true) :
    FailsViably (fun phrase e needed => ∃ inside args, phrase = inside ++ [.rightParen] ∧
      Arguments inside args needed ∧ e = .callNamed name args) levels (call levels name start) := by
  intro tokens failure hcalls hmisplaced hread
  rw [call] at hread
  have hparen (phrase : List Lexeme) (needed : Nat) :
      (∃ args, Arguments phrase args needed) → needed ≤ levels →
        ∃ needed' ≤ levels, ∃ (e : Expr) (inside : List Lexeme) (args : List Expr),
          [].map Token.lexeme ++ phrase ++ [.rightParen] = inside ++ [.rightParen] ∧
            Arguments inside args needed' ∧ e = .callNamed name args := by
    rintro ⟨args, hargs⟩ hneeded
    exact ⟨needed, hneeded, _, phrase, args, rfl, hargs, rfl⟩
  obtain hargs | ⟨⟨args, middle⟩, hargs, hbehind⟩ := bind_eq_error_iff.1 hread
  · exact (arguments_viable levels hcalls hmisplaced hargs).within [] [.rightParen] hparen
  · obtain hclose | ⟨_, -, hdone⟩ := bind_eq_error_iff.1 hbehind
    · rw [rest_of_closeParen hclose]
      exact (arguments_sound levels tokens hargs).viable.within [] [.rightParen]
        fun phrase needed hphrase => hparen phrase needed ⟨args, hphrase⟩
    · rw [if_pos hfunction] at hdone
      cases hdone
termination_by 8 * levels + 8

theorem arguments_viable (levels : Nat) : FailsViably Arguments levels (arguments levels) := by
  intro tokens failure hcalls hmisplaced hread
  rw [arguments.eq_def] at hread
  split at hread
  · cases hread
  · obtain hfirst | ⟨⟨e, middle⟩, hfirst, hbehind⟩ := bind_eq_error_iff.1 hread
    · refine (expression_viable levels hcalls hmisplaced hfirst).mono ?_
      rintro phrase needed ⟨e, signs, hphrase⟩ hneeded
      exact ⟨needed, hneeded, [e], .some (.last hphrase)⟩
    · obtain hmore | ⟨_, -, hdone⟩ := bind_eq_error_iff.1 hbehind
      · obtain ⟨first, needed, rfl, hphrase, hneeded⟩ := expression_sound levels tokens hfirst
        have hitems := moreItems_viable (expression_sound levels _) (expression_viable levels)
          hphrase hneeded hcalls.behind hmisplaced hmore
        refine hitems.within first [] ?_
        rintro phrase deepest ⟨args, hargs⟩ hdeepest
        exact ⟨deepest, hdeepest, e :: args, .some (by simpa using hargs)⟩
      · cases hdone
termination_by 8 * levels + 7

end

theorem wholly_viable (levels : Nat) : FailsViably Sentence levels (wholly levels) := by
  intro tokens failure hcalls hmisplaced hread
  obtain hexpression | ⟨⟨e, rest⟩, hexpression, hend⟩ := bind_eq_error_iff.1 hread
  · exact expression_viable levels hcalls hmisplaced hexpression
  · have hbegins := (expression_sound levels tokens hexpression).viable
    split at hend
    · cases hend
    · cases hend
      exact hbegins.mono fun phrase needed hphrase hneeded => ⟨needed, hneeded, e, hphrase⟩

end Parser

namespace Expr

open Grammar Secant.Parser

/-- Tokens that can become a sentence are read when they have become one. -/
theorem exists_ofTokens_of_sentence {taken : List Token} {more : List Lexeme} {e : Expr}
    {needed : Nat} (h : Sentence (taken.map Token.lexeme ++ more) e needed)
    (hneeded : needed ≤ maxLevels) : ∃ behind, ofTokens (taken ++ behind) = .ok e := by
  let behind : List Token := (more ++ [Lexeme.eof]).map fun lexeme => ⟨lexeme, 0, 0⟩
  have hlexemes : (taken ++ behind).map Token.lexeme =
      taken.map Token.lexeme ++ more ++ .eof :: [] := by
    simp [behind, Function.comp_def]
  rw [← Token.sentence_eq hlexemes h.eof_notMem] at h
  exact ⟨behind, ofTokens_of_sentence h hneeded⟩

/-- Where a token of a text may not stand, and nothing but functions is called, the error comes at
the first token with which there is no way on: what is before it can be continued to an expression,
and with anything else behind it the tokens are refused in the same way. -/
theorem exists_token_of_ofText {text : String} {tokens : List Token} {error : ParseError}
    (htokens : tokenize text = .ok tokens) (hcalls : CallsFunctions tokens)
    (hmisplaced : error.IsMisplaced) (h : ofText text = .error error) :
    ∃ before token behind, tokens = before ++ token :: behind ∧
      (∀ other ∈ tokens, other.start = error.position ↔ other = token) ∧
        (∃ more e, ofTokens (before ++ more) = .ok e) ∧
          ∀ other, ofTokens (before ++ token :: other) = .error error := by
  obtain htokenize | ⟨_, htokens', failure, hfailure, rfl⟩ := ofText_eq_error_iff.1 h
  · rw [htokens] at htokenize
    cases htokenize
  rw [htokens] at htokens'
  cases htokens'
  obtain ⟨before, token, behind, rfl, hrest, htells, hagain⟩ := exists_stop htokens hfailure
  refine ⟨before, token, behind, rfl, fun other hother => ?_, ?_, fun other => ?_⟩
  · rw [htells.position_eq hmisplaced]
    have hmem : token ∈ before ++ token :: behind :=
      List.mem_append_right before List.mem_cons_self
    exact (tiles_of_tokenize htokens).start_eq_iff hother hmem
  · obtain ⟨taken, more, needed, hsplit, ⟨e, hphrase⟩, hneeded⟩ :=
      wholly_viable _ hcalls hmisplaced hfailure
    rw [hrest] at hsplit
    obtain rfl := List.append_cancel_right hsplit
    obtain ⟨more, hread⟩ := exists_ofTokens_of_sentence hphrase hneeded
    exact ⟨more, e, hread⟩
  · obtain ⟨rest, hofTokens⟩ := exists_ofTokens_append before token other
    rw [ofTokens, hofTokens]
    exact hagain rest

def openTokens : List Token :=
  [⟨.leftParen, 0, 1⟩, ⟨.op .sub, 1, 2⟩, ⟨.name "abs", 2, 5⟩, ⟨.leftParen, 5, 6⟩,
    ⟨.op .add, 7, 8⟩, ⟨.rightParen, 8, 9⟩, .eofAt 9]

theorem tokenize_open : tokenize "(-abs( +)" = .ok openTokens := by cbv

theorem ofText_open : ofText "(-abs( +)" = .error (.unexpectedToken ")" 8) := by cbv

theorem callsFunctions_open : CallsFunctions openTokens := by
  intro name h
  have hname : name = "abs" := by
    simpa [openTokens, Token.eofAt, List.infix_cons_iff] using h
  subst hname
  decide +kernel

/-- Two parentheses are open where an operand is due. -/
theorem exists_token_of_ofText_open :
    tokenize "(-abs( +)" = .ok openTokens ∧ CallsFunctions openTokens ∧
      (ParseError.unexpectedToken ")" 8).IsMisplaced ∧
        ofText "(-abs( +)" = .error (.unexpectedToken ")" 8) ∧
          ∃ before token behind, openTokens = before ++ token :: behind ∧
            (∀ other ∈ openTokens,
              other.start = (ParseError.unexpectedToken ")" 8).position ↔ other = token) ∧
              (∃ more e, ofTokens (before ++ more) = .ok e) ∧
                ∀ other, ofTokens (before ++ token :: other) = .error (.unexpectedToken ")" 8) := by
  have hmisplaced : (ParseError.unexpectedToken ")" 8).IsMisplaced := trivial
  exact ⟨tokenize_open, callsFunctions_open, hmisplaced, ofText_open,
    exists_token_of_ofText tokenize_open callsFunctions_open hmisplaced ofText_open⟩

end Expr

end Secant
