import Secant.Expr.Parser

/-!
What reading sees of the tokens. It takes some off the front, none of them an end, and looks at the
one behind them and at no other. So what it comes to stays the same whatever stands further behind.
If it succeeds, even the token behind the phrase counts for its kind only, and if it fails, the
error tells of a token that was taken or of the one where reading stopped.
-/

namespace Secant.Parser

/-- What may be looked for, and found missing, behind these tokens. -/
inductive Expects : String → List Token → Prop
  | closing {taken : List Token} : Expects "')'" taken
  | closingCall {name : String} {start stop start' stop' : Nat} {taken : List Token} :
      [⟨.name name, start, stop⟩, ⟨.leftParen, start', stop'⟩] <:+: taken →
        Expects s!"')' after arguments of {name}" taken
  | ending {taken : List Token} : Expects "end of expression" taken

/-- What an error tells of the tokens that were taken before it and of the token it was met at. -/
inductive Tells : ParseError → List Token → Token → Prop
  | invalidNumber {text : String} {start stop : Nat} {taken : List Token} {token : Token} :
      ⟨.number text, start, stop⟩ ∈ taken → Decimal.number? text = none →
        Tells (.invalidNumber text start) taken token
  | unknownFunction {name : String} {start stop start' stop' : Nat} {taken : List Token}
      {token : Token} :
      [⟨.name name, start, stop⟩, ⟨.leftParen, start', stop'⟩] <:+: taken →
        Builtin.isFunction (Text.lower name) = false →
          Tells (.unknownFunction name start) taken token
  | expected {what : String} {taken : List Token} {token : Token} :
      Expects what taken → Tells (.expected what token.text token.start) taken token
  | unexpectedToken {taken : List Token} {token : Token} :
      (∀ name, token.lexeme ≠ .name name) →
        Tells (.unexpectedToken token.text token.start) taken token
  | tooDeep {taken : List Token} {token : Token} :
      Tells (.tooDeep maxLevels token.start) taken token

/-- The two go on with tokens of one kind. -/
def Alike (rest other : List Token) : Prop :=
  (current rest).lexeme = (current other).lexeme

def NoEnd (tokens : List Token) : Prop :=
  ∀ token ∈ tokens, token.isEof = false

/-- Takes something off the front of tokens, or fails. -/
abbrev Reader (α : Type) : Type :=
  List Token → Except Failure (α × List Token)

def deeper {α : Type} (levels : Nat) (next : Nat → Reader α) : Reader α := fun tokens =>
  match levels with
  | 0 => .error (tooDeep tokens)
  | inner + 1 => next inner tokens

/-- Reading takes a number of tokens, and what it comes to is the same with anything else behind
the next one. `front` is what was taken before, which an error may tell of as well. -/
inductive Local {α : Type} (read : Reader α) (front tokens : List Token) : Prop
  | takes {taken rest : List Token} {a : α} (split : tokens = taken ++ rest) (noEnd : NoEnd taken)
      (read_eq : ∀ other, Alike other rest → read (taken ++ other) = .ok (a, other))
  | fails {taken rest : List Token} {error : ParseError} {levels : Nat}
      (split : tokens = taken ++ rest) (noEnd : NoEnd taken)
      (tells : Tells error (front ++ taken) (current rest))
      (read_eq : ∀ other, current other = current rest →
        read (taken ++ other) = .error ⟨error, ⟨other, levels⟩⟩)

section

variable {α β : Type} {read : Reader α} {front tokens rest other taken : List Token}

/-! ### What is behind -/

theorem Alike.append (h : Alike other rest) (taken : List Token) :
    Alike (taken ++ other) (taken ++ rest) := by
  cases taken with
  | nil => exact h
  | cons token taken => rfl

theorem alike_of_current_eq (h : current other = current rest) : Alike other rest :=
  congrArg Token.lexeme h

theorem noEnd_nil : NoEnd [] := fun _ hmem => nomatch hmem

theorem NoEnd.cons {token : Token} (hend : token.isEof = false) (h : NoEnd taken) :
    NoEnd (token :: taken) :=
  List.forall_mem_cons.2 ⟨hend, h⟩

theorem NoEnd.append (h : NoEnd taken) (hother : NoEnd other) : NoEnd (taken ++ other) := by
  intro token hmem
  exact (List.mem_append.1 hmem).elim (h token) (hother token)

/-- Without tokens it is as if the next one were an end. -/
theorem exists_cons_of_lexeme {lexeme : Lexeme} (h : (current tokens).lexeme = lexeme)
    (hne : lexeme ≠ .eof) : ∃ start stop rest, tokens = ⟨lexeme, start, stop⟩ :: rest := by
  cases tokens with
  | nil => exact absurd h.symm hne
  | cons token rest =>
      obtain ⟨_, start, stop⟩ := token
      cases h
      exact ⟨start, stop, rest, rfl⟩

/-! ### How local readings are put together -/

namespace Local

theorem stays {a : α} (h : ∀ other, Alike other tokens → read other = .ok (a, other)) :
    Local read front tokens :=
  .takes (List.nil_append tokens).symm noEnd_nil h

theorem ok (a : α) (front tokens : List Token) : Local (fun rest => .ok (a, rest)) front tokens :=
  .stays fun _ _ => rfl

theorem refuses {error : ParseError} (levels : Nat) (htells : Tells error front (current tokens))
    (h : ∀ other, current other = current tokens →
      read other = .error ⟨error, ⟨other, levels⟩⟩) : Local read front tokens :=
  .fails (List.nil_append tokens).symm noEnd_nil (by rwa [List.append_nil]) h

theorem tooDeep (h : ∀ other, read other = .error (Parser.tooDeep other)) :
    Local read front tokens :=
  .refuses 0 .tooDeep fun other hcurrent => by rw [h, Parser.tooDeep, hcurrent]

theorem cons {token : Token} {next : Reader α} (hend : token.isEof = false)
    (hread : ∀ other, read (token :: other) = next other)
    (h : Local next (front ++ [token]) tokens) : Local read front (token :: tokens) := by
  cases h with
  | takes hsplit hnoEnd heq =>
      exact .takes (by rw [hsplit, List.cons_append]) (hnoEnd.cons hend)
        fun other halike => (hread _).trans (heq other halike)
  | fails hsplit hnoEnd htells heq =>
      refine .fails (by rw [hsplit, List.cons_append]) (hnoEnd.cons hend) ?_
        fun other hcurrent => (hread _).trans (heq other hcurrent)
      rwa [List.append_assoc] at htells

theorem deeper {levels : Nat} {next : Nat → Reader α}
    (h : ∀ inner < levels, Local (next inner) front tokens) :
    Local (Parser.deeper levels next) front tokens := by
  cases levels with
  | zero => exact .tooDeep fun _ => rfl
  | succ inner => exact h inner (Nat.lt_succ_self inner)

/-- One reading behind the other. The second one begins where the first one looked, so the first one
sees no difference as long as the second one sees none. -/
theorem bind {first : Reader α} {second : α × List Token → Except Failure (β × List Token)}
    {read : Reader β} (hread : ∀ other, read other = first other >>= second)
    (hfirst : Local first front tokens)
    (hsecond : ∀ a taken rest, tokens = taken ++ rest →
      Local (fun other => second (a, other)) (front ++ taken) rest) :
    Local read front tokens := by
  cases hfirst with
  | @fails taken rest error levels hsplit hnoEnd htells heq =>
      have hfails (other : List Token) (hcurrent : current other = current rest) :
          read (taken ++ other) = .error ⟨error, ⟨other, levels⟩⟩ := by
        rw [hread, heq other hcurrent]
        rfl
      exact .fails hsplit hnoEnd htells hfails
  | @takes taken middle a hsplit hnoEnd heq =>
      -- What is behind the first reading begins with what the second one takes or, if that is
      -- nothing, with a token of the same kind.
      subst hsplit
      cases hsecond a taken middle rfl with
      | @takes more rest b hsplit' hnoEnd' heq' =>
          subst hsplit'
          have htakes (other : List Token) (halike : Alike other rest) :
              read (taken ++ more ++ other) = .ok (b, other) := by
            rw [hread, List.append_assoc, heq _ (halike.append more)]
            exact heq' other halike
          exact .takes (List.append_assoc _ _ _).symm (hnoEnd.append hnoEnd') htakes
      | @fails more rest error levels hsplit' hnoEnd' htells heq' =>
          subst hsplit'
          have hfails (other : List Token) (hcurrent : current other = current rest) :
              read (taken ++ more ++ other) = .error ⟨error, ⟨other, levels⟩⟩ := by
            rw [hread, List.append_assoc, heq _ ((alike_of_current_eq hcurrent).append more)]
            exact heq' other hcurrent
          rw [List.append_assoc] at htells
          exact .fails (List.append_assoc _ _ _).symm (hnoEnd.append hnoEnd') htells hfails

theorem map {first : Reader α} (h : Local first front tokens) (f : α → β) :
    Local (fun rest => first rest >>= fun read => .ok (f read.1, read.2)) front tokens :=
  .bind (fun _ => rfl) h fun a _ _ _ => ok (f a) _ _

/-- A reading that takes up another one wherever the next token is of this kind. -/
theorem congr {next : Reader α} (hread : ∀ other, Alike other tokens → read other = next other)
    (h : Local next front tokens) : Local read front tokens := by
  cases h with
  | takes hsplit hnoEnd heq =>
      subst hsplit
      exact .takes rfl hnoEnd fun other halike =>
        (hread _ (halike.append _)).trans (heq other halike)
  | fails hsplit hnoEnd htells heq =>
      subst hsplit
      exact .fails rfl hnoEnd htells fun other hcurrent =>
        (hread _ ((alike_of_current_eq hcurrent).append _)).trans (heq other hcurrent)

theorem length_le {a : α} (h : Local read front tokens) (hread : read tokens = .ok (a, rest)) :
    rest.length ≤ tokens.length := by
  cases h with
  | takes hsplit _ heq =>
      subst hsplit
      rw [heq _ rfl] at hread
      cases hread
      simp
  | fails hsplit _ _ heq =>
      subst hsplit
      rw [heq _ rfl] at hread
      cases hread

/-- Where reading fails, it fails again with anything else behind the token it stopped at. -/
theorem exists_of_error (h : Local read front tokens) {failure : Failure}
    (hread : read tokens = .error failure) :
    ∃ taken, tokens = taken ++ failure.parser.rest ∧ NoEnd taken ∧
      Tells failure.error (front ++ taken) (current failure.parser.rest) ∧
        ∀ other, current other = current failure.parser.rest →
          read (taken ++ other) = .error ⟨failure.error, ⟨other, failure.parser.levels⟩⟩ := by
  cases h with
  | takes hsplit _ heq =>
      subst hsplit
      rw [heq _ rfl] at hread
      cases hread
  | fails hsplit hnoEnd htells heq =>
      subst hsplit
      rw [heq _ rfl] at hread
      cases hread
      exact ⟨_, rfl, hnoEnd, htells, heq⟩

end Local

end

/-! ### The procedures -/

section

variable {α : Type} {levels inner : Nat} {tokens front : List Token}

theorem closeParen_of_ne {what : String} (h : (current tokens).lexeme ≠ .rightParen) :
    closeParen levels what tokens = .error (notExpected levels what tokens) := by
  unfold closeParen
  split
  · exact absurd rfl h
  · rfl

theorem local_closeParen (levels : Nat) {what : String} (hwhat : Expects what front)
    {next : Reader α} (hnext : ∀ token rest, Local next (front ++ [token]) rest)
    (tokens : List Token) :
    Local (fun rest => closeParen levels what rest >>= next) front tokens := by
  by_cases hlexeme : (current tokens).lexeme = .rightParen
  · obtain ⟨start, stop, rest, rfl⟩ := exists_cons_of_lexeme hlexeme (by simp)
    exact .cons rfl (fun _ => rfl) (hnext _ rest)
  · have hrefuses (other : List Token) (hcurrent : current other = current tokens) :
        (closeParen levels what other >>= next) =
          .error ⟨.expected what (current tokens).text (current tokens).start,
            ⟨other, levels⟩⟩ := by
      have hother : (current other).lexeme ≠ .rightParen := by rwa [hcurrent]
      rw [closeParen_of_ne hother, notExpected, hcurrent]
      rfl
    exact .refuses levels (.expected hwhat) hrefuses

/-- What comes behind may as well be read behind the level as on it. -/
theorem deeper_bind {β : Type} {next : Nat → Reader α}
    {second : α × List Token → Except Failure (β × List Token)} :
    deeper levels (fun inner behind => next inner behind >>= second) tokens =
      deeper levels next tokens >>= second := by
  cases levels <;> rfl

theorem moreItems_of_ne {item : Reader Expr} {count : Nat}
    (h : (current tokens).lexeme ≠ .comma) : moreItems item count tokens = .ok ([], tokens) := by
  unfold moreItems
  split
  · exact absurd rfl h
  · rfl

/-- It does not matter how many tokens are counted, so long as no item is left with more of them. -/
theorem moreItems_count {item : Reader Expr}
    (hitem : ∀ tokens e rest, item tokens = .ok (e, rest) → rest.length ≤ tokens.length)
    {count count' : Nat} (h : tokens.length ≤ count) (h' : tokens.length ≤ count') :
    moreItems item count tokens = moreItems item count' tokens := by
  induction count generalizing count' tokens with
  | zero =>
      obtain rfl := List.length_eq_zero_iff.1 (Nat.le_zero.1 h)
      cases count' <;> rfl
  | succ count ih =>
      by_cases hlexeme : (current tokens).lexeme = .comma
      · obtain ⟨start, stop, rest, rfl⟩ := exists_cons_of_lexeme hlexeme (by simp)
        obtain ⟨count', rfl⟩ : ∃ more, count' = more + 1 :=
          Nat.exists_eq_add_one.2 (Nat.lt_of_lt_of_le (Nat.zero_lt_succ _) h')
        rw [moreItems, moreItems]
        cases hread : item rest with
        | error failure => rfl
        | ok pair =>
            have hle := hitem _ _ _ hread
            rw [List.length_cons] at h h'
            have hmore : moreItems item count pair.2 = moreItems item count' pair.2 :=
              ih (by omega) (by omega)
            simp only [bind, Except.bind, hmore]
      · rw [moreItems_of_ne hlexeme, moreItems_of_ne hlexeme]

theorem moreItems_comma {item : Reader Expr}
    (hitem : ∀ tokens e rest, item tokens = .ok (e, rest) → rest.length ≤ tokens.length)
    (start stop : Nat) (tokens : List Token) :
    moreItems item (tokens.length + 1) (⟨.comma, start, stop⟩ :: tokens) =
      item tokens >>= fun first =>
        moreItems item first.2.length first.2 >>= fun others =>
          .ok (first.1 :: others.1, others.2) := by
  rw [moreItems]
  cases hread : item tokens with
  | error failure => rfl
  | ok first =>
      have hmore := moreItems_count hitem (hitem _ _ _ hread) (Nat.le_refl first.2.length)
      simp only [bind, Except.bind, hmore]
      rfl

theorem local_moreItems {item : Reader Expr}
    (hitem : ∀ front tokens, Local item front tokens) (front tokens : List Token) :
    Local (fun rest => moreItems item rest.length rest) front tokens := by
  -- Every further item begins behind a comma, so there are fewer tokens left each time.
  induction hlength : tokens.length using Nat.strongRecOn generalizing front tokens with
  | ind length ih =>
      by_cases hlexeme : (current tokens).lexeme = .comma
      · obtain ⟨start, stop, tokens, rfl⟩ := exists_cons_of_lexeme hlexeme (by simp)
        have hle (tokens : List Token) (e : Expr) (rest : List Token)
            (hread : item tokens = .ok (e, rest)) : rest.length ≤ tokens.length :=
          (hitem [] tokens).length_le hread
        refine .cons rfl (moreItems_comma hle start stop) ?_
        refine .bind (fun _ => rfl) (hitem _ tokens) fun first taken rest hsplit => ?_
        have hlt : rest.length < length := by
          rw [← hlength, hsplit, List.length_cons, List.length_append]
          omega
        exact (ih _ hlt _ rest rfl).map (first :: ·)
      · have hstays (other : List Token) (halike : Alike other tokens) :
            moreItems item other.length other = .ok ([], other) :=
          moreItems_of_ne (by rwa [halike])
        exact .stays hstays

/-! ### Chains of operands -/

/-- Signs of a kind and the operands behind them, each a level below the one before it. -/
structure IsChain (joins : Op → Bool) (operand : Nat → Reader Expr)
    (more : Nat → Expr → Reader Expr) : Prop where
  of_not_joins {levels : Nat} {left : Expr} {tokens : List Token} :
    (∀ sign, (current tokens).lexeme = .op sign → joins sign = false) →
      more levels left tokens = .ok (left, tokens)
  zero {sign : Op} {start stop : Nat} {left : Expr} {rest : List Token} : joins sign = true →
    more 0 left (⟨.op sign, start, stop⟩ :: rest) = .error (tooDeep rest)
  succ {inner : Nat} {sign : Op} {start stop : Nat} {left : Expr} {rest : List Token} :
    joins sign = true →
      more (inner + 1) left (⟨.op sign, start, stop⟩ :: rest) =
        operand inner rest >>= fun right => more inner (.binary sign left right.1) right.2

theorem isChain_moreTerms : IsChain Op.joinsTerms term moreTerms where
  of_not_joins h := by
    rw [moreTerms.eq_def]
    split
    · rw [h _ rfl]
      rfl
    · rfl
  zero h := by rw [moreTerms, if_pos h]
  succ h := by rw [moreTerms, if_pos h]

theorem isChain_moreFactors : IsChain Op.joinsFactors power moreFactors where
  of_not_joins h := by
    rw [moreFactors.eq_def]
    split
    · rw [h _ rfl]
      rfl
    · rfl
  zero h := by rw [moreFactors, if_pos h]
  succ h := by rw [moreFactors, if_pos h]

theorem IsChain.joined {joins : Op → Bool} {operand : Nat → Reader Expr}
    {more : Nat → Expr → Reader Expr} (h : IsChain joins operand more) {sign : Op}
    (hsign : joins sign = true) (levels start stop : Nat) (left : Expr) (rest : List Token) :
    more levels left (⟨.op sign, start, stop⟩ :: rest) =
      deeper levels (fun inner behind => operand inner behind >>= fun right =>
        more inner (.binary sign left right.1) right.2) rest := by
  cases levels with
  | zero => exact h.zero hsign
  | succ inner => exact h.succ hsign

theorem IsChain.local_more {joins : Op → Bool} {operand : Nat → Reader Expr}
    {more : Nat → Expr → Reader Expr} (h : IsChain joins operand more) (levels : Nat)
    (hoperand : ∀ inner < levels, ∀ front tokens, Local (operand inner) front tokens)
    (left : Expr) (front tokens : List Token) : Local (more levels left) front tokens := by
  induction levels using Nat.strongRecOn generalizing left front tokens with
  | ind levels ih =>
      by_cases hjoins : ∃ sign, (current tokens).lexeme = .op sign ∧ joins sign = true
      · obtain ⟨sign, hlexeme, hsign⟩ := hjoins
        obtain ⟨start, stop, tokens, rfl⟩ := exists_cons_of_lexeme hlexeme (by simp)
        refine .cons rfl (h.joined hsign levels start stop left) (.deeper fun inner hinner => ?_)
        exact .bind (fun _ => rfl) (hoperand inner hinner _ tokens) fun right taken rest _ =>
          ih inner hinner (fun below hbelow => hoperand below (Nat.lt_trans hbelow hinner))
            (.binary sign left right) _ rest
      · refine .stays fun other halike => h.of_not_joins fun sign hlexeme => ?_
        have hnone := not_and.1 (not_exists.1 hjoins sign) (halike ▸ hlexeme)
        simpa using hnone

/-! ### All procedures -/

def exponent (levels : Nat) (base : Expr) (tokens : List Token) :
    Except Failure (Expr × List Token) :=
  match tokens with
  | ⟨.op .pow, _, _⟩ :: behind =>
      match levels with
      | 0 => .error (tooDeep behind)
      | inner + 1 => power inner behind >>= fun exponent =>
          .ok (.binary .pow base exponent.1, exponent.2)
  | _ => .ok (base, tokens)

theorem power_eq (levels : Nat) (tokens : List Token) :
    power levels tokens = unary levels tokens >>= fun base => exponent levels base.1 base.2 := by
  rw [power]
  rfl

theorem exponent_pow (levels start stop : Nat) (base : Expr) (rest : List Token) :
    exponent levels base (⟨.op .pow, start, stop⟩ :: rest) =
      deeper levels (fun inner behind => power inner behind >>= fun read =>
        .ok (.binary .pow base read.1, read.2)) rest := by
  cases levels <;> rfl

theorem exponent_of_ne {base : Expr} (h : (current tokens).lexeme ≠ .op .pow) :
    exponent levels base tokens = .ok (base, tokens) := by
  unfold exponent
  split
  · exact absurd rfl h
  · rfl

theorem unary_add (levels start stop : Nat) (rest : List Token) :
    unary levels (⟨.op .add, start, stop⟩ :: rest) = deeper levels unary rest := by
  cases levels <;> rw [unary] <;> rfl

theorem unary_sub (levels start stop : Nat) (rest : List Token) :
    unary levels (⟨.op .sub, start, stop⟩ :: rest) =
      deeper levels (fun inner behind => unary inner behind >>= fun read =>
        .ok (.neg read.1, read.2)) rest := by
  cases levels <;> rw [unary] <;> rfl

theorem unary_of_ne (hadd : (current tokens).lexeme ≠ .op .add)
    (hsub : (current tokens).lexeme ≠ .op .sub) :
    unary levels tokens = primary levels tokens := by
  rw [unary.eq_def]
  split
  · exact absurd rfl hadd
  · exact absurd rfl hsub
  · rfl

theorem primary_of_ne (hnumber : ∀ text, (current tokens).lexeme ≠ .number text)
    (hname : ∀ name, (current tokens).lexeme ≠ .name name)
    (hparen : (current tokens).lexeme ≠ .leftParen) :
    primary levels tokens =
      .error ⟨.unexpectedToken (current tokens).text (current tokens).start, ⟨tokens, levels⟩⟩ := by
  rw [primary.eq_def]
  split
  · exact absurd rfl (hnumber _)
  · exact absurd rfl (hname _)
  · exact absurd rfl (hname _)
  · exact absurd rfl hparen
  · rfl

theorem primary_call (levels start stop start' stop' : Nat) (name : String) (rest : List Token) :
    primary levels (⟨.name name, start, stop⟩ :: ⟨.leftParen, start', stop'⟩ :: rest) =
      deeper levels (fun inner => call inner name start) rest := by
  cases levels <;> rw [primary] <;> rfl

theorem primary_leftParen (levels start stop : Nat) (rest : List Token) :
    primary levels (⟨.leftParen, start, stop⟩ :: rest) =
      deeper levels (fun inner behind => expression inner behind >>= fun body =>
        closeParen levels "')'" body.2 >>= fun rest => .ok (body.1, rest)) rest := by
  cases levels <;> rw [primary] <;> rfl

/-- What a name stands for that no parenthesis comes behind. -/
def named (name : String) : Expr :=
  match Constant.value? (Text.lower name) with
  | some value => .number value
  | none => .var name

theorem primary_name {name : String} {start stop : Nat}
    (h : (current tokens).lexeme ≠ .leftParen) :
    primary levels (⟨.name name, start, stop⟩ :: tokens) = .ok (named name, tokens) := by
  rw [primary.eq_def]
  split
  · rename_i heq
    cases heq
  · rename_i heq
    cases heq
    exact absurd rfl h
  · rename_i heq
    cases heq
    unfold named
    cases Constant.value? (Text.lower name) with
    | some value => rfl
    | none => rfl
  · rename_i heq
    cases heq
  · rename_i hnone _
    exact (hnone _ _ _ _ rfl).elim

theorem arguments_of_ne (h : (current tokens).lexeme ≠ .rightParen) :
    arguments levels tokens =
      expression levels tokens >>= fun first =>
        moreItems (expression levels) first.2.length first.2 >>= fun others =>
          .ok (first.1 :: others.1, others.2) := by
  rw [arguments.eq_def]
  split
  · exact absurd rfl h
  · rfl

mutual

theorem local_expression (levels : Nat) (front tokens : List Token) :
    Local (expression levels) front tokens :=
  .bind (fun other => expression.eq_def levels other) (local_term levels front tokens)
    fun left taken rest _ => local_moreTerms levels left (front ++ taken) rest
termination_by 8 * levels + 6

theorem local_moreTerms (levels : Nat) (left : Expr) (front tokens : List Token) :
    Local (moreTerms levels left) front tokens :=
  isChain_moreTerms.local_more levels (fun inner _ => local_term inner) left front tokens
termination_by 8 * levels

theorem local_term (levels : Nat) (front tokens : List Token) :
    Local (term levels) front tokens :=
  .bind (fun other => term.eq_def levels other) (local_power levels front tokens)
    fun left taken rest _ => local_moreFactors levels left (front ++ taken) rest
termination_by 8 * levels + 5

theorem local_moreFactors (levels : Nat) (left : Expr) (front tokens : List Token) :
    Local (moreFactors levels left) front tokens :=
  isChain_moreFactors.local_more levels (fun inner _ => local_power inner) left front tokens
termination_by 8 * levels

theorem local_power (levels : Nat) (front tokens : List Token) :
    Local (power levels) front tokens :=
  .bind (power_eq levels) (local_unary levels front tokens)
    fun base taken rest _ => local_exponent levels base (front ++ taken) rest
termination_by 8 * levels + 4

theorem local_exponent (levels : Nat) (base : Expr) (front tokens : List Token) :
    Local (exponent levels base) front tokens := by
  by_cases hpow : (current tokens).lexeme = .op .pow
  · obtain ⟨start, stop, tokens, rfl⟩ := exists_cons_of_lexeme hpow (by simp)
    exact .cons rfl (exponent_pow levels start stop base)
      (.deeper fun inner _ => (local_power inner _ tokens).map (Expr.binary .pow base ·))
  · exact .stays fun other halike => exponent_of_ne (by rwa [halike])
termination_by 8 * levels

theorem local_unary (levels : Nat) (front tokens : List Token) :
    Local (unary levels) front tokens := by
  by_cases hadd : (current tokens).lexeme = .op .add
  · obtain ⟨start, stop, tokens, rfl⟩ := exists_cons_of_lexeme hadd (by simp)
    exact .cons rfl (unary_add levels start stop)
      (.deeper fun inner _ => local_unary inner _ tokens)
  by_cases hsub : (current tokens).lexeme = .op .sub
  · obtain ⟨start, stop, tokens, rfl⟩ := exists_cons_of_lexeme hsub (by simp)
    exact .cons rfl (unary_sub levels start stop)
      (.deeper fun inner _ => (local_unary inner _ tokens).map Expr.neg)
  · exact .congr (fun other halike => unary_of_ne (by rwa [halike]) (by rwa [halike]))
      (local_primary levels front tokens)
termination_by 8 * levels + 3

theorem local_primary (levels : Nat) (front tokens : List Token) :
    Local (primary levels) front tokens := by
  cases hlexeme : (current tokens).lexeme with
  | number text =>
      obtain ⟨start, stop, tokens, rfl⟩ := exists_cons_of_lexeme hlexeme (by simp)
      cases hvalue : Decimal.number? text with
      | some value =>
          exact .cons rfl (fun other => by rw [primary, hvalue]) (.ok (.number value) _ _)
      | none =>
          have htells : Tells (.invalidNumber text start)
              (front ++ [⟨.number text, start, stop⟩]) (current tokens) :=
            .invalidNumber (List.mem_append_right front List.mem_cons_self) hvalue
          exact .cons rfl (fun other => by rw [primary, hvalue])
            (.refuses levels htells fun _ _ => rfl)
  | name name =>
      obtain ⟨start, stop, tokens, rfl⟩ := exists_cons_of_lexeme hlexeme (by simp)
      by_cases hparen : (current tokens).lexeme = .leftParen
      · obtain ⟨start', stop', tokens, rfl⟩ := exists_cons_of_lexeme hparen (by simp)
        have hcall (inner : Nat) (hinner : inner < levels) :
            Local (call inner name start)
              (front ++ [⟨.name name, start, stop⟩] ++ [⟨.leftParen, start', stop'⟩]) tokens :=
          local_call inner _ tokens ⟨front, [], by rw [List.append_nil, List.append_assoc]; rfl⟩
        exact .cons rfl (fun _ => rfl)
          (.cons rfl (primary_call levels start stop start' stop' name) (.deeper hcall))
      · -- The token behind the name is no parenthesis, and no more is asked of it.
        exact .cons rfl (fun _ => rfl) (.stays fun other halike => primary_name (by rwa [halike]))
  | leftParen =>
      obtain ⟨start, stop, tokens, rfl⟩ := exists_cons_of_lexeme hlexeme (by simp)
      refine .cons rfl (primary_leftParen levels start stop) (.deeper fun inner _ => ?_)
      exact .bind (fun _ => rfl) (local_expression inner _ tokens)
        fun body _ _ _ => local_closeParen levels .closing (fun _ _ => .ok body _ _) _
  | op | rightParen | comma | eof =>
      have hrefuses (other : List Token) (hcurrent : current other = current tokens) :
          primary levels other =
            .error ⟨.unexpectedToken (current tokens).text (current tokens).start,
              ⟨other, levels⟩⟩ := by
        rw [primary_of_ne, hcurrent]
        all_goals simp [hcurrent, hlexeme]
      exact .refuses levels (.unexpectedToken (by simp [hlexeme])) hrefuses
termination_by 8 * levels + 2

/-- The name of the function and the parenthesis behind it have been taken before. -/
theorem local_call (levels : Nat) {name : String} {start stop start' stop' : Nat}
    (front tokens : List Token)
    (hfront : [⟨.name name, start, stop⟩, ⟨.leftParen, start', stop'⟩] <:+: front) :
    Local (call levels name start) front tokens := by
  refine .bind (fun other => call.eq_def levels name start other)
    (local_arguments levels front tokens) fun args taken rest _ => ?_
  have hopened : [⟨.name name, start, stop⟩, ⟨.leftParen, start', stop'⟩] <:+: front ++ taken :=
    hfront.trans ⟨[], taken, rfl⟩
  refine local_closeParen levels (.closingCall hopened) (fun token rest => ?_) rest
  by_cases hfunction : Builtin.isFunction (Text.lower name) = true
  · exact .stays fun other _ => if_pos hfunction
  · have hmore : [⟨.name name, start, stop⟩, ⟨.leftParen, start', stop'⟩] <:+:
        front ++ taken ++ [token] :=
      hopened.trans ⟨[], [token], rfl⟩
    have htells : Tells (.unknownFunction name start) (front ++ taken ++ [token]) (current rest) :=
      .unknownFunction hmore (by simpa using hfunction)
    exact .refuses levels htells fun other _ => if_neg hfunction
termination_by 8 * levels + 8

theorem local_arguments (levels : Nat) (front tokens : List Token) :
    Local (arguments levels) front tokens := by
  by_cases hlexeme : (current tokens).lexeme = .rightParen
  · have hstays (other : List Token) (halike : Alike other tokens) :
        arguments levels other = .ok ([], other) := by
      obtain ⟨start, stop, rest, rfl⟩ := exists_cons_of_lexeme (halike.trans hlexeme) (by simp)
      rw [arguments]
    exact .stays hstays
  · refine .congr (fun other halike => arguments_of_ne (by rwa [halike])) ?_
    refine .bind (fun _ => rfl) (local_expression levels front tokens) fun first taken rest _ => ?_
    exact (local_moreItems (local_expression levels) _ rest).map (first :: ·)
termination_by 8 * levels + 7

end

def wholly (levels : Nat) (tokens : List Token) : Except Failure (Expr × List Token) :=
  expression levels tokens >>= fun read =>
    if (current read.2).isEof then .ok read
    else .error (notExpected levels "end of expression" read.2)

theorem parse_eq (parser : Parser) :
    parser.parse =
      match wholly parser.levels parser.rest with
      | .error failure => (.error failure.error, failure.parser)
      | .ok read => (.ok read.1, ⟨read.2, parser.levels⟩) := by
  unfold parse wholly
  cases expression parser.levels parser.rest with
  | error failure => rfl
  | ok read =>
      by_cases hend : (current read.2).isEof = true
      · simp [bind, Except.bind, hend]
      · simp [bind, Except.bind, hend, notExpected]

theorem parse_fst (parser : Parser) :
    parser.parse.1 =
      match wholly parser.levels parser.rest with
      | .error failure => .error failure.error
      | .ok read => .ok read.1 := by
  rw [parse_eq]
  cases wholly parser.levels parser.rest <;> rfl

theorem parse_eq_error_iff {parser : Parser} {error : ParseError} :
    parser.parse.1 = .error error ↔
      ∃ failure, wholly parser.levels parser.rest = .error failure ∧ failure.error = error := by
  rw [parse_fst]
  cases wholly parser.levels parser.rest with
  | error failure => simp
  | ok read => simp

theorem local_wholly (levels : Nat) (tokens : List Token) : Local (wholly levels) [] tokens := by
  refine .bind (fun _ => rfl) (local_expression levels [] tokens) fun e taken rest _ => ?_
  by_cases hend : (current rest).isEof = true
  · refine .stays fun other halike => if_pos ?_
    rwa [Token.isEof, halike]
  · refine .refuses levels (.expected .ending) fun other hcurrent => ?_
    rw [if_neg (by rwa [hcurrent]), notExpected, hcurrent]

end

end Secant.Parser
