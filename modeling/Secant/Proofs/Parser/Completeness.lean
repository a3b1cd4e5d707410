import Secant.Expr.Parser
import Secant.Proofs.Grammar

/-!
Every sentence is read. A phrase of the grammar is read off the front of any tokens that do not
continue it, provided that the levels it goes down are there; where they are not, the reading ends
with the complaint that it goes too deep and with no other.
-/

namespace Secant.Parser

/-! ### Levels that are needed -/

section

variable {α β : Type}

def RunsOut (result : Except Failure α) : Prop :=
  ∃ position parser, result = .error ⟨.tooDeep maxLevels position, parser⟩

/-- Reading something that goes down `needed` levels comes to `goal` if there are so many levels,
and runs out of levels otherwise. -/
structure Takes (needed levels : Nat) (goal result : Except Failure α) : Prop where
  enough : needed ≤ levels → result = goal
  short : levels < needed → RunsOut result

theorem Takes.le_of_ok {needed levels : Nat} {a : α} {goal result : Except Failure α}
    (h : Takes needed levels goal result) (hresult : result = .ok a) : needed ≤ levels := by
  apply Nat.le_of_not_lt
  intro hlt
  obtain ⟨position, parser, hshort⟩ := h.short hlt
  rw [hresult] at hshort
  cases hshort

theorem RunsOut.bind {result : Except Failure α} (h : RunsOut result)
    (f : α → Except Failure β) : RunsOut (result >>= f) := by
  obtain ⟨position, parser, rfl⟩ := h
  exact ⟨position, parser, rfl⟩

theorem runsOut_tooDeep (rest : List Token) :
    RunsOut (.error (tooDeep rest) : Except Failure α) :=
  ⟨_, _, rfl⟩

theorem Takes.nothing (levels : Nat) (result : Except Failure α) : Takes 0 levels result result :=
  ⟨fun _ => rfl, fun h => absurd h (Nat.not_lt_zero _)⟩

theorem Takes.none_left {needed : Nat} {goal result : Except Failure α} (h : RunsOut result) :
    Takes (needed + 1) 0 goal result :=
  ⟨fun hle => absurd hle (Nat.not_succ_le_zero _), fun _ => h⟩

theorem Takes.down {needed inner : Nat} {goal result : Except Failure α}
    (h : Takes needed inner goal result) : Takes (needed + 1) (inner + 1) goal result :=
  ⟨fun hle => h.enough (Nat.le_of_succ_le_succ hle),
    fun hlt => h.short (Nat.lt_of_succ_lt_succ hlt)⟩

theorem Takes.below {needed inner : Nat} {goal result : Except Failure α} (above : Nat)
    (h : Takes needed inner goal result) : Takes (above + needed) (above + inner) goal result :=
  ⟨fun hle => h.enough (by omega), fun hlt => h.short (by omega)⟩

theorem Takes.trans {needed needed' levels : Nat} {goal middle result : Except Failure α}
    (first : Takes needed levels middle result)
    (second : needed ≤ levels → Takes needed' levels goal middle) :
    Takes (max needed needed') levels goal result := by
  constructor
  · intro hle
    have hneeded : needed ≤ levels := by omega
    rw [first.enough hneeded]
    exact (second hneeded).enough (by omega)
  · intro hlt
    by_cases hneeded : needed ≤ levels
    · rw [first.enough hneeded]
      exact (second hneeded).short (by omega)
    · exact first.short (by omega)

theorem Takes.bind {needed needed' levels : Nat} {a : α} {result : Except Failure α}
    {f : α → Except Failure β} {goal : Except Failure β}
    (first : Takes needed levels (.ok a) result) (second : Takes needed' levels goal (f a)) :
    Takes (max needed needed') levels goal (result >>= f) := by
  have hfirst : Takes needed levels (f a) (result >>= f) := by
    constructor
    · intro hle
      rw [first.enough hle]
      rfl
    · intro hlt
      exact (first.short hlt).bind f
  exact hfirst.trans fun _ => second

/-- A chain of `signs` signs and what is behind it, where `resume` goes on with the levels that the
chain has left: one more sign goes down a level and leaves a level less. -/
theorem Takes.join {signs needed below levels : Nat} (resume goal : Nat → Except Failure α)
    {result : Except Failure α} (first : Takes needed levels (resume (levels - signs)) result)
    (hsigns : signs ≤ needed)
    (next : ∀ spare, Takes (below + 1) spare (goal (spare - 1)) (resume spare)) :
    Takes (max needed (signs + 1 + below)) levels (goal (levels - (signs + 1))) result := by
  refine first.trans fun hle => ?_
  -- The chain so far has taken its levels, so the next sign finds the spare ones only.
  obtain ⟨spare, rfl⟩ := Nat.exists_eq_add_of_le (Nat.le_trans hsigns hle)
  have hbelow := (next spare).below signs
  rwa [Nat.add_sub_cancel_left, Nat.add_sub_add_left, Nat.add_assoc, Nat.add_comm 1]

theorem Takes.andThen {needed levels : Nat} {a : α} {result : Except Failure α}
    {f : α → Except Failure β} {goal : Except Failure β}
    (first : Takes needed levels (.ok a) result) (h : f a = goal) :
    Takes needed levels goal (result >>= f) := by
  subst h
  simpa using first.bind (Takes.nothing levels (f a))

end

/-! ### Where a phrase ends -/

/-- How strongly a lexeme behind a phrase draws the phrase in. -/
def pull : Lexeme → Nat
  | .leftParen => 4
  | .op .pow => 3
  | .op .mul | .op .div => 2
  | .op .add | .op .sub => 1
  | _ => 0

/-- The tokens do not continue a phrase that yields to lexemes of this pull or more. -/
def Ends (least : Nat) (rest : List Token) : Prop :=
  pull (current rest).lexeme < least

theorem Ends.succ {least : Nat} {rest : List Token} (h : Ends least rest) : Ends (least + 1) rest :=
  Nat.lt_succ_of_lt h

theorem ends_of_pull_eq_zero {token : Token} (h : pull token.lexeme = 0) (rest : List Token) :
    Ends 1 (token :: rest) := by
  simp [Ends, current, h]

theorem not_ends_op {sign : Op} {start stop : Nat} {rest : List Token} :
    ¬Ends 1 (⟨.op sign, start, stop⟩ :: rest) := by
  cases sign <;> simp [Ends, current, pull]

theorem not_ends_leftParen {start stop : Nat} {rest : List Token} :
    ¬Ends 4 (⟨.leftParen, start, stop⟩ :: rest) := by
  simp [Ends, current, pull]

theorem ends_of_joinsTerms {sign : Op} (h : sign.joinsTerms = true) (start stop : Nat)
    (rest : List Token) : Ends 2 (⟨.op sign, start, stop⟩ :: rest) := by
  cases sign <;> simp_all [Op.joinsTerms, Ends, current, pull]

theorem ends_of_joinsFactors {sign : Op} (h : sign.joinsFactors = true) (start stop : Nat)
    (rest : List Token) : Ends 3 (⟨.op sign, start, stop⟩ :: rest) := by
  cases sign <;> simp_all [Op.joinsFactors, Ends, current, pull]

theorem moreTerms_of_ends {rest : List Token} (levels : Nat) (left : Expr) (h : Ends 1 rest) :
    moreTerms levels left rest = .ok (left, rest) := by
  rw [moreTerms.eq_def]
  split
  · exact absurd h not_ends_op
  · rfl

theorem moreFactors_of_ends {rest : List Token} (levels : Nat) (left : Expr) (h : Ends 2 rest) :
    moreFactors levels left rest = .ok (left, rest) := by
  rw [moreFactors.eq_def]
  split
  · rename_i sign _ _ _
    cases sign <;> simp_all [Ends, current, pull, Op.joinsFactors]
  · rfl

theorem Takes.of_moreTerms {needed levels spare : Nat} {e : Expr} {rest : List Token}
    {result : Except Failure (Expr × List Token)}
    (h : Takes needed levels (moreTerms spare e rest) result) (hrest : Ends 1 rest) :
    Takes needed levels (.ok (e, rest)) result := by
  rwa [moreTerms_of_ends spare e hrest] at h

theorem Takes.of_moreFactors {needed levels spare : Nat} {e : Expr} {rest : List Token}
    {result : Except Failure (Expr × List Token)}
    (h : Takes needed levels (moreFactors spare e rest) result) (hrest : Ends 2 rest) :
    Takes needed levels (.ok (e, rest)) result := by
  rwa [moreFactors_of_ends spare e hrest] at h

theorem expression_rightParen (levels start stop : Nat) (rest : List Token) :
    expression levels (⟨.rightParen, start, stop⟩ :: rest) =
      .error ⟨.unexpectedToken ")" start, ⟨⟨.rightParen, start, stop⟩ :: rest, levels⟩⟩ := by
  rw [expression, term, power, unary, primary]
  all_goals simp [current, Token.text, Lexeme.text, bind, Except.bind]

theorem Takes.ne_rightParen_cons {needed : Nat} {e : Expr} {tokens rest : List Token}
    (h : Takes needed needed (.ok (e, rest)) (expression needed tokens)) (start stop : Nat)
    (behind : List Token) : tokens ≠ ⟨.rightParen, start, stop⟩ :: behind := by
  rintro rfl
  -- At the levels it needs the phrase is read, but nothing is read off a closing parenthesis.
  have hread := h.enough (Nat.le_refl _)
  rw [expression_rightParen] at hread
  cases hread

theorem moreItems_rightParen (item : List Token → Except Failure (Expr × List Token))
    (count start stop : Nat) (rest : List Token) :
    moreItems item count (⟨.rightParen, start, stop⟩ :: rest) =
      .ok ([], ⟨.rightParen, start, stop⟩ :: rest) := by
  rw [moreItems]
  simp

end Secant.Parser

namespace Secant.Grammar

theorem Primary.unary_eq {phrase : List Lexeme} {e : Expr} {needed : Nat}
    (h : Primary phrase e needed) {tokens : List Token} (rest : List Token) (levels : Nat)
    (htokens : tokens.map Token.lexeme = phrase) :
    Parser.unary levels (tokens ++ rest) = Parser.primary levels (tokens ++ rest) := by
  cases h
  all_goals
    obtain ⟨⟨_, start, stop⟩, next, rfl, rfl, hnext⟩ := List.map_eq_cons_iff.1 htokens
    rw [List.cons_append, Parser.unary]
    all_goals simp

open Secant.Parser

mutual

/-- The chain is read up to the signs behind it, which find as many levels fewer as there are signs
in it. -/
theorem Expression.takes {phrase : List Lexeme} {e : Expr} {signs needed : Nat} :
    Expression phrase e signs needed → ∀ {tokens rest : List Token} (levels : Nat),
      tokens.map Token.lexeme = phrase → Ends 2 rest →
        Takes needed levels (moreTerms (levels - signs) e rest)
          (expression levels (tokens ++ rest))
  | .single h, tokens, rest, levels, htokens, hrest => by
      rw [expression]
      exact ((h.takes levels htokens hrest.succ).of_moreFactors hrest).andThen rfl
  | .join h hsign h', tokens, rest, levels, htokens, hrest => by
      obtain ⟨front, behind, rfl, hfront, hbehind⟩ := List.map_eq_append_iff.1 htokens
      obtain ⟨⟨_, start, stop⟩, next, rfl, rfl, hnext⟩ := List.map_eq_cons_iff.1 hbehind
      rw [List.append_assoc, List.cons_append]
      have hends := ends_of_joinsTerms hsign start stop (next ++ rest)
      have hleft := h.takes levels hfront hends
      refine Takes.join (moreTerms · _ _) (moreTerms · _ _) hleft h.signs_le fun spare => ?_
      cases spare with
      | zero =>
          rw [moreTerms, if_pos hsign]
          exact .none_left (runsOut_tooDeep _)
      | succ inner =>
          rw [moreTerms, if_pos hsign]
          have hnext := h'.takes inner hnext hrest.succ
          exact .down (.andThen (hnext.of_moreFactors hrest) rfl)

theorem Term.takes {phrase : List Lexeme} {e : Expr} {marks needed : Nat} :
    Term phrase e marks needed → ∀ {tokens rest : List Token} (levels : Nat),
      tokens.map Token.lexeme = phrase → Ends 3 rest →
        Takes needed levels (moreFactors (levels - marks) e rest) (term levels (tokens ++ rest))
  | .single h, tokens, rest, levels, htokens, hrest => by
      rw [term]
      exact (h.takes levels htokens hrest).andThen rfl
  | .join h hsign h', tokens, rest, levels, htokens, hrest => by
      obtain ⟨front, behind, rfl, hfront, hbehind⟩ := List.map_eq_append_iff.1 htokens
      obtain ⟨⟨_, start, stop⟩, next, rfl, rfl, hnext⟩ := List.map_eq_cons_iff.1 hbehind
      rw [List.append_assoc, List.cons_append]
      have hends := ends_of_joinsFactors hsign start stop (next ++ rest)
      have hleft := h.takes levels hfront hends
      refine Takes.join (moreFactors · _ _) (moreFactors · _ _) hleft h.marks_le fun spare => ?_
      cases spare with
      | zero =>
          rw [moreFactors, if_pos hsign]
          exact .none_left (runsOut_tooDeep _)
      | succ inner =>
          rw [moreFactors, if_pos hsign]
          exact .down (.andThen (h'.takes inner hnext hrest) rfl)

theorem Power.takes {phrase : List Lexeme} {e : Expr} {needed : Nat} :
    Power phrase e needed → ∀ {tokens rest : List Token} (levels : Nat),
      tokens.map Token.lexeme = phrase → Ends 3 rest →
        Takes needed levels (.ok (e, rest)) (power levels (tokens ++ rest))
  | .base h, tokens, rest, levels, htokens, hrest => by
      rw [power]
      refine (h.takes levels htokens hrest.succ).andThen ?_
      dsimp only
      split
      · -- The base would go on as a power.
        simp [Ends, current, pull] at hrest
      · rfl
  | .raise h h', tokens, rest, levels, htokens, hrest => by
      obtain ⟨front, behind, rfl, hfront, hbehind⟩ := List.map_eq_append_iff.1 htokens
      obtain ⟨⟨_, start, stop⟩, next, rfl, rfl, hnext⟩ := List.map_eq_cons_iff.1 hbehind
      rw [List.append_assoc, List.cons_append, power]
      refine (h.takes levels hfront ?_).bind ?_
      · simp [Ends, current, pull]
      · cases levels with
        | zero => exact .none_left (runsOut_tooDeep _)
        | succ inner => exact .down (.andThen (h'.takes inner hnext hrest) rfl)

theorem Unary.takes {phrase : List Lexeme} {e : Expr} {needed : Nat} :
    Unary phrase e needed → ∀ {tokens rest : List Token} (levels : Nat),
      tokens.map Token.lexeme = phrase → Ends 4 rest →
        Takes needed levels (.ok (e, rest)) (unary levels (tokens ++ rest))
  | .primary h, tokens, rest, levels, htokens, hrest => by
      rw [h.unary_eq rest levels htokens]
      exact h.takes levels htokens hrest
  | .plus h, tokens, rest, levels, htokens, hrest => by
      obtain ⟨⟨_, start, stop⟩, next, rfl, rfl, hnext⟩ := List.map_eq_cons_iff.1 htokens
      cases levels with
      | zero =>
          rw [List.cons_append, unary]
          exact .none_left (runsOut_tooDeep _)
      | succ inner =>
          rw [List.cons_append, unary]
          exact (h.takes inner hnext hrest).down
  | .minus h, tokens, rest, levels, htokens, hrest => by
      obtain ⟨⟨_, start, stop⟩, next, rfl, rfl, hnext⟩ := List.map_eq_cons_iff.1 htokens
      cases levels with
      | zero =>
          rw [List.cons_append, unary]
          exact .none_left (runsOut_tooDeep _)
      | succ inner =>
          rw [List.cons_append, unary]
          exact .down (.andThen (h.takes inner hnext hrest) rfl)

theorem Primary.takes {phrase : List Lexeme} {e : Expr} {needed : Nat} :
    Primary phrase e needed → ∀ {tokens rest : List Token} (levels : Nat),
      tokens.map Token.lexeme = phrase → Ends 4 rest →
        Takes needed levels (.ok (e, rest)) (primary levels (tokens ++ rest))
  | .number h, tokens, rest, levels, htokens, hrest => by
      obtain ⟨⟨_, start, stop⟩, rfl, rfl⟩ := List.map_eq_singleton_iff.1 htokens
      rw [List.singleton_append, primary, h]
      exact .nothing _ _
  | .constant h, tokens, rest, levels, htokens, hrest => by
      obtain ⟨⟨_, start, stop⟩, rfl, rfl⟩ := List.map_eq_singleton_iff.1 htokens
      rw [List.singleton_append, primary, h]
      · exact .nothing _ _
      · -- A parenthesis behind the name would make it the name of a call.
        rintro _ _ _ rfl
        exact absurd hrest not_ends_leftParen
  | .var h, tokens, rest, levels, htokens, hrest => by
      obtain ⟨⟨_, start, stop⟩, rfl, rfl⟩ := List.map_eq_singleton_iff.1 htokens
      rw [List.singleton_append, primary, h]
      · exact .nothing _ _
      · -- A parenthesis behind the name would make it the name of a call.
        rintro _ _ _ rfl
        exact absurd hrest not_ends_leftParen
  | .call h hfunction, tokens, rest, levels, htokens, hrest => by
      obtain ⟨⟨_, start, stop⟩, behind, rfl, rfl, hbehind⟩ := List.map_eq_cons_iff.1 htokens
      obtain ⟨⟨_, _, _⟩, inside, rfl, rfl, hinside⟩ := List.map_eq_cons_iff.1 hbehind
      obtain ⟨args, close, rfl, hargs, hclose⟩ := List.map_eq_append_iff.1 hinside
      obtain ⟨⟨_, start', stop'⟩, rfl, rfl⟩ := List.map_eq_singleton_iff.1 hclose
      rw [List.cons_append, List.cons_append, List.append_assoc, List.singleton_append]
      cases levels with
      | zero =>
          rw [primary]
          exact .none_left (runsOut_tooDeep _)
      | succ inner =>
          rw [primary, call]
          refine .down (.andThen (h.takes inner hargs start' stop' rest) ?_)
          simp [closeParen, hfunction, bind, Except.bind, pure, Except.pure]
  | .paren h, tokens, rest, levels, htokens, hrest => by
      obtain ⟨⟨_, start, stop⟩, inside, rfl, rfl, hinside⟩ := List.map_eq_cons_iff.1 htokens
      obtain ⟨body, close, rfl, hbody, hclose⟩ := List.map_eq_append_iff.1 hinside
      obtain ⟨⟨_, start', stop'⟩, rfl, rfl⟩ := List.map_eq_singleton_iff.1 hclose
      rw [List.cons_append, List.append_assoc, List.singleton_append]
      cases levels with
      | zero =>
          rw [primary]
          exact .none_left (runsOut_tooDeep _)
      | succ inner =>
          rw [primary]
          have hend : Ends 1 (⟨.rightParen, start', stop'⟩ :: rest) := ends_of_pull_eq_zero rfl rest
          have hbody := h.takes inner hbody hend.succ
          exact .down (.andThen (hbody.of_moreTerms hend) rfl)

/-- The list of arguments is read up to the parenthesis behind it. -/
theorem Arguments.takes {phrase : List Lexeme} {args : List Expr} {needed : Nat} :
    Arguments phrase args needed → ∀ {tokens : List Token} (levels : Nat),
      tokens.map Token.lexeme = phrase → ∀ (start stop : Nat) (rest : List Token),
        Takes needed levels (.ok (args, ⟨.rightParen, start, stop⟩ :: rest))
          (arguments levels (tokens ++ ⟨.rightParen, start, stop⟩ :: rest))
  | .none, tokens, levels, htokens, start, stop, rest => by
      obtain rfl := List.map_eq_nil_iff.1 htokens
      rw [List.nil_append, arguments]
      exact .nothing _ _
  | .some (.last h), tokens, levels, htokens, start, stop, rest => by
      have hend : Ends 1 (⟨.rightParen, start, stop⟩ :: rest) := ends_of_pull_eq_zero rfl rest
      have hread levels := (h.takes levels htokens hend.succ).of_moreTerms hend
      rw [arguments]
      · refine (hread levels).andThen ?_
        dsimp only
        rw [moreItems_rightParen]
        rfl
      · exact (hread _).ne_rightParen_cons
  | .some (.cons h h'), tokens, levels, htokens, start, stop, rest => by
      obtain ⟨front, behind, rfl, hfront, hbehind⟩ := List.map_eq_append_iff.1 htokens
      obtain ⟨⟨_, start', stop'⟩, next, rfl, rfl, hnext⟩ := List.map_eq_cons_iff.1 hbehind
      rw [List.append_assoc, List.cons_append]
      have hend :
          Ends 1 (⟨.comma, start', stop'⟩ :: (next ++ ⟨.rightParen, start, stop⟩ :: rest)) :=
        ends_of_pull_eq_zero rfl _
      have hread levels := (h.takes levels hfront hend.succ).of_moreTerms hend
      rw [arguments]
      · refine (hread levels).bind (.andThen (h'.takes levels hnext _ _ _ _ _ _ ?_) rfl)
        rw [List.length_cons, List.length_append]
        omega
      · exact (hread _).ne_rightParen_cons

theorem Items.takes {phrase : List Lexeme} {args : List Expr} {needed : Nat} :
    Items phrase args needed → ∀ {tokens : List Token} (levels : Nat),
      tokens.map Token.lexeme = phrase → ∀ (count start stop start' stop' : Nat)
        (rest : List Token), tokens.length < count →
        Takes needed levels (.ok (args, ⟨.rightParen, start', stop'⟩ :: rest))
          (moreItems (expression levels) count
            (⟨.comma, start, stop⟩ :: (tokens ++ ⟨.rightParen, start', stop'⟩ :: rest)))
  | .last h, tokens, levels, htokens, count + 1, start, stop, start', stop', rest, _ => by
      have hend : Ends 1 (⟨.rightParen, start', stop'⟩ :: rest) := ends_of_pull_eq_zero rfl rest
      rw [moreItems]
      refine ((h.takes levels htokens hend.succ).of_moreTerms hend).andThen ?_
      dsimp only
      rw [moreItems_rightParen]
      rfl
  | .cons h h', tokens, levels, htokens, count + 1, start, stop, start', stop', rest, hcount => by
      obtain ⟨front, behind, rfl, hfront, hbehind⟩ := List.map_eq_append_iff.1 htokens
      obtain ⟨⟨_, start'', stop''⟩, next, rfl, rfl, hnext⟩ := List.map_eq_cons_iff.1 hbehind
      rw [List.append_assoc, List.cons_append, moreItems]
      have hend : Ends 1
          (⟨.comma, start'', stop''⟩ :: (next ++ ⟨.rightParen, start', stop'⟩ :: rest)) :=
        ends_of_pull_eq_zero rfl _
      -- Every item has a comma before it, so the count of tokens outlasts the items.
      have hcount : next.length < count := by
        rw [List.length_append, List.length_cons] at hcount
        omega
      have hread := (h.takes levels hfront hend.succ).of_moreTerms hend
      exact hread.bind (.andThen (h'.takes levels hnext _ _ _ _ _ _ hcount) rfl)

end

end Secant.Grammar
