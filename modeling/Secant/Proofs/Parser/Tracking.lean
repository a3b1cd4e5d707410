import Secant.Proofs.Parser.Counting

/-!
Reading without counters, and with them. Whatever is read without counters is read with them: the
place goes forward and stays at a token, the levels that were counted are those that are not left,
and they are given back on success. Two lists of tokens that are the same up to an end are read in
the same way.
-/

namespace Secant.Counting

open Secant.Parser (Failure Reader maxLevels)

/-- The error may come up at this token. A token that is not expected is one that no expression
begins with. -/
def Blames (error : ParseError) (token : Token) : Prop :=
  ∀ text position, error = .unexpectedToken text position → opens token.lexeme = false

/-- Both have the same tokens up to the place `last`, and an end there. -/
structure Agree (tokens other : List Token) (last : Nat) : Prop where
  getElem?_eq : ∀ place ≤ last, other[place]? = tokens[place]?
  exists_end : ∃ token, tokens[last]? = some token ∧ token.isEof = true

/-- What the counters come to, from the cursor on, when this is read without them. The place goes
forward and not beyond `last`. On success the levels counted before in a chain are given back as
well. -/
inductive Follows {α : Type} (tokens : List Token) (last chained : Nat) (cursor : Cursor) :
    Except Failure (α × List Token) → EStateM.Result Stop Cursor α → Prop
  | ok {a : α} {place : Nat} :
      cursor.place ≤ place → place ≤ last → chained ≤ cursor.depth →
        Follows tokens last chained cursor (.ok (a, tokens.drop place))
          (.ok a ⟨place, cursor.depth - chained⟩)
  | error {error : ParseError} {place depth : Nat} :
      cursor.place ≤ place → place ≤ last → cursor.depth ≤ depth →
        (∀ token, tokens[place]? = some token → Blames error token) →
        Follows tokens last chained cursor
          (.error ⟨error, ⟨tokens.drop place, maxLevels - depth⟩⟩)
          (.error (.parse error) ⟨place, depth⟩)

/-- Both runs come to the same, which is what the reading without counters comes to. -/
structure Tracks {α : Type} (tokens : List Token) (last chained : Nat) (cursor : Cursor)
    (read : Except Failure (α × List Token)) (run run' : Run α) : Prop where
  run_eq : run' cursor = run cursor
  follows : Follows tokens last chained cursor read (run cursor)

section

variable {α : Type} {tokens other : List Token} {last chained : Nat} {cursor : Cursor}

theorem Agree.lt_length (h : Agree tokens other last) : last < tokens.length := by
  obtain ⟨ending, hending, -⟩ := h.exists_end
  exact (List.getElem?_eq_some_iff.1 hending).1

theorem Agree.symm (h : Agree tokens other last) : Agree other tokens last where
  getElem?_eq place hplace := (h.getElem?_eq place hplace).symm
  exists_end := by
    rw [h.getElem?_eq last (Nat.le_refl last)]
    exact h.exists_end

/-- Up to the place both have a token, and it is the last one only if it is an end. -/
theorem Agree.exists_token (h : Agree tokens other last) {place : Nat} (hplace : place ≤ last) :
    ∃ token, tokens[place]? = some token ∧ other[place]? = some token ∧
      tokens.drop place = token :: tokens.drop (place + 1) ∧
      (token.isEof = false → place + 1 ≤ last) := by
  obtain ⟨ending, hending, hend⟩ := h.exists_end
  have hlt : place < tokens.length := Nat.lt_of_le_of_lt hplace h.lt_length
  have htoken : tokens[place]? = some tokens[place] := List.getElem?_eq_getElem hlt
  refine ⟨tokens[place], htoken, (h.getElem?_eq place hplace).trans htoken,
    List.drop_eq_getElem_cons hlt, fun hne => ?_⟩
  refine Nat.lt_of_le_of_ne hplace fun heq => ?_
  subst heq
  rw [hending, Option.some.injEq] at htoken
  rw [← htoken, hend] at hne
  cases hne

theorem Follows.before {read : Except Failure (α × List Token)}
    {result : EStateM.Result Stop Cursor α} {place extra : Nat}
    (h : Follows tokens last (chained + extra) ⟨place, cursor.depth + extra⟩ read result)
    (hplace : cursor.place ≤ place) : Follows tokens last chained cursor read result := by
  cases h with
  | ok hle hlast hchained =>
      have hdepth : cursor.depth + extra - (chained + extra) = cursor.depth - chained := by omega
      rw [hdepth]
      exact .ok (Nat.le_trans hplace hle) hlast (Nat.le_of_add_le_add_right hchained)
  | error hle hlast hdepth hblames =>
      exact .error (Nat.le_trans hplace hle) hlast (Nat.le_of_add_right_le hdepth) hblames

end

namespace Tracks

variable {α β : Type} {tokens other : List Token} {last chained : Nat} {cursor : Cursor}

theorem pure (a : α) (hplace : cursor.place ≤ last) :
    Tracks tokens last 0 cursor (.ok (a, tokens.drop cursor.place)) (pure a) (pure a) :=
  ⟨rfl, .ok (Nat.le_refl _) hplace (Nat.zero_le _)⟩

theorem refuses {error : ParseError} {x x' : Run α}
    (hx : x cursor = .error (.parse error) cursor) (hx' : x' cursor = .error (.parse error) cursor)
    (hplace : cursor.place ≤ last)
    (hblames : ∀ token, tokens[cursor.place]? = some token → Blames error token) :
    Tracks tokens last chained cursor
      (.error ⟨error, ⟨tokens.drop cursor.place, maxLevels - cursor.depth⟩⟩) x x' := by
  refine ⟨hx'.trans hx.symm, ?_⟩
  rw [hx]
  exact .error (Nat.le_refl _) hplace (Nat.le_refl _) hblames

theorem step {read : Except Failure (β × List Token)} {x x' : Run α} {f f' : α → Run β} {a : α}
    {place : Nat} (hx : x cursor = .ok a ⟨place, cursor.depth⟩)
    (hx' : x' cursor = .ok a ⟨place, cursor.depth⟩) (hplace : cursor.place ≤ place)
    (h : Tracks tokens last chained ⟨place, cursor.depth⟩ read (f a) (f' a)) :
    Tracks tokens last chained cursor read (x >>= f) (x' >>= f') := by
  refine ⟨?_, ?_⟩
  · rw [run_bind_of_ok hx, run_bind_of_ok hx', h.run_eq]
  · rw [run_bind_of_ok hx]
    have hfollows : Follows tokens last (chained + 0) ⟨place, cursor.depth + 0⟩ read
        (f a ⟨place, cursor.depth⟩) := h.follows
    exact hfollows.before hplace

theorem bind {first : Except Failure (α × List Token)}
    {second : α × List Token → Except Failure (β × List Token)} {x x' : Run α} {f f' : α → Run β}
    (hfirst : Tracks tokens last 0 cursor first x x')
    (hsecond : ∀ a place, cursor.place ≤ place → place ≤ last →
      Tracks tokens last chained ⟨place, cursor.depth⟩ (second (a, tokens.drop place)) (f a)
        (f' a)) :
    Tracks tokens last chained cursor (first >>= second) (x >>= f) (x' >>= f') := by
  obtain ⟨hrun, hfollows⟩ := hfirst
  generalize hx : x cursor = result at hrun hfollows
  cases hfollows with
  | @ok a place hplace hlast _ => exact step hx hrun hplace (hsecond a place hplace hlast)
  | error hplace hlast hdepth hblames =>
      refine ⟨?_, ?_⟩
      · rw [run_bind_of_error hx, run_bind_of_error hrun]
      · rw [run_bind_of_error hx]
        exact .error hplace hlast hdepth hblames

theorem map {first : Except Failure (α × List Token)} {x x' : Run α} (f : α → β)
    (h : Tracks tokens last 0 cursor first x x') :
    Tracks tokens last 0 cursor (first >>= fun read => .ok (f read.1, read.2))
      (x >>= fun a => Pure.pure (f a)) (x' >>= fun a => Pure.pure (f a)) :=
  h.bind fun a _ _ hlast => pure (f a) hlast

theorem ascend (a : α) (hplace : cursor.place ≤ last) (hchained : chained ≤ cursor.depth) :
    Tracks tokens last chained cursor (.ok (a, tokens.drop cursor.place))
      (ascend chained >>= fun _ => Pure.pure a) (ascend chained >>= fun _ => Pure.pure a) := by
  refine ⟨rfl, ?_⟩
  rw [run_bind_of_ok (ascend_eq hchained)]
  exact .ok (Nat.le_refl _) hplace hchained

theorem descend (hagree : Agree tokens other last) (hplace : cursor.place ≤ last)
    {next : Nat → Reader α} {f f' : Unit → Run α}
    (h : cursor.depth < maxLevels →
      Tracks tokens last (chained + 1) ⟨cursor.place, cursor.depth + 1⟩
        (next (maxLevels - (cursor.depth + 1)) (tokens.drop cursor.place)) (f ()) (f' ())) :
    Tracks tokens last chained cursor
      (Parser.deeper (maxLevels - cursor.depth) next (tokens.drop cursor.place))
      (descend tokens >>= f) (descend other >>= f') := by
  rcases Nat.lt_or_ge cursor.depth maxLevels with hdepth | hdepth
  · have hlevels : maxLevels - cursor.depth = maxLevels - (cursor.depth + 1) + 1 := by omega
    have hbelow := h hdepth
    rw [hlevels]
    refine ⟨?_, ?_⟩
    · rw [run_bind_of_ok (descend_eq hdepth), run_bind_of_ok (descend_eq hdepth), hbelow.run_eq]
    · rw [run_bind_of_ok (descend_eq hdepth)]
      exact hbelow.follows.before (Nat.le_refl _)
  · -- No level is left, however it is counted, so both fail at the token that is looked at.
    obtain ⟨token, htoken, hother, hdrop, -⟩ := hagree.exists_token hplace
    have hlevels : maxLevels - cursor.depth = 0 := Nat.sub_eq_zero_of_le hdepth
    have hbelow : maxLevels - (cursor.depth + 1) = 0 :=
      Nat.sub_eq_zero_of_le (Nat.le_succ_of_le hdepth)
    have hrun := run_bind_of_error (f := f) (descend_eq_tooDeep htoken hdepth)
    have hrun' := run_bind_of_error (f := f') (descend_eq_tooDeep hother hdepth)
    refine ⟨hrun'.trans hrun.symm, ?_⟩
    have hread : Parser.deeper (maxLevels - cursor.depth) next (tokens.drop cursor.place) =
        .error ⟨.tooDeep maxLevels token.start,
          ⟨tokens.drop cursor.place, maxLevels - (cursor.depth + 1)⟩⟩ := by
      rw [hlevels, hbelow, hdrop]
      rfl
    rw [hrun, hread]
    refine .error (Nat.le_refl _) hplace (Nat.le_succ _) ?_
    rintro _ - _ _ ⟨⟩

theorem nested (hagree : Agree tokens other last) (hplace : cursor.place ≤ last) {bound : Nat}
    (hbound : maxLevels ≤ bound + cursor.depth) {next : Nat → Reader α}
    {body body' : (inner : Nat) → inner < bound → Run α}
    (h : ∀ inner (hinner : inner < bound), maxLevels ≤ inner + (cursor.depth + 1) →
      Tracks tokens last 0 ⟨cursor.place, cursor.depth + 1⟩
        (next (maxLevels - (cursor.depth + 1)) (tokens.drop cursor.place)) (body inner hinner)
        (body' inner hinner)) :
    Tracks tokens last 0 cursor
      (Parser.deeper (maxLevels - cursor.depth) next (tokens.drop cursor.place))
      (nested tokens bound body) (nested other bound body') := by
  refine descend hagree hplace fun hdepth => ?_
  obtain ⟨inner, rfl⟩ : ∃ inner, bound = inner + 1 := Nat.exists_eq_add_one.2 (by omega)
  have hread : next (maxLevels - (cursor.depth + 1)) (tokens.drop cursor.place) =
      next (maxLevels - (cursor.depth + 1)) (tokens.drop cursor.place) >>= fun read =>
        .ok (read.1, read.2) := (bind_pure _).symm
  rw [hread]
  exact (h inner (Nat.lt_succ_self inner) (by omega)).bind fun a place _ hlast =>
    ascend a hlast (Nat.le_add_left 1 cursor.depth)

/-- The operators of a chain and the operands behind them, from an operator on. -/
theorem of_isChain (hagree : Agree tokens other last) {joins : Op → Bool}
    {operand : Nat → Reader Expr} {more : Nat → Expr → Reader Expr}
    (hchain : Parser.IsChain joins operand more) {bound : Nat}
    {run run' : (inner : Nat) → inner < bound → Run Expr}
    (hrun : ∀ inner (hinner : inner < bound) {place depth : Nat}, place ≤ last →
      maxLevels ≤ inner + depth →
        Tracks tokens last 0 ⟨place, depth⟩ (operand (maxLevels - depth) (tokens.drop place))
          (run inner hinner) (run' inner hinner))
    {place depth chained : Nat} (hplace : place ≤ last) (hbound : maxLevels ≤ bound + depth)
    (hchained : chained ≤ depth) (left : Expr) :
    Tracks tokens last chained ⟨place, depth⟩
      (more (maxLevels - depth) left (tokens.drop place))
      (chain tokens joins bound run chained left) (chain other joins bound run' chained left) := by
  obtain ⟨⟨lexeme, start, stop⟩, htoken, hother, hdrop, hnext⟩ := hagree.exists_token hplace
  rw [chain.eq_def, chain.eq_def]
  by_cases hjoins : ∃ sign, lexeme = .op sign ∧ joins sign = true
  · obtain ⟨sign, rfl, hsign⟩ := hjoins
    rw [hdrop, hchain.joined hsign]
    refine step (sign?_eq_some htoken hsign) (sign?_eq_some hother hsign) (Nat.le_succ _) ?_
    refine descend hagree (hnext rfl) fun (hdepth : depth < maxLevels) => ?_
    obtain ⟨inner, rfl⟩ : ∃ inner, bound = inner + 1 := Nat.exists_eq_add_one.2 (by omega)
    have hinner : maxLevels ≤ inner + (depth + 1) := by omega
    refine (hrun inner (Nat.lt_succ_self inner) (hnext rfl) hinner).bind
      fun right place _ hlast => ?_
    -- The level of this operator is given back at the end, with those counted before it.
    exact of_isChain hagree hchain (fun level hlevel => hrun level (Nat.lt_succ_of_lt hlevel))
      hlast hinner (Nat.succ_le_succ hchained) (.binary sign left right)
  · have hnone (sign : Op) (hlexeme : lexeme = .op sign) : joins sign = false := by
      simpa using not_and.1 (not_exists.1 hjoins sign) hlexeme
    have hread : more (maxLevels - depth) left (tokens.drop place) =
        .ok (left, tokens.drop place) := by
      rw [hdrop]
      exact hchain.of_not_joins hnone
    rw [hread]
    exact step (sign?_eq_none htoken hnone) (sign?_eq_none hother hnone) (Nat.le_refl _)
      (ascend left hplace hchained)
termination_by bound

theorem closeParen (hagree : Agree tokens other last) (hplace : cursor.place ≤ last) {what : String}
    {next : Reader β} {f f' : Unit → Run β}
    (h : cursor.place + 1 ≤ last →
      Tracks tokens last chained ⟨cursor.place + 1, cursor.depth⟩
        (next (tokens.drop (cursor.place + 1))) (f ()) (f' ())) :
    Tracks tokens last chained cursor
      (Parser.closeParen (maxLevels - cursor.depth) what (tokens.drop cursor.place) >>= next)
      (expect tokens .rightParen what >>= f) (expect other .rightParen what >>= f') := by
  obtain ⟨⟨lexeme, start, stop⟩, htoken, hother, hdrop, hnext⟩ := hagree.exists_token hplace
  by_cases hparen : lexeme = .rightParen
  · subst hparen
    rw [hdrop]
    exact step ((expect_eq htoken).trans (advance_eq htoken rfl))
      ((expect_eq hother).trans (advance_eq hother rfl)) (Nat.le_succ _) (h (hnext rfl))
  · have hread : (Parser.closeParen (maxLevels - cursor.depth) what (tokens.drop cursor.place) >>=
        next) = .error ⟨.expected what (Lexeme.text lexeme) start,
          ⟨tokens.drop cursor.place, maxLevels - cursor.depth⟩⟩ := by
      have hne : (Parser.current (tokens.drop cursor.place)).lexeme ≠ .rightParen := by rwa [hdrop]
      rw [Parser.closeParen_of_ne hne, Parser.notExpected, hdrop]
      rfl
    rw [hread]
    refine refuses (run_bind_of_error (expect_eq_error htoken hparen))
      (run_bind_of_error (expect_eq_error hother hparen)) hplace ?_
    rintro _ - _ _ ⟨⟩

/-- The items behind the first, if there may be more of them than there are tokens up to the end. -/
theorem moreItems (hagree : Agree tokens other last) {item : Reader Expr}
    (hitem : ∀ tokens e rest, item tokens = .ok (e, rest) → rest.length ≤ tokens.length)
    {depth : Nat} {run run' : Run Expr}
    (hrun : ∀ place ≤ last, Tracks tokens last 0 ⟨place, depth⟩ (item (tokens.drop place)) run run')
    {place count count' : Nat} (hplace : place ≤ last) (hcount : last < place + count)
    (hcount' : last < place + count') :
    Tracks tokens last 0 ⟨place, depth⟩
      (Parser.moreItems item (tokens.drop place).length (tokens.drop place))
      (moreItems tokens run count) (moreItems other run' count') := by
  induction count generalizing place count' with
  | zero => exact absurd hplace (Nat.not_le.2 hcount)
  | succ count ih =>
      obtain ⟨count', rfl⟩ : ∃ more, count' = more + 1 := Nat.exists_eq_add_one.2 (by omega)
      obtain ⟨⟨lexeme, start, stop⟩, htoken, hother, hdrop, hnext⟩ := hagree.exists_token hplace
      refine step (look_eq htoken) (look_eq hother) (Nat.le_refl _) ?_
      by_cases hcomma : lexeme = .comma
      · subst hcomma
        rw [hdrop, List.length_cons, Parser.moreItems_comma hitem, if_pos rfl, if_pos rfl]
        refine step (advance_eq htoken rfl) (advance_eq hother rfl) (Nat.le_succ _) ?_
        refine (hrun (place + 1) (hnext rfl)).bind
          fun first place' (hle : place + 1 ≤ place') hlast => ?_
        have hless : last < place' + count := by omega
        have hless' : last < place' + count' := by omega
        exact (ih hlast hless hless').map (first :: ·)
      · have hne : (Parser.current (tokens.drop place)).lexeme ≠ .comma := by rwa [hdrop]
        rw [Parser.moreItems_of_ne hne, if_neg hcomma, if_neg hcomma]
        exact pure [] hplace

end Tracks

/-! ### The procedures without counters, and with them -/

section

variable {tokens other : List Token} {last : Nat}

theorem beq_eq_false_of_ne_op {lexeme : Lexeme} {op : Op} (h : lexeme ≠ .op op) (sign : Op)
    (hlexeme : lexeme = .op sign) : (sign == op) = false :=
  beq_eq_false_iff_ne.2 fun heq => h (heq ▸ hlexeme)

mutual

theorem tracks_expression (hagree : Agree tokens other last) (bound : Nat) {place depth : Nat}
    (hplace : place ≤ last) (hbound : maxLevels ≤ bound + depth) :
    Tracks tokens last 0 ⟨place, depth⟩
      (Parser.expression (maxLevels - depth) (tokens.drop place)) (expression tokens bound)
      (expression other bound) := by
  rw [Parser.expression, expression, expression]
  refine (tracks_term hagree bound hplace hbound).bind fun left place _ hlast => ?_
  exact Tracks.of_isChain hagree Parser.isChain_moreTerms (fun inner _ => tracks_term hagree inner)
    hlast hbound (Nat.zero_le depth) left
termination_by 8 * bound + 6

theorem tracks_term (hagree : Agree tokens other last) (bound : Nat) {place depth : Nat}
    (hplace : place ≤ last) (hbound : maxLevels ≤ bound + depth) :
    Tracks tokens last 0 ⟨place, depth⟩ (Parser.term (maxLevels - depth) (tokens.drop place))
      (term tokens bound) (term other bound) := by
  rw [Parser.term, term, term]
  refine (tracks_power hagree bound hplace hbound).bind fun left place _ hlast => ?_
  exact Tracks.of_isChain hagree Parser.isChain_moreFactors
    (fun inner _ => tracks_power hagree inner) hlast hbound (Nat.zero_le depth) left
termination_by 8 * bound + 5

theorem tracks_power (hagree : Agree tokens other last) (bound : Nat) {place depth : Nat}
    (hplace : place ≤ last) (hbound : maxLevels ≤ bound + depth) :
    Tracks tokens last 0 ⟨place, depth⟩ (Parser.power (maxLevels - depth) (tokens.drop place))
      (power tokens bound) (power other bound) := by
  rw [Parser.power_eq, power, power]
  refine (tracks_unary hagree bound hplace hbound).bind fun base place _ hlast => ?_
  obtain ⟨⟨lexeme, start, stop⟩, htoken, hother, hdrop, hnext⟩ := hagree.exists_token hlast
  by_cases hpow : lexeme = .op .pow
  · subst hpow
    rw [hdrop, Parser.exponent_pow, Parser.deeper_bind]
    refine .step (sign?_eq_some htoken rfl) (sign?_eq_some hother rfl) (Nat.le_succ _) ?_
    exact (Tracks.nested hagree (hnext rfl) hbound fun inner _ hinner =>
      tracks_power hagree inner (hnext rfl) hinner).map (Expr.binary .pow base ·)
  · have hnone := beq_eq_false_of_ne_op hpow
    have hne : (Parser.current (tokens.drop place)).lexeme ≠ .op .pow := by rwa [hdrop]
    rw [Parser.exponent_of_ne hne]
    exact .step (sign?_eq_none htoken hnone) (sign?_eq_none hother hnone) (Nat.le_refl _)
      (.pure base hlast)
termination_by 8 * bound + 4

theorem tracks_unary (hagree : Agree tokens other last) (bound : Nat) {place depth : Nat}
    (hplace : place ≤ last) (hbound : maxLevels ≤ bound + depth) :
    Tracks tokens last 0 ⟨place, depth⟩ (Parser.unary (maxLevels - depth) (tokens.drop place))
      (unary tokens bound) (unary other bound) := by
  obtain ⟨⟨lexeme, start, stop⟩, htoken, hother, hdrop, hnext⟩ := hagree.exists_token hplace
  rw [unary, unary]
  by_cases hadd : lexeme = .op .add
  · subst hadd
    rw [hdrop, Parser.unary_add]
    refine .step (sign?_eq_some htoken rfl) (sign?_eq_some hother rfl) (Nat.le_succ _) ?_
    exact .nested hagree (hnext rfl) hbound fun inner _ hinner =>
      tracks_unary hagree inner (hnext rfl) hinner
  have hnone := beq_eq_false_of_ne_op hadd
  refine .step (sign?_eq_none htoken hnone) (sign?_eq_none hother hnone) (Nat.le_refl _) ?_
  by_cases hsub : lexeme = .op .sub
  · subst hsub
    rw [hdrop, Parser.unary_sub, Parser.deeper_bind]
    refine .step (sign?_eq_some htoken rfl) (sign?_eq_some hother rfl) (Nat.le_succ _) ?_
    exact (Tracks.nested hagree (hnext rfl) hbound fun inner _ hinner =>
      tracks_unary hagree inner (hnext rfl) hinner).map Expr.neg
  · have hnone' := beq_eq_false_of_ne_op hsub
    have hread : Parser.unary (maxLevels - depth) (tokens.drop place) =
        Parser.primary (maxLevels - depth) (tokens.drop place) :=
      Parser.unary_of_ne (by rwa [hdrop]) (by rwa [hdrop])
    rw [hread]
    exact .step (sign?_eq_none htoken hnone') (sign?_eq_none hother hnone') (Nat.le_refl _)
      (tracks_primary hagree bound hplace hbound fun token heq => by
        rw [htoken] at heq
        cases heq
        exact ⟨hadd, hsub⟩)
termination_by 8 * bound + 3

theorem tracks_primary (hagree : Agree tokens other last) (bound : Nat) {place depth : Nat}
    (hplace : place ≤ last) (hbound : maxLevels ≤ bound + depth)
    (hsign : ∀ token, tokens[place]? = some token →
      token.lexeme ≠ .op .add ∧ token.lexeme ≠ .op .sub) :
    Tracks tokens last 0 ⟨place, depth⟩ (Parser.primary (maxLevels - depth) (tokens.drop place))
      (primary tokens bound) (primary other bound) := by
  obtain ⟨⟨lexeme, start, stop⟩, htoken, hother, hdrop, hnext⟩ := hagree.exists_token hplace
  by_cases hopens : opens lexeme = false
  · have hread : Parser.primary (maxLevels - depth) (tokens.drop place) =
        .error ⟨.unexpectedToken (Lexeme.text lexeme) start,
          ⟨tokens.drop place, maxLevels - depth⟩⟩ := by
      have hne {other : Lexeme} (hother : opens other = true) :
          (Parser.current (tokens.drop place)).lexeme ≠ other := by
        rw [hdrop]
        rintro rfl
        cases hopens.symm.trans hother
      rw [Parser.primary_of_ne (fun _ => hne rfl) (fun _ => hne rfl) (hne rfl), hdrop]
      rfl
    have hrun : primary tokens bound ⟨place, depth⟩ = _ := primary_eq_error htoken hopens
    have hrun' : primary other bound ⟨place, depth⟩ = _ := primary_eq_error hother hopens
    rw [hread]
    refine .refuses hrun hrun' hplace ?_
    rintro token heq _ _ ⟨⟩
    obtain rfl := Option.some.inj (htoken.symm.trans heq)
    exact hopens
  rw [primary, primary]
  refine .step (look_eq htoken) (look_eq hother) (Nat.le_refl _) ?_
  cases lexeme with
  | number text =>
      rw [hdrop, Parser.primary]
      refine .step (advance_eq htoken rfl) (advance_eq hother rfl) (Nat.le_succ _) ?_
      cases hvalue : Decimal.number? text with
      | some value => exact .pure (Expr.number value) (hnext rfl)
      | none => exact .refuses rfl rfl (hnext rfl) (by rintro _ - _ _ ⟨⟩)
  | name name =>
      refine .step (advance_eq htoken rfl) (advance_eq hother rfl) (Nat.le_succ _) ?_
      obtain ⟨⟨lexeme, start', stop'⟩, hbehind, hbehind', hdrop', hnext'⟩ :=
        hagree.exists_token (hnext rfl)
      refine .step (look_eq hbehind) (look_eq hbehind') (Nat.le_refl _) ?_
      by_cases hparen : lexeme = .leftParen
      · subst hparen
        rw [if_pos rfl, if_pos rfl, hdrop, hdrop', Parser.primary_call]
        refine .step (advance_eq hbehind rfl) (advance_eq hbehind' rfl) (Nat.le_succ _) ?_
        exact .nested hagree (hnext' rfl) hbound fun inner _ hinner =>
          tracks_call hagree inner name start (hnext' rfl) hinner
      · have hne : (Parser.current (tokens.drop (place + 1))).lexeme ≠ .leftParen := by
          rwa [hdrop']
        rw [if_neg hparen, if_neg hparen, hdrop, Parser.primary_name hne]
        exact .pure (Parser.named name) (hnext rfl)
  | leftParen =>
      rw [hdrop, Parser.primary_leftParen, Parser.deeper_bind]
      refine .step (advance_eq htoken rfl) (advance_eq hother rfl) (Nat.le_succ _) ?_
      refine (Tracks.nested hagree (hnext rfl) hbound fun inner _ hinner =>
        tracks_expression hagree inner (hnext rfl) hinner).bind fun inside place _ hlast => ?_
      exact .closeParen hagree hlast fun hbehind => .pure inside hbehind
  | op sign =>
      -- The signs in front of an operand have been taken before.
      obtain ⟨hadd, hsub⟩ := hsign _ htoken
      cases sign <;> simp [opens] at hopens hadd hsub
  | rightParen | comma | eof => exact absurd rfl hopens
termination_by 8 * bound + 2

theorem tracks_call (hagree : Agree tokens other last) (bound : Nat) (name : String) (start : Nat)
    {place depth : Nat} (hplace : place ≤ last) (hbound : maxLevels ≤ bound + depth) :
    Tracks tokens last 0 ⟨place, depth⟩
      (Parser.call (maxLevels - depth) name start (tokens.drop place))
      (call tokens bound name start) (call other bound name start) := by
  rw [Parser.call, call, call]
  refine (tracks_arguments hagree bound hplace hbound).bind fun args place _ hlast => ?_
  refine .closeParen hagree hlast fun hbehind => ?_
  by_cases hfunction : Builtin.isFunction (Text.lower name) = true
  · rw [if_pos hfunction, if_pos hfunction]
    exact .pure (Expr.callNamed name args) hbehind
  · rw [if_neg hfunction, if_neg hfunction]
    exact .refuses rfl rfl hbehind (by rintro _ - _ _ ⟨⟩)
termination_by 8 * bound + 8

theorem tracks_arguments (hagree : Agree tokens other last) (bound : Nat) {place depth : Nat}
    (hplace : place ≤ last) (hbound : maxLevels ≤ bound + depth) :
    Tracks tokens last 0 ⟨place, depth⟩
      (Parser.arguments (maxLevels - depth) (tokens.drop place)) (arguments tokens bound)
      (arguments other bound) := by
  obtain ⟨⟨lexeme, start, stop⟩, htoken, hother, hdrop, hnext⟩ := hagree.exists_token hplace
  rw [arguments, arguments]
  refine .step (look_eq htoken) (look_eq hother) (Nat.le_refl _) ?_
  by_cases hparen : lexeme = .rightParen
  · subst hparen
    have hread : Parser.arguments (maxLevels - depth) (tokens.drop place) =
        .ok ([], tokens.drop place) := by
      rw [hdrop, Parser.arguments]
    rw [hread, if_pos rfl, if_pos rfl]
    exact .pure [] hplace
  · have hne : (Parser.current (tokens.drop place)).lexeme ≠ .rightParen := by rwa [hdrop]
    have hlength (tokens : List Token) (e : Expr) (rest : List Token)
        (hread : Parser.expression (maxLevels - depth) tokens = .ok (e, rest)) :
        rest.length ≤ tokens.length :=
      (Parser.local_expression (maxLevels - depth) [] tokens).length_le hread
    rw [Parser.arguments_of_ne hne, if_neg hparen, if_neg hparen]
    refine (tracks_expression hagree bound hplace hbound).bind fun first place _ hlast => ?_
    exact (Tracks.moreItems hagree hlength
      (fun place hplace => tracks_expression hagree bound hplace hbound) hlast
      (Nat.lt_of_lt_of_le hagree.lt_length (Nat.le_add_left _ _))
      (Nat.lt_of_lt_of_le hagree.symm.lt_length (Nat.le_add_left _ _))).map (first :: ·)
termination_by 8 * bound + 7

end

theorem tracks_parse (hagree : Agree tokens other last) {place depth : Nat}
    (hplace : place ≤ last) :
    Tracks tokens last 0 ⟨place, depth⟩ (Parser.wholly (maxLevels - depth) (tokens.drop place))
      (parse tokens) (parse other) := by
  refine (tracks_expression hagree maxLevels hplace (Nat.le_add_right _ _)).bind
    fun e place _ hlast => ?_
  obtain ⟨token, htoken, hother, hdrop, -⟩ := hagree.exists_token hlast
  have hcurrent : Parser.current (tokens.drop place) = token := by rw [hdrop]; rfl
  dsimp only
  rw [Parser.notExpected, hcurrent]
  by_cases hend : token.isEof = true
  · have hlexeme : token.lexeme = .eof := by simpa [Token.isEof] using hend
    rw [if_pos hend, ← hlexeme]
    exact .step ((expect_eq htoken).trans (advance_eq_of_end htoken hend))
      ((expect_eq hother).trans (advance_eq_of_end hother hend)) (Nat.le_refl _) (.pure e hlast)
  · have hne : token.lexeme ≠ .eof := by simpa [Token.isEof] using hend
    rw [if_neg hend]
    refine .refuses (run_bind_of_error (expect_eq_error htoken hne))
      (run_bind_of_error (expect_eq_error hother hne)) hlast ?_
    rintro _ - _ _ ⟨⟩

end

end Secant.Counting
