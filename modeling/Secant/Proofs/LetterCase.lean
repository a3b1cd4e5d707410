import Secant.Proofs.Evaluation
import Secant.Proofs.Parser.Pairing
import Secant.Proofs.Traits

/-!
The case of letters. Names of functions and of constants may be typed in capitals or not: lists of
tokens that differ in nothing else are read alike, as trees that differ in the names of calls only,
or are refused at the same token for the same reason. And as these names are only shown where a
function is given too many or too few arguments, the trees come to the same values.
-/

namespace Secant

/-! ### Names in another case -/

/-- Names that are called and names of constants are typed in another case, and all else is the
same. -/
inductive Token.Recased : List Token → List Token → Prop
  | nil : Recased [] []
  | same (token : Token) {rest rest' : List Token} : Recased rest rest' →
      Recased (token :: rest) (token :: rest')
  | name {name name' : String} (start stop : Nat) {rest rest' : List Token} :
      Text.lower name' = Text.lower name →
        (Parser.current rest).lexeme = .leftParen ∨ Constant.value? (Text.lower name) ≠ none →
          Recased rest rest' →
            Recased (⟨.name name, start, stop⟩ :: rest) (⟨.name name', start, stop⟩ :: rest')

/-- The errors are of one kind and tell of these two tokens. -/
inductive ParseError.Alike (token token' : Token) : ParseError → ParseError → Prop
  | invalidNumber {text : String} : token.lexeme = .number text → token' = token →
      Alike token token' (.invalidNumber text token.start) (.invalidNumber text token'.start)
  | unknownFunction {name name' : String} : token.lexeme = .name name →
      token'.lexeme = .name name' → Text.lower name' = Text.lower name →
        Alike token token' (.unknownFunction name token.start) (.unknownFunction name' token'.start)
  | expected (what : String) :
      Alike token token' (.expected what token.text token.start)
        (.expected what token'.text token'.start)
  | unclosed {name other : String} : Text.lower other = Text.lower name →
      Alike token token' (.expected s!"')' after arguments of {name}" token.text token.start)
        (.expected s!"')' after arguments of {other}" token'.text token'.start)
  | unexpectedToken : token' = token →
      Alike token token' (.unexpectedToken token.text token.start)
        (.unexpectedToken token'.text token'.start)
  | tooDeep (limit : Nat) :
      Alike token token' (.tooDeep limit token.start) (.tooDeep limit token'.start)

namespace Token.Recased

variable {token token' : Token} {tokens tokens' rest rest' : List Token}

theorem tail (h : Recased (token :: rest) (token' :: rest')) : Recased rest rest' := by
  cases h with
  | same _ hrest => exact hrest
  | name _ _ _ _ hrest => exact hrest

theorem append_same (h : Recased tokens tokens') (last : Token) :
    Recased (tokens ++ [last]) (tokens' ++ [last]) := by
  induction h with
  | nil => exact .same last .nil
  | same token _ ih => exact .same token ih
  | @name name name' start stop rest rest' hlower hwhere _ ih =>
      refine .name start stop hlower (hwhere.imp_left fun hparen => ?_) ih
      cases rest with
      | nil => cases hparen
      | cons next rest => exact hparen

theorem getLast?_eq (h : Recased tokens tokens') :
    (tokens'.getLast?).map (fun last => (last.isEof, last.stop)) =
      (tokens.getLast?).map fun last => (last.isEof, last.stop) := by
  induction h with
  | nil => rfl
  | same token hrest ih =>
      cases hrest <;> simp_all [List.getLast?_cons_cons]
  | name start stop hlower hwhere hrest ih =>
      cases hrest <;> simp_all [List.getLast?_cons_cons, Token.isEof]

theorem ofTokens (h : Recased tokens tokens') :
    Recased (Parser.ofTokens tokens).rest (Parser.ofTokens tokens').rest ∧
      (Parser.ofTokens tokens).levels = Parser.maxLevels ∧
      (Parser.ofTokens tokens').levels = Parser.maxLevels ∧
      ∃ token ∈ (Parser.ofTokens tokens).rest, token.isEof = true := by
  have hlast := h.getLast?_eq
  unfold Parser.ofTokens
  cases hget : tokens.getLast? with
  | none =>
      cases hget' : tokens'.getLast? with
      | none => exact ⟨.same _ .nil, rfl, rfl, _, List.mem_singleton_self _, rfl⟩
      | some last' => simp [hget, hget'] at hlast
  | some last =>
      cases hget' : tokens'.getLast? with
      | none => simp [hget, hget'] at hlast
      | some last' =>
          simp only [hget, hget', Option.map_some, Option.some.injEq, Prod.mk.injEq] at hlast
          obtain ⟨hend, hstop⟩ := hlast
          dsimp only
          rw [hend, hstop]
          by_cases hisEof : last.isEof = true
          · rw [if_pos hisEof, if_pos hisEof]
            exact ⟨h, rfl, rfl, last, List.mem_of_getLast? hget, hisEof⟩
          · rw [if_neg hisEof, if_neg hisEof]
            exact ⟨h.append_same _, rfl, rfl, _, List.mem_append_right tokens
              (List.mem_singleton_self _), rfl⟩

theorem lexeme_eq_iff (h : Recased tokens tokens') {lexeme : Lexeme}
    (hname : ∀ name, lexeme ≠ .name name) :
    (Parser.current tokens').lexeme = lexeme ↔ (Parser.current tokens).lexeme = lexeme := by
  cases h with
  | nil | same => rfl
  | @name name name' => exact iff_of_false (hname name').symm (hname name).symm

end Token.Recased

/-! ### Trees and errors but for the names that are shown -/

namespace Expr

mutual

def canonized : Expr → Expr
  | number value => number value
  | var name => var name
  | neg operand => neg operand.canonized
  | binary op left right => binary op left.canonized right.canonized
  | call _ canonical args => call canonical canonical (canonizedList args)

def canonizedList : List Expr → List Expr
  | [] => []
  | first :: rest => first.canonized :: canonizedList rest

end

@[simp] theorem length_canonizedList (args : List Expr) :
    (canonizedList args).length = args.length := by
  induction args with
  | nil => rfl
  | cons first rest ih => simp [canonizedList, ih]

@[simp] theorem asVar?_canonized (e : Expr) : e.canonized.asVar? = e.asVar? := by
  cases e <;> rfl

mutual

theorem free_canonized : ∀ e : Expr, e.canonized.free = e.free
  | number _ => rfl
  | var _ => rfl
  | neg operand => free_canonized operand
  | binary op left right => by
      rw [canonized, free, free, free_canonized left, free_canonized right]
  | call name canonical args => by
      rw [canonized, free, free, freeList_canonizedList args, freeUnder_canonizedList args]

theorem freeList_canonizedList : ∀ args : List Expr, freeList (canonizedList args) = freeList args
  | [] => rfl
  | first :: rest => by
      rw [canonizedList, freeList, freeList, free_canonized first, freeList_canonizedList rest]

theorem freeUnder_canonizedList :
    ∀ args : List Expr, freeUnder (canonizedList args) = freeUnder args
  | [] => rfl
  | [body] => free_canonized body
  | body :: bound :: rest => by
      rw [canonizedList, canonizedList, freeUnder, freeUnder, asVar?_canonized, free_canonized body,
        freeList_canonizedList rest]

end

def known : Traits where
  number _ := True
  var _ := True
  call name canonical _ := canonical = Text.lower name ∧ Builtin.isFunction canonical = true

end Expr

def EvalError.canonized : EvalError → EvalError
  | argumentCount function expected found => argumentCount (Text.lower function) expected found
  | error => error

section

variable {α β : Type} {x : Except EvalError α}

theorem mapError_bind (g : EvalError → EvalError) (f : α → Except EvalError β) :
    (x >>= f).mapError g = x.mapError g >>= fun a => (f a).mapError g := by
  cases x <;> rfl

theorem mapError_eq_self {g : EvalError → EvalError}
    (h : ∀ error, x = .error error → g error = error) : x.mapError g = x := by
  cases x with
  | ok => rfl
  | error error => exact congrArg Except.error (h error rfl)

end

theorem Op.mapError_apply (config : EvalConfig) (op : Op) (x y : Float) :
    (op.apply config x y).mapError EvalError.canonized = op.apply config x y := by
  refine mapError_eq_self fun error herror => ?_
  obtain ⟨-, rfl⟩ := eq_divisionByZero_of_apply herror
  rfl

/-- Only the count of the arguments is told under the name of the call. -/
theorem Builtin.apply_lower {canonical : String} {function : Builtin}
    (h : find? canonical = some function) (name : String) (xs : List Float) :
    function.apply (Text.lower name) xs =
      (function.apply name xs).mapError EvalError.canonized := by
  have hfixed {error : EvalError} (hrefuses : function.action.Refuses error) :
      error.canonized = error := by
    obtain rfl := eq_domain_of_refuses (mem_all_of_find? h).1 hrefuses
    rfl
  unfold apply
  split
  · rename_i f x haction
    rw [haction] at hfixed
    exact (mapError_eq_self fun error herror => hfixed ⟨x, herror⟩).symm
  · rename_i f x y haction
    rw [haction] at hfixed
    exact (mapError_eq_self fun error herror => hfixed ⟨x, y, herror⟩).symm
  · rfl

namespace Expr

open Environment

theorem mapError_quotient (g : EvalError → EvalError) (f : Float → Except EvalError Float)
    (p h : Float) :
    (quotient f p h).mapError g = quotient (fun y => (f y).mapError g) p h := by
  simp only [quotient, mapError_bind]
  rfl

mutual

/-- Under their canonical names calls come to the same. -/
theorem value_canonized (config : EvalConfig) :
    ∀ {e : Expr} (valuation : Valuation), e.Has known →
      e.canonized.value config valuation =
        (e.value config valuation).mapError EvalError.canonized
  | number x, valuation, _ => by
      rw [canonized, value]
      rfl
  | var name, valuation, _ => by
      rw [canonized, value]
      cases valuation name <;> rfl
  | neg operand, valuation, h => by
      have hoperand := value_canonized config (e := operand) valuation h
      rw [canonized, value, value, hoperand, mapError_bind]
      rfl
  | binary op left right, valuation, h => by
      have hleft := value_canonized config (e := left) valuation h.1
      have hright := value_canonized config (e := right) valuation h.2
      rw [canonized, value, value, hleft, hright]
      simp only [mapError_bind, Op.mapError_apply]
  | call name canonical args, valuation, h => by
      obtain ⟨⟨rfl, hfunction⟩, hknown⟩ := h
      obtain ⟨function, hfind⟩ := Option.isSome_iff_exists.1 hfunction
      have hargs := valueList_canonized config valuation hknown
      have hderivative := valueDerivative_canonized config name valuation hknown
      rw [canonized, value, value, hfind]
      dsimp only
      split
      · exact hderivative
      · simp only [checkCount_bind_apply]
        simp only [mapError_bind, hargs, Builtin.apply_lower hfind]

theorem valueList_canonized (config : EvalConfig) :
    ∀ {args : List Expr} (valuation : Valuation), HasAll known args →
      valueList config (canonizedList args) valuation =
        (valueList config args valuation).mapError EvalError.canonized
  | [], valuation, _ => by
      rw [canonizedList, valueList]
      rfl
  | first :: rest, valuation, h => by
      have hfirst := value_canonized config (e := first) valuation h.1
      have hrest := valueList_canonized config valuation h.2
      rw [canonizedList, valueList, valueList, hfirst, hrest]
      simp only [mapError_bind]
      rfl

theorem valueDerivative_canonized (config : EvalConfig) (name : String) :
    ∀ {args : List Expr} (valuation : Valuation), HasAll known args →
      valueDerivative config (Text.lower name) (canonizedList args) valuation =
        (valueDerivative config name args valuation).mapError EvalError.canonized
  | body :: bound :: point :: asked, valuation, h => by
      obtain ⟨hbody, -, hpoint, hasked⟩ := h
      simp only [canonizedList]
      by_cases hcount : asked.length ≤ 1
      · have hcount' : (canonizedList asked).length ≤ 1 := by rwa [length_canonizedList]
        have hbound := asVar?_canonized bound
        cases hvar : bound.asVar? with
        | none =>
            rw [hvar] at hbound
            rw [valueDerivative_of_asVar?_eq_none config name hvar body point hcount,
              valueDerivative_of_asVar?_eq_none config _ hbound _ _ hcount']
            rfl
        | some x =>
            rw [hvar] at hbound
            have hpoint := value_canonized config (e := point) valuation hpoint
            have hsteps := valueList_canonized config valuation hasked
            have hbody (y : Float) := value_canonized config (e := body)
              (valuation.rebind x y) hbody
            rw [valueDerivative_of_asVar? config name hvar body point hcount,
              valueDerivative_of_asVar? config _ hbound _ _ hcount', hpoint, hsteps]
            simp only [mapError_bind, mapError_quotient, hbody]
      · have hcount' : ¬(canonizedList asked).length ≤ 1 := by rwa [length_canonizedList]
        rw [valueDerivative_of_length config name (length_notMem_counts hcount),
          valueDerivative_of_length config _ (length_notMem_counts hcount')]
        simp [Except.mapError, EvalError.canonized]
  | [], _, _ => rfl
  | [_], _, _ => rfl
  | [_, _], _, _ => rfl

end

end Expr

/-! ### Readings of recased tokens -/

namespace Parser

/-- What is left of two lists of tokens behind the same number of tokens, the end included. -/
structure Aligned (all all' tokens tokens' : List Token) : Prop where
  recased : Token.Recased tokens tokens'
  exists_end : ∃ token ∈ tokens, token.isEof = true
  exists_drop : ∃ index, tokens = all.drop index ∧ tokens' = all'.drop index

def TellAlike (all all' : List Token) (error error' : ParseError) : Prop :=
  ∃ (index : Nat) (token token' : Token), all[index]? = some token ∧ all'[index]? = some token' ∧
    ParseError.Alike token token' error error'

variable {all all' tokens tokens' rest rest' : List Token} {token token' : Token}

namespace Aligned

theorem tail (h : Aligned all all' (token :: rest) (token' :: rest')) (hend : token.isEof = false) :
    Aligned all all' rest rest' where
  recased := h.recased.tail
  exists_end := by
    obtain ⟨last, hmem, hlast⟩ := h.exists_end
    rcases List.mem_cons.1 hmem with rfl | hmem
    · simp [hend] at hlast
    · exact ⟨last, hmem, hlast⟩
  exists_drop := by
    obtain ⟨index, hdrop, hdrop'⟩ := h.exists_drop
    refine ⟨index + 1, ?_, ?_⟩
    · rw [← List.tail_drop, ← hdrop, List.tail_cons]
    · rw [← List.tail_drop, ← hdrop', List.tail_cons]

theorem tellAlike (h : Aligned all all' tokens tokens') {error error' : ParseError}
    (herrors : ParseError.Alike (current tokens) (current tokens') error error') :
    TellAlike all all' error error' := by
  obtain ⟨hrecased, ⟨last, hmem, -⟩, index, hdrop, hdrop'⟩ := h
  refine ⟨index, current tokens, current tokens', ?_, ?_, herrors⟩
  · cases tokens with
    | nil => cases hmem
    | cons token rest => rw [← List.head?_drop, ← hdrop]; rfl
  · cases hrecased with
    | nil => cases hmem
    | same => rw [← List.head?_drop, ← hdrop']; rfl
    | name => rw [← List.head?_drop, ← hdrop']; rfl

end Aligned

/-- Trees that are the same under canonical names are read, and errors of one kind are met. -/
def recasing (all all' : List Token) : Pairing where
  tokens := Aligned all all'
  trees e e' := e.canonized = e'.canonized
  failures failure failure' := TellAlike all all' failure.error failure'.error
  parts _ := False

theorem canonizedList_eq {args args' : List Expr}
    (h : List.Forall₂ (recasing all all').trees args args') :
    Expr.canonizedList args = Expr.canonizedList args' := by
  induction h with
  | nil => rfl
  | cons hfirst _ ih => rw [Expr.canonizedList, Expr.canonizedList, hfirst, ih]

theorem calls_recasing {name name' : String} {start stop start' stop' : Nat}
    (h : Aligned all all' (⟨.name name, start, stop⟩ :: rest)
      (⟨.name name', start', stop'⟩ :: rest'))
    (hlower : Text.lower name' = Text.lower name) :
    (recasing all all').Calls name start name' start' where
  isFunction_eq := by rw [hlower]
  callNamed {args args'} hargs := by
    change (Expr.callNamed name args).canonized = (Expr.callNamed name' args').canonized
    rw [Expr.callNamed, Expr.callNamed, Expr.canonized, Expr.canonized, hlower,
      canonizedList_eq hargs]
  unknown _ _ _ := h.tellAlike (.unknownFunction rfl rfl hlower)
  unclosed _ hrest := hrest.tellAlike (.unclosed hlower)

theorem named_eq {name name' : String} (hlower : Text.lower name' = Text.lower name)
    (hconstant : Constant.value? (Text.lower name) ≠ none) : named name' = named name := by
  obtain ⟨value, hvalue⟩ := Option.ne_none_iff_exists'.1 hconstant
  rw [named, named, hlower, hvalue]

theorem Aligned.meets_name {name name' : String} {start stop start' stop' : Nat}
    (h : Aligned all all' (⟨.name name, start, stop⟩ :: rest)
      (⟨.name name', start', stop'⟩ :: rest'))
    (hlower : Text.lower name' = Text.lower name)
    (hnamed : (current rest).lexeme ≠ .leftParen → named name' = named name) :
    (recasing all all').Meets (⟨.name name, start, stop⟩ :: rest)
      (⟨.name name', start', stop'⟩ :: rest') := by
  have hrest := h.tail rfl
  have hiff : (current rest').lexeme = .leftParen ↔ (current rest).lexeme = .leftParen :=
    hrest.recased.lexeme_eq_iff (by simp)
  by_cases hparen : (current rest).lexeme = .leftParen
  · cases hrest.recased with
    | nil | name => cases hparen
    | same token =>
        obtain ⟨_, opened, closed⟩ := token
        cases hparen
        exact .call (calls_recasing h hlower) (hrest.tail rfl)
  · exact .name hparen (mt hiff.1 hparen) (congrArg Expr.canonized (hnamed hparen).symm) hrest

theorem Aligned.meets (h : Aligned all all' tokens tokens') :
    (recasing all all').Meets tokens tokens' := by
  cases h.recased with
  | nil => exact .eof rfl rfl
  | @same token rest rest' =>
      obtain ⟨lexeme, start, stop⟩ := token
      cases lexeme with
      | number text =>
          cases hvalue : Decimal.number? text with
          | some value => exact .number hvalue hvalue rfl (h.tail rfl)
          | none => exact .invalid hvalue hvalue fun _ => h.tellAlike (.invalidNumber rfl rfl)
      | name name => exact h.meets_name rfl fun _ => rfl
      | op | leftParen | rightParen | comma => exact .symbol trivial (h.tail rfl)
      | eof => exact .eof rfl rfl
  | name start stop hlower hwhere =>
      exact h.meets_name hlower fun hparen => named_eq hlower (hwhere.resolve_left hparen)

theorem lawful_recasing (all all' : List Token) : (recasing all all').Lawful where
  meets h := h.meets
  neg h := congrArg Expr.neg h
  binary op _ _ _ _ hleft hright := congrArg₂ (Expr.binary op) hleft hright
  tooDeep h := h.tellAlike (.tooDeep maxLevels)
  notExpected _ what h := h.tellAlike (.expected what)
  unexpected _ h hname := by
    -- A name is no unexpected token, so the token is the same on both sides.
    refine h.tellAlike (.unexpectedToken ?_)
    cases h.recased with
    | nil | same => rfl
    | @name name => exact absurd rfl (hname name)

end Parser

/-! ### What is read -/

namespace Expr

open Environment

/-- The trees differ at most in the names of calls. They have the same free variables, and wherever
they are evaluated they have the same value or the same error, but for the name under which a
function is told to have been called. -/
structure SameButNames (e e' : Expr) : Prop where
  canonized_eq : e.canonized = e'.canonized
  free_eq : e.free = e'.free
  outcome_eq : ∀ (config : EvalConfig) (env : Environment),
    (Evaluation.outcome (e.eval config) env).mapError EvalError.canonized =
      (Evaluation.outcome (e'.eval config) env).mapError EvalError.canonized

theorem known_of_ofTokens {tokens : List Token} {e : Expr} (h : ofTokens tokens = .ok e) :
    e.Has known := by
  refine (has_of_ofTokens h).mono ⟨fun _ _ => trivial, fun _ _ => trivial, ?_⟩
  rintro name canonical args ⟨-, hcanonical, hfunction⟩
  exact ⟨hcanonical, hfunction⟩

theorem SameButNames.of_canonized_eq {e e' : Expr} (h : e.Has known) (h' : e'.Has known)
    (heq : e.canonized = e'.canonized) : SameButNames e e' where
  canonized_eq := heq
  free_eq := by rw [← free_canonized e, heq, free_canonized e']
  outcome_eq config env := by
    rw [(keeps_eval config e env).outcome_eq, (keeps_eval config e' env).outcome_eq,
      ← value_canonized config _ h, heq, value_canonized config _ h']

/-- The case of letters matters for variables only. -/
theorem ofTokens_recased {tokens tokens' : List Token} (h : Token.Recased tokens tokens') :
    (∃ e e', ofTokens tokens = .ok e ∧ ofTokens tokens' = .ok e' ∧ SameButNames e e') ∨
      ∃ error error', ofTokens tokens = .error error ∧ ofTokens tokens' = .error error' ∧
        Parser.TellAlike (Parser.ofTokens tokens).rest (Parser.ofTokens tokens').rest error
          error' := by
  obtain ⟨hrecased, hlevels, hlevels', hend⟩ := h.ofTokens
  have haligned : Parser.Aligned (Parser.ofTokens tokens).rest (Parser.ofTokens tokens').rest _ _ :=
    ⟨hrecased, hend, 0, rfl, rfl⟩
  have hreads := (Parser.lawful_recasing _ _).wholly Parser.maxLevels haligned
  have hread := Parser.parse_fst (Parser.ofTokens tokens)
  have hread' := Parser.parse_fst (Parser.ofTokens tokens')
  rw [hlevels] at hread
  rw [hlevels'] at hread'
  generalize Parser.wholly Parser.maxLevels (Parser.ofTokens tokens).rest = first at *
  generalize Parser.wholly Parser.maxLevels (Parser.ofTokens tokens').rest = second at *
  cases hreads with
  | ok htrees _ =>
      exact .inl ⟨_, _, hread, hread', .of_canonized_eq (known_of_ofTokens hread)
        (known_of_ofTokens hread') htrees⟩
  | error hfailures => exact .inr ⟨_, _, hread, hread', hfailures⟩
  | parted hparts => exact hparts.elim

/-- The function takes one argument, and both trees come to an error that tells of its name as it
was typed. The variable is typed alike. -/
theorem ofTokens_recased_sine :
    ∃ tokens tokens' : List Token,
      tokens.map Token.text = ["sin", "(", "pi", ",", "X", ")"] ∧
      tokens'.map Token.text = ["SIN", "(", "Pi", ",", "X", ")"] ∧
      Token.Recased tokens tokens' ∧
      ∃ e e', ofTokens tokens = .ok e ∧ ofTokens tokens' = .ok e' ∧ SameButNames e e' := by
  let rest : List Token := [⟨.comma, 6, 7⟩, ⟨.name "X", 7, 8⟩, ⟨.rightParen, 8, 9⟩]
  let tokens : List Token := ⟨.name "sin", 0, 3⟩ :: ⟨.leftParen, 3, 4⟩ :: ⟨.name "pi", 4, 6⟩ :: rest
  let tokens' : List Token :=
    ⟨.name "SIN", 0, 3⟩ :: ⟨.leftParen, 3, 4⟩ :: ⟨.name "Pi", 4, 6⟩ :: rest
  have hrest : Token.Recased rest rest := .same _ (.same _ (.same _ .nil))
  have hconstant : Constant.value? (Text.lower "pi") ≠ none := by decide +kernel
  have hrecased : Token.Recased tokens tokens' :=
    .name 0 3 (by decide +kernel) (.inl rfl)
      (.same _ (.name 4 6 (by decide +kernel) (.inr hconstant) hrest))
  have hok : (ofTokens tokens).isOk = true := by decide +kernel
  obtain hboth | ⟨error, _, herror, -⟩ := ofTokens_recased hrecased
  · exact ⟨tokens, tokens', rfl, rfl, hrecased, hboth⟩
  · rw [herror] at hok
    cases hok

end Expr

end Secant
