import Secant.Proofs.Decimal.Bits
import Secant.Proofs.Spelling
import Secant.Proofs.Traits

/-!
Reading the text of a tree. The text of a tree has a pair of parentheses or of brackets around every
operator, so it stands for that tree and for no other, but for its numbers of negative sign: the
text of such a number is that of a negation. Where the text goes down no more levels than there are,
the tree is read again, and otherwise it is too deep.
-/

namespace Secant.Expr

open Grammar

/-- What a tree is asked for, to be told by its text. -/
def legible : Traits where
  number value := value.isFinite = true
  var name := IsIdentifier name ∧ Constant.value? (Text.lower name) = none
  call name canonical _ :=
    IsIdentifier name ∧ canonical = Text.lower name ∧ Builtin.isFunction canonical = true

/-! ### What the text stands for -/

mutual

/-- Numbers of negative sign as negations. -/
def withSigns : Expr → Expr
  | number value => if Binary64.isNegative value then neg (number value.abs) else number value
  | var name => var name
  | neg operand => neg operand.withSigns
  | binary op left right => binary op left.withSigns right.withSigns
  | call name canonical args => call name canonical (withSignsList args)

def withSignsList : List Expr → List Expr
  | [] => []
  | first :: rest => first.withSigns :: withSignsList rest

end

/-- The lexemes of a number in this layout, with its sign apart. -/
def numeral (layout : Decimal.Layout) (value : Float) : List Lexeme :=
  (if Binary64.isNegative value then [.op .sub] else []) ++
    [.number (String.ofList (layout.magnitude (Binary64.magnitude value)))]

mutual

def phrase : Expr → List Lexeme
  | number value => numeral exprNumber value
  | var name => [.name name]
  | neg operand => .leftParen :: .op .sub :: operand.phrase ++ [.rightParen]
  | binary op left right => .leftParen :: left.phrase ++ .op op :: right.phrase ++ [.rightParen]
  | call name _ args => .name name :: .leftParen :: phraseList args ++ [.rightParen]

def phraseList : List Expr → List Lexeme
  | [] => []
  | [last] => last.phrase
  | first :: rest => first.phrase ++ .comma :: phraseList rest

end

mutual

/-- The levels that the text of a tree goes down. -/
def textLevels : Expr → Nat
  | number value => if Binary64.isNegative value then 1 else 0
  | var _ => 0
  | neg operand => operand.textLevels + 2
  | binary _ left right => max left.textLevels (right.textLevels + 1) + 1
  | call _ _ args => textLevelsList args + 1

def textLevelsList : List Expr → Nat
  | [] => 0
  | first :: rest => max first.textLevels (textLevelsList rest)

end

/-! ### The text spells the phrase -/

theorem spells_numeral {layout : Decimal.Layout} (hlayout : layout.Readable) {value : Float}
    (h : value.isFinite = true) : Spells (layout.chars value) (numeral layout value) := by
  obtain ⟨d, hwritten, -⟩ := hlayout _ (Binary64.isFinite_iff.1 h)
  have hdigits := spells_written hwritten
  rw [Decimal.Layout.chars, Binary64.isNaN_eq_false h, numeral, if_neg Bool.false_ne_true]
  split
  · exact hdigits.symbol (c := '-') rfl
  · exact hdigits

theorem symbol?_symbol (op : Op) : symbol? op.symbol = some (.op op) := by
  cases op <;> rfl

theorem isBlank_space : Text.isBlank ' ' = true := by decide

theorem breaks_rightParen : Breaks [')'] :=
  breaks_cons (by simp) []

theorem spells_rightParen : Spells [')'] [.rightParen] :=
  spells_nil.symbol rfl

mutual

theorem spells_chars : ∀ {e : Expr}, e.Has legible → Spells e.chars e.phrase
  | number value, h => spells_numeral Decimal.readable_exprNumber h
  | var name, h => h.1.spells
  | neg operand, h => by
      have hoperand := spells_chars (e := operand) h
      have hopened := (hoperand.symbol (c := '-') rfl).symbol (c := '(') rfl
      exact hopened.append spells_rightParen breaks_rightParen
  | binary op left right, h => by
      have hleft := spells_chars (e := left) h.1
      have hright := spells_chars (e := right) h.2
      have hopened := hleft.symbol (c := '(') rfl
      have hbehind := ((hright.blank isBlank_space).symbol (symbol?_symbol op)).blank isBlank_space
      exact (hopened.append hbehind (breaks_cons (.inl isBlank_space) _)).append spells_rightParen
        breaks_rightParen
  | call name canonical args, h => by
      have hname := h.1.1.spells
      have hopened := (spells_charsList h.2).symbol (c := '(') rfl
      exact (hname.append hopened (breaks_cons (by simp) _)).append spells_rightParen
        breaks_rightParen

theorem spells_charsList :
    ∀ {args : List Expr}, HasAll legible args → Spells (charsList args) (phraseList args)
  | [], _ => spells_nil
  | [last], h => spells_chars (e := last) h.1
  | first :: second :: rest, h => by
      have hfirst := spells_chars (e := first) h.1
      have hrest := ((spells_charsList h.2).blank isBlank_space).symbol (c := ',') rfl
      exact hfirst.append hrest (breaks_cons (by simp) _)

end

/-! ### The phrase is a sentence -/

theorem unary_numeral {layout : Decimal.Layout} (hlayout : layout.Readable) {value : Float}
    (h : value.isFinite = true) :
    Unary (numeral layout value) (number value).withSigns (number value).textLevels := by
  have hread {x : Float} (hx : Binary64.ofMagnitude (Binary64.magnitude value) = x) :
      Primary [.number (String.ofList (layout.magnitude (Binary64.magnitude value)))]
        (number x) 0 := by
    obtain ⟨d, hwritten, hmagnitude⟩ := hlayout _ (Binary64.isFinite_iff.1 h)
    refine .number ((Decimal.number?_of_written hwritten).trans ?_)
    rw [Decimal.toFloat, hmagnitude, hx]
  rw [numeral, withSigns, textLevels]
  split
  · exact .minus (.primary (hread (Binary64.abs_eq_ofMagnitude value).symm))
  · rename_i hsign
    exact .primary (hread (Binary64.ofMagnitude_magnitude (Bool.eq_false_iff.2 hsign)))

theorem sentence_binary (op : Op) {phrase next : List Lexeme} {left right : Expr}
    {levels below : Nat} (hleft : Unary phrase left levels) (hright : Unary next right below) :
    Sentence (phrase ++ .op op :: next) (.binary op left right) (max levels (below + 1)) := by
  have hlevels : below + 1 = 0 + 1 + below := by omega
  cases op with
  | pow => exact ⟨0, .single (.single (.raise hleft (.base hright)))⟩
  | mul | div =>
      rw [hlevels]
      exact ⟨0, .single (.join (.single (.base hleft)) rfl (.base hright))⟩
  | add | sub =>
      rw [hlevels]
      exact ⟨1, .join (.single (.single (.base hleft))) rfl (.single (.base hright))⟩

theorem sentence_of_unary {phrase : List Lexeme} {e : Expr} {levels : Nat}
    (h : Unary phrase e levels) : Sentence phrase e levels :=
  ⟨0, .single (.single (.base h))⟩

theorem unary_of_sentence {phrase : List Lexeme} {e : Expr} {levels : Nat}
    (h : Sentence phrase e levels) :
    Unary (.leftParen :: (phrase ++ [.rightParen])) e (levels + 1) := by
  obtain ⟨_, h⟩ := h
  exact .primary (.paren h)

mutual

theorem unary_phrase : ∀ {e : Expr}, e.Has legible → Unary e.phrase e.withSigns e.textLevels
  | number value, h => unary_numeral Decimal.readable_exprNumber h
  | var name, h => .primary (.var h.2)
  | neg operand, h =>
      unary_of_sentence (sentence_of_unary (.minus (unary_phrase (e := operand) h)))
  | binary op left right, h =>
      unary_of_sentence
        (sentence_binary op (unary_phrase (e := left) h.1) (unary_phrase (e := right) h.2))
  | call name canonical args, ⟨⟨_, hcanonical, hfunction⟩, hargs⟩ => by
      subst hcanonical
      have harguments : Arguments (phraseList args) (withSignsList args) (textLevelsList args) := by
        cases args with
        | nil => exact .none
        | cons first rest => exact .some (items_phrase hargs (List.cons_ne_nil first rest))
      exact .primary (.call harguments hfunction)

theorem items_phrase : ∀ {args : List Expr}, HasAll legible args → args ≠ [] →
    Items (phraseList args) (withSignsList args) (textLevelsList args)
  | [], _, hne => absurd rfl hne
  | [last], h, _ => by
      obtain ⟨_, hlast⟩ := sentence_of_unary (unary_phrase (e := last) h.1)
      rw [textLevelsList, textLevelsList, Nat.max_zero]
      exact .last hlast
  | first :: second :: rest, h, _ => by
      obtain ⟨_, hfirst⟩ := sentence_of_unary (unary_phrase (e := first) h.1)
      exact .cons hfirst (items_phrase h.2 (List.cons_ne_nil second rest))

end

/-! ### Reading the text again -/

/-- A text that spells a sentence is read as the tree of the sentence, or it goes too deep. -/
theorem ofText_of_spells {text : String} {phrase : List Lexeme} {e : Expr} {levels : Nat}
    (hspells : Spells text.toList phrase) (h : Sentence phrase e levels) :
    (levels ≤ Parser.maxLevels ∧ ofText text = .ok e) ∨
      (Parser.maxLevels < levels ∧
        ∃ position, ofText text = .error (.tooDeep Parser.maxLevels position)) := by
  obtain ⟨tokens, htokenize, hlexemes⟩ := hspells.exists_tokens
  have hphrase : Token.sentence tokens = phrase := Token.sentence_eq hlexemes h.eof_notMem
  rw [← hphrase] at h
  have hread : ofText text = ofTokens tokens := by
    rw [ofText, htokenize]
    rfl
  rw [hread]
  rcases Nat.lt_or_ge Parser.maxLevels levels with hlevels | hlevels
  · exact .inr ⟨hlevels, exists_tooDeep_of_sentence h hlevels⟩
  · exact .inl ⟨hlevels, ofTokens_of_sentence h hlevels⟩

theorem ofText_text_of_has {e : Expr} (h : e.Has legible) :
    (e.textLevels ≤ Parser.maxLevels ∧ ofText e.text = .ok e.withSigns) ∨
      (Parser.maxLevels < e.textLevels ∧
        ∃ position, ofText e.text = .error (.tooDeep Parser.maxLevels position)) := by
  have hspells : Spells e.text.toList e.phrase := by
    rw [text, String.toList_ofList]
    exact spells_chars h
  exact ofText_of_spells hspells (sentence_of_unary (unary_phrase h))

/-! ### Trees that were read -/

def finite : Traits where
  number value := value.isFinite = true
  var _ := True
  call _ _ _ := True

/-- What reading makes sure of. -/
def wellRead : Traits where
  number value := Binary64.isNegative value = false
  var name := IsIdentifier name ∧ Constant.value? (Text.lower name) = none
  call name canonical _ :=
    IsIdentifier name ∧ canonical = Text.lower name ∧ Builtin.isFunction canonical = true

/-- The text of a number token has no sign, so its number is that of a decimal. -/
theorem exists_decimal_of_number? {text : String} {value : Float}
    (htyped : (Lexeme.number text).IsTyped) (h : Decimal.number? text = some value) :
    ∃ d : Decimal, d.toFloat = value := by
  obtain ⟨first, more, rfl, hfirst⟩ := htyped
  rw [Decimal.number?_of_startsNumber more hfirst] at h
  obtain ⟨d, -, hvalue⟩ := Option.map_eq_some_iff.1 h
  exact ⟨d, hvalue⟩

theorem isNegative_of_number? {text : String} {value : Float}
    (htyped : (Lexeme.number text).IsTyped) (h : Decimal.number? text = some value) :
    Binary64.isNegative value = false := by
  obtain ⟨d, rfl⟩ := exists_decimal_of_number? htyped h
  exact Binary64.isNegative_ofMagnitude d.magnitude_le_infinity

theorem isNegative_of_constant {name : String} {value : Float}
    (h : Constant.value? name = some value) : Binary64.isNegative value = false := by
  have hall : ∀ constant ∈ Constant.all, Binary64.isNegative constant.value = false := by
    decide +kernel
  obtain ⟨constant, hfind, rfl⟩ := Option.map_eq_some_iff.1 h
  exact hall constant (List.mem_of_find?_eq_some hfind)

theorem isTyped_of_mem_sentence {text : String} {tokens : List Token}
    (h : tokenize text = .ok tokens) {lexeme : Lexeme} (hmem : lexeme ∈ Token.sentence tokens) :
    lexeme.IsTyped := by
  obtain ⟨token, htoken, -, rfl⟩ := Token.exists_of_mem_sentence hmem
  exact Lexer.isTyped_of_tokens _ h token htoken

theorem wellRead_of_ofText {text : String} {e : Expr} (h : ofText text = .ok e) :
    e.Has wellRead := by
  obtain ⟨tokens, htokenize, hread⟩ := exists_tokens_of_ofText h
  refine (has_of_ofTokens hread).mono ⟨?_, ?_, ?_⟩
  · rintro value (⟨text, hmem, hnumber⟩ | ⟨name, -, hconstant⟩)
    · exact isNegative_of_number? (isTyped_of_mem_sentence htokenize hmem) hnumber
    · exact isNegative_of_constant hconstant
  · rintro name ⟨hmem, hnone⟩
    exact ⟨isTyped_of_mem_sentence htokenize hmem, hnone⟩
  · rintro name canonical args ⟨hmem, hcanonical, hfunction⟩
    exact ⟨isTyped_of_mem_sentence htokenize hmem, hcanonical, hfunction⟩

mutual

/-- Without numbers of negative sign there is nothing to write as a negation. -/
theorem withSigns_eq : ∀ {e : Expr}, e.Has wellRead → e.withSigns = e
  | number value, h => by
      have hsign : Binary64.isNegative value = false := h
      simp [withSigns, hsign]
  | var _, _ => rfl
  | neg operand, h => congrArg neg (withSigns_eq (e := operand) h)
  | binary op left right, h =>
      congrArg₂ (binary op) (withSigns_eq (e := left) h.1) (withSigns_eq (e := right) h.2)
  | call name canonical args, h => congrArg (call name canonical) (withSignsList_eq h.2)

theorem withSignsList_eq : ∀ {args : List Expr}, HasAll wellRead args → withSignsList args = args
  | [], _ => rfl
  | first :: _, h => congrArg₂ List.cons (withSigns_eq (e := first) h.1) (withSignsList_eq h.2)

end

/-- Showing a tree and reading the text comes back to the tree, up to the limit of the levels and
but for numbers of negative sign, which come back as negations. A tree that was read has none, so it
comes back as it is. -/
theorem ofText_text :
    (∀ e : Expr, e.Has legible →
      (e.textLevels ≤ Parser.maxLevels ∧ ofText e.text = .ok e.withSigns) ∨
        (Parser.maxLevels < e.textLevels ∧
          ∃ position, ofText e.text = .error (.tooDeep Parser.maxLevels position))) ∧
      ∀ (text : String) (e : Expr), ofText text = .ok e → e.Has finite →
        e.Has legible ∧ e.withSigns = e := by
  refine ⟨fun e h => ofText_text_of_has h, fun text e hread hfinite => ?_⟩
  have hwell := wellRead_of_ofText hread
  refine ⟨(hwell.both hfinite).mono ⟨?_, ?_, ?_⟩, withSigns_eq hwell⟩
  · rintro value ⟨-, hvalue⟩
    exact hvalue
  · rintro name ⟨hname, -⟩
    exact hname
  · rintro name canonical args ⟨hcall, -⟩
    exact hcall

/-- The base of negative sign comes back as a negation, and from then on the tree stays as it is. -/
theorem ofText_text_power :
    (binary .pow (number (-2)) (callNamed "Sin" [var "x"])).Has legible ∧
      ofText "(-2 ^ Sin(x))" =
        .ok (binary .pow (neg (number 2)) (callNamed "Sin" [var "x"])) ∧
      (binary .pow (neg (number 2)) (callNamed "Sin" [var "x"])).withSigns =
        binary .pow (neg (number 2)) (callNamed "Sin" [var "x"]) := by
  have hfinite : (-2 : Float).isFinite = true := by decide +kernel
  have hnegative : Binary64.isNegative (-2) = true := by decide +kernel
  have habs : (-2 : Float).abs = 2 := by decide +kernel
  have hsin : IsIdentifier "Sin" :=
    ⟨'S', ['i', 'n'], rfl, by decide, List.all_eq_true.1 (by decide)⟩
  have hx : IsIdentifier "x" := ⟨'x', [], rfl, by decide, List.all_eq_true.1 (by decide)⟩
  have hlegible : (binary .pow (number (-2)) (callNamed "Sin" [var "x"])).Has legible :=
    ⟨hfinite, ⟨hsin, rfl, by decide +kernel⟩, ⟨hx, by decide +kernel⟩, trivial⟩
  have htext : (binary .pow (number (-2)) (callNamed "Sin" [var "x"])).text = "(-2 ^ Sin(x))" := by
    decide +kernel
  have hlevels : (binary .pow (number (-2)) (callNamed "Sin" [var "x"])).textLevels = 3 := by
    simp [textLevels, callNamed, textLevelsList, hnegative]
  have hsigns : (binary .pow (number (-2)) (callNamed "Sin" [var "x"])).withSigns =
      binary .pow (neg (number 2)) (callNamed "Sin" [var "x"]) := by
    simp [withSigns, withSignsList, callNamed, hnegative, habs]
  obtain ⟨-, hread⟩ | ⟨hdeep, -⟩ := ofText_text.1 _ hlegible
  · rw [htext, hsigns] at hread
    have hfinite' : (2 : Float).isFinite = true := by decide +kernel
    exact ⟨hlegible, hread, (ofText_text.2 _ _ hread ⟨hfinite', trivial, trivial, trivial⟩).2⟩
  · rw [hlevels] at hdeep
    exact absurd hdeep (by decide)

end Secant.Expr
