import Secant.Proofs.FreeVariables
import Secant.Proofs.Parser.Sentences

/-!
What holds of every number, every variable and every call in a tree. It holds then of every part
that an evaluation comes to. Of a tree that was read it says where its leaves come from: a number is
the value of a number or of a constant in the sentence, a variable is a name there that is no
constant, and a call is that of a function.
-/

namespace Secant.Expr

/-- What is asked of the numbers, of the variables and of the calls in a tree. -/
structure Traits where
  number : Float → Prop
  var : String → Prop
  call : String → String → List Expr → Prop

mutual

def Has (traits : Traits) : Expr → Prop
  | number value => traits.number value
  | var name => traits.var name
  | neg operand => operand.Has traits
  | binary _ left right => left.Has traits ∧ right.Has traits
  | call name canonical args => traits.call name canonical args ∧ HasAll traits args

def HasAll (traits : Traits) : List Expr → Prop
  | [] => True
  | first :: rest => first.Has traits ∧ HasAll traits rest

end

@[simp] theorem hasAll_iff {traits : Traits} {args : List Expr} :
    HasAll traits args ↔ ∀ e ∈ args, e.Has traits := by
  induction args with
  | nil => simp [HasAll]
  | cons first rest ih => simp [HasAll, ih]

structure Traits.Imply (traits others : Traits) : Prop where
  number : ∀ value, traits.number value → others.number value
  var : ∀ name, traits.var name → others.var name
  call : ∀ name canonical args, traits.call name canonical args → others.call name canonical args

mutual

theorem Has.mono {traits others : Traits} (himply : traits.Imply others) :
    ∀ {e : Expr}, e.Has traits → e.Has others
  | number value, h => himply.number value h
  | var name, h => himply.var name h
  | neg operand, h => Has.mono himply (e := operand) h
  | binary _ left right, h =>
      ⟨Has.mono himply (e := left) h.1, Has.mono himply (e := right) h.2⟩
  | call name canonical args, h => ⟨himply.call name canonical args h.1, HasAll.mono himply h.2⟩

theorem HasAll.mono {traits others : Traits} (himply : traits.Imply others) :
    ∀ {args : List Expr}, HasAll traits args → HasAll others args
  | [], _ => trivial
  | first :: _, h => ⟨Has.mono himply (e := first) h.1, HasAll.mono himply h.2⟩

end

def Traits.both (traits others : Traits) : Traits where
  number value := traits.number value ∧ others.number value
  var name := traits.var name ∧ others.var name
  call name canonical args := traits.call name canonical args ∧ others.call name canonical args

mutual

theorem Has.both {traits others : Traits} :
    ∀ {e : Expr}, e.Has traits → e.Has others → e.Has (traits.both others)
  | number _, h, h' => ⟨h, h'⟩
  | var _, h, h' => ⟨h, h'⟩
  | neg operand, h, h' => Has.both (e := operand) h h'
  | binary _ left right, h, h' =>
      ⟨Has.both (e := left) h.1 h'.1, Has.both (e := right) h.2 h'.2⟩
  | call _ _ _, h, h' => ⟨⟨h.1, h'.1⟩, HasAll.both h.2 h'.2⟩

theorem HasAll.both {traits others : Traits} :
    ∀ {args : List Expr}, HasAll traits args → HasAll others args →
      HasAll (traits.both others) args
  | [], _, _ => trivial
  | first :: _, h, h' => ⟨Has.both (e := first) h.1 h'.1, HasAll.both h.2 h'.2⟩

end

/-! ### Parts -/

theorem Part.has {whole part : Expr × Valuation} {traits : Traits} (hpart : Part whole part)
    (h : whole.1.Has traits) : part.1.Has traits := by
  cases hpart with
  | operand => exact h
  | left => exact h.1
  | right => exact h.2
  | argument _ hmem => exact hasAll_iff.1 h.2 _ hmem
  | body y => exact h.2.1
  | behind hmem => exact hasAll_iff.1 h.2.2.2 _ hmem

theorem has_of_parts {whole part : Expr × Valuation} {traits : Traits}
    (hparts : Relation.ReflTransGen Part whole part) (h : whole.1.Has traits) :
    part.1.Has traits := by
  induction hparts with
  | refl => exact h
  | tail _ hpart ih => exact hpart.has ih

/-! ### Free variables -/

mutual

theorem Has.var_of_mem_free {traits : Traits} {name : String} :
    ∀ {e : Expr}, e.Has traits → name ∈ e.free → traits.var name
  | number _, _, hfree => by simp [free] at hfree
  | var other, h, hfree => by
      obtain rfl := mem_free_var.1 hfree
      exact h
  | neg operand, h, hfree => Has.var_of_mem_free (e := operand) h (mem_free_neg.1 hfree)
  | binary _ left right, h, hfree => by
      rcases mem_free_binary.1 hfree with hfree | hfree
      · exact Has.var_of_mem_free (e := left) h.1 hfree
      · exact Has.var_of_mem_free (e := right) h.2 hfree
  | call _ _ args, h, hfree => by
      obtain ⟨e, hmem, hfree⟩ := exists_mem_free_of_call hfree
      exact HasAll.var_of_mem_free h.2 e hmem hfree

theorem HasAll.var_of_mem_free {traits : Traits} {name : String} :
    ∀ {args : List Expr}, HasAll traits args → ∀ e ∈ args, name ∈ e.free → traits.var name
  | [], _, e, hmem, _ => by cases hmem
  | first :: rest, h, e, hmem, hfree => by
      rcases List.mem_cons.1 hmem with heq | hmem
      · exact Has.var_of_mem_free (e := first) h.1 (heq ▸ hfree)
      · exact HasAll.var_of_mem_free h.2 e hmem hfree

end

/-! ### Sentences -/

/-- What the leaves of a tree are that is read from these lexemes. -/
def readFrom (phrase : List Lexeme) : Traits where
  number value :=
    (∃ text, .number text ∈ phrase ∧ Decimal.number? text = some value) ∨
      ∃ name, .name name ∈ phrase ∧ Constant.value? (Text.lower name) = some value
  var name := .name name ∈ phrase ∧ Constant.value? (Text.lower name) = none
  call name canonical _ :=
    .name name ∈ phrase ∧ canonical = Text.lower name ∧ Builtin.isFunction canonical = true

end Secant.Expr

namespace Secant.Grammar

open Secant.Expr

/-! A phrase is a stretch of the sentence, so its leaves come from there as well. -/

mutual

theorem Expression.has {whole phrase : List Lexeme} {e : Expr} {signs levels : Nat} :
    Expression phrase e signs levels → phrase ⊆ whole → e.Has (readFrom whole)
  | .single h, hwhole => h.has hwhole
  | .join h _ h', hwhole => by
      obtain ⟨hfirst, hnext⟩ := List.append_subset.1 hwhole
      exact ⟨h.has hfirst, h'.has (List.cons_subset.1 hnext).2⟩

theorem Term.has {whole phrase : List Lexeme} {e : Expr} {marks levels : Nat} :
    Term phrase e marks levels → phrase ⊆ whole → e.Has (readFrom whole)
  | .single h, hwhole => h.has hwhole
  | .join h _ h', hwhole => by
      obtain ⟨hfirst, hnext⟩ := List.append_subset.1 hwhole
      exact ⟨h.has hfirst, h'.has (List.cons_subset.1 hnext).2⟩

theorem Power.has {whole phrase : List Lexeme} {e : Expr} {levels : Nat} :
    Power phrase e levels → phrase ⊆ whole → e.Has (readFrom whole)
  | .base h, hwhole => h.has hwhole
  | .raise h h', hwhole => by
      obtain ⟨hfirst, hnext⟩ := List.append_subset.1 hwhole
      exact ⟨h.has hfirst, h'.has (List.cons_subset.1 hnext).2⟩

theorem Unary.has {whole phrase : List Lexeme} {e : Expr} {levels : Nat} :
    Unary phrase e levels → phrase ⊆ whole → e.Has (readFrom whole)
  | .primary h, hwhole => h.has hwhole
  | .plus h, hwhole => h.has (List.cons_subset.1 hwhole).2
  | .minus h, hwhole => h.has (List.cons_subset.1 hwhole).2

theorem Primary.has {whole phrase : List Lexeme} {e : Expr} {levels : Nat} :
    Primary phrase e levels → phrase ⊆ whole → e.Has (readFrom whole)
  | .number h, hwhole => .inl ⟨_, hwhole List.mem_cons_self, h⟩
  | .constant h, hwhole => .inr ⟨_, hwhole List.mem_cons_self, h⟩
  | .var h, hwhole => ⟨hwhole List.mem_cons_self, h⟩
  | .call h hfunction, hwhole => by
      obtain ⟨hname, hbehind⟩ := List.cons_subset.1 hwhole
      have hargs := (List.append_subset.1 (List.cons_subset.1 hbehind).2).1
      exact ⟨⟨hname, rfl, hfunction⟩, h.hasAll hargs⟩
  | .paren h, hwhole => h.has (List.append_subset.1 (List.cons_subset.1 hwhole).2).1

theorem Arguments.hasAll {whole phrase : List Lexeme} {args : List Expr} {levels : Nat} :
    Arguments phrase args levels → phrase ⊆ whole → HasAll (readFrom whole) args
  | .none, _ => trivial
  | .some h, hwhole => h.hasAll hwhole

theorem Items.hasAll {whole phrase : List Lexeme} {args : List Expr} {levels : Nat} :
    Items phrase args levels → phrase ⊆ whole → HasAll (readFrom whole) args
  | .last h, hwhole => ⟨h.has hwhole, trivial⟩
  | .cons h h', hwhole => by
      obtain ⟨hfirst, hrest⟩ := List.append_subset.1 hwhole
      exact ⟨h.has hfirst, h'.hasAll (List.cons_subset.1 hrest).2⟩

end

end Secant.Grammar

namespace Secant.Expr

theorem has_of_ofTokens {tokens : List Token} {e : Expr} (h : ofTokens tokens = .ok e) :
    e.Has (readFrom (Token.sentence tokens)) := by
  obtain ⟨_, -, _, hsentence⟩ := exists_sentence_of_ofTokens h
  exact hsentence.has fun _ hmem => hmem

/-- A tree that was read calls functions only, so no call in it is found to be unknown. -/
theorem not_unknownFunction_of_ofText {text : String} {e : Expr} (h : ofText text = .ok e)
    {config : EvalConfig} {valuation : Valuation} {name : String} :
    e.value config valuation ≠ .error (.unknownFunction name) := by
  intro hvalue
  obtain ⟨tokens, -, htokens⟩ := exists_tokens_of_ofText h
  obtain ⟨e', valuation', hparts, hraises⟩ := arises_of_value hvalue
  have hhas := has_of_parts hparts (has_of_ofTokens htokens)
  cases hraises with
  | unknown hfind =>
      obtain ⟨⟨-, -, hfunction⟩, -⟩ := hhas
      rw [Builtin.isFunction, hfind] at hfunction
      cases hfunction

end Secant.Expr
