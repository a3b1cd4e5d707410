import Secant.Proofs.Lexer
import Secant.Proofs.Parser.Sentences

/-!
How deep a tree can be that was read. Levels are asked for before an operand is read, so they bound
the paths that never enter a left operand. A left operand is read before the levels of the operators
behind it are asked for, and may use up all of them again: the paths through left operands are
bounded only by the square of the levels, and a path of that length exists.
-/

namespace Secant.Expr

/-! ### Paths in a tree -/

mutual

/-- Operators and calls on the longest path to a leaf. -/
def depth : Expr → Nat
  | number _ => 0
  | var _ => 0
  | neg operand => operand.depth + 1
  | binary _ left right => max left.depth right.depth + 1
  | call _ _ args => depthList args + 1

def depthList : List Expr → Nat
  | [] => 0
  | first :: rest => max first.depth (depthList rest)

end

mutual

/-- Operators and calls on the longest path that enters no left operand. -/
def depthRight : Expr → Nat
  | number _ => 0
  | var _ => 0
  | neg operand => operand.depthRight + 1
  | binary _ _ right => right.depthRight + 1
  | call _ _ args => depthRightList args + 1

def depthRightList : List Expr → Nat
  | [] => 0
  | first :: rest => max first.depthRight (depthRightList rest)

end

/-- One more on a path, if there is one. -/
def lengthen (length : Nat) : Nat :=
  if length = 0 then 0 else length + 1

mutual

/-- Operators and calls on the longest path that enters a left operand; none if no path does. -/
def depthLeft : Expr → Nat
  | number _ => 0
  | var _ => 0
  | neg operand => lengthen operand.depthLeft
  | binary _ left right => max (left.depth + 1) (lengthen right.depthLeft)
  | call _ _ args => lengthen (depthLeftList args)

def depthLeftList : List Expr → Nat
  | [] => 0
  | first :: rest => max first.depthLeft (depthLeftList rest)

end

theorem max_add_one_lengthen (a b : Nat) : max (a + 1) (lengthen b) = max a b + 1 := by
  unfold lengthen
  split <;> omega

mutual

theorem depth_eq_max : ∀ e : Expr, e.depth = max e.depthRight e.depthLeft
  | number _ => rfl
  | var _ => rfl
  | neg operand => by
      rw [depth, depthRight, depthLeft, max_add_one_lengthen, depth_eq_max operand]
  | binary _ left right => by
      have hright := max_add_one_lengthen right.depthRight right.depthLeft
      rw [depth, depthRight, depthLeft, depth_eq_max right]
      omega
  | call _ _ args => by
      rw [depth, depthRight, depthLeft, max_add_one_lengthen, depthList_eq_max args]

theorem depthList_eq_max :
    ∀ args : List Expr, depthList args = max (depthRightList args) (depthLeftList args)
  | [] => rfl
  | first :: rest => by
      rw [depthList, depthRightList, depthLeftList, depth_eq_max first, depthList_eq_max rest]
      omega

end

end Secant.Expr

namespace Secant.Grammar

open Secant.Expr

/-! ### What the levels bound -/

mutual

theorem Expression.depthRight_le {phrase : List Lexeme} {e : Expr} {signs levels : Nat} :
    Expression phrase e signs levels → e.depthRight ≤ levels
  | .single h => h.depthRight_le
  | .join _ _ h => by
      have hright := h.depthRight_le
      rw [depthRight]
      omega

theorem Term.depthRight_le {phrase : List Lexeme} {e : Expr} {marks levels : Nat} :
    Term phrase e marks levels → e.depthRight ≤ levels
  | .single h => h.depthRight_le
  | .join _ _ h => by
      have hright := h.depthRight_le
      rw [depthRight]
      omega

theorem Power.depthRight_le {phrase : List Lexeme} {e : Expr} {levels : Nat} :
    Power phrase e levels → e.depthRight ≤ levels
  | .base h => h.depthRight_le
  | .raise _ h => by
      have hexponent := h.depthRight_le
      rw [depthRight]
      omega

theorem Unary.depthRight_le {phrase : List Lexeme} {e : Expr} {levels : Nat} :
    Unary phrase e levels → e.depthRight ≤ levels
  | .primary h => h.depthRight_le
  | .plus h => Nat.le_succ_of_le h.depthRight_le
  | .minus h => Nat.succ_le_succ h.depthRight_le

theorem Primary.depthRight_le {phrase : List Lexeme} {e : Expr} {levels : Nat} :
    Primary phrase e levels → e.depthRight ≤ levels
  | .number _ => Nat.le_refl _
  | .constant _ => Nat.le_refl _
  | .var _ => Nat.le_refl _
  | .call h _ => Nat.succ_le_succ h.depthRightList_le
  | .paren h => Nat.le_succ_of_le h.depthRight_le

theorem Arguments.depthRightList_le {phrase : List Lexeme} {args : List Expr} {levels : Nat} :
    Arguments phrase args levels → depthRightList args ≤ levels
  | .none => Nat.le_refl _
  | .some h => h.depthRightList_le

theorem Items.depthRightList_le {phrase : List Lexeme} {args : List Expr} {levels : Nat} :
    Items phrase args levels → depthRightList args ≤ levels
  | .last h => Nat.max_le.2 ⟨h.depthRight_le, Nat.zero_le _⟩
  | .cons h h' => by
      have hfirst := h.depthRight_le
      have hrest := h'.depthRightList_le
      rw [depthRightList]
      omega

end

theorem mul_add_le_mul_add {a b : Nat} (h : a ≤ b) (k : Nat) : a * (a + k) ≤ b * (b + k) :=
  Nat.mul_le_mul h (Nat.add_le_add_right h k)

/-- A sign more in a chain, in front of an operand that is a level further down. -/
theorem max_add_one_le_of_join {a b signs levels below k : Nat}
    (ha : a ≤ signs + levels * (levels + k)) (hb : b ≤ below * (below + k)) :
    max a b + 1 ≤
      signs + 1 + max levels (signs + 1 + below) * (max levels (signs + 1 + below) + k) := by
  have hlevels := mul_add_le_mul_add (Nat.le_max_left levels (signs + 1 + below)) k
  have hle : below ≤ max levels (signs + 1 + below) := by omega
  have hbelow := mul_add_le_mul_add hle k
  omega

theorem max_add_one_le_of_raise {a b levels below : Nat} (ha : a ≤ levels * (levels + 1) - 1)
    (hb : b ≤ below * (below + 1)) :
    max a b + 1 ≤ max levels (below + 1) * (max levels (below + 1) + 1) := by
  have hlevels := mul_add_le_mul_add (Nat.le_max_left levels (below + 1)) 1
  have hbelow := mul_add_le_mul_add (Nat.le_max_right levels (below + 1)) 1
  have hsquare : (below + 1) * (below + 1 + 1) = below * (below + 1) + 2 * (below + 1) := by
    simp only [Nat.mul_add, Nat.add_mul]
    omega
  omega

/-! The first operand of a chain may use up all levels again that the signs behind it ask for, and
so may the base of a power and, one level down, the arguments of a call. -/

mutual

theorem Expression.depth_le {phrase : List Lexeme} {e : Expr} {signs levels : Nat} :
    Expression phrase e signs levels → e.depth ≤ signs + levels * (levels + 2)
  | .single h => by
      have hterm := h.depth_le
      have hmarks := h.marks_le
      rw [Nat.mul_add] at hterm ⊢
      omega
  | .join h _ h' => by
      have hright := h'.depth_le
      have hmarks := h'.marks_le
      refine max_add_one_le_of_join h.depth_le ?_
      rw [Nat.mul_add] at hright ⊢
      omega

theorem Term.depth_le {phrase : List Lexeme} {e : Expr} {marks levels : Nat} :
    Term phrase e marks levels → e.depth ≤ marks + levels * (levels + 1)
  | .single h => by
      have hpower := h.depth_le
      omega
  | .join h _ h' => max_add_one_le_of_join h.depth_le h'.depth_le

theorem Power.depth_le {phrase : List Lexeme} {e : Expr} {levels : Nat} :
    Power phrase e levels → e.depth ≤ levels * (levels + 1)
  | .base h => Nat.le_trans h.depth_le (Nat.sub_le _ _)
  | .raise h h' => max_add_one_le_of_raise h.depth_le h'.depth_le

theorem Unary.depth_le {phrase : List Lexeme} {e : Expr} {levels : Nat} :
    Unary phrase e levels → e.depth ≤ levels * (levels + 1) - 1
  | .primary h => h.depth_le
  | .plus h => by
      have hoperand := h.depth_le
      simp only [Nat.mul_add, Nat.add_mul] at hoperand ⊢
      omega
  | .minus h => by
      have hoperand := h.depth_le
      simp only [depth, Nat.mul_add, Nat.add_mul] at hoperand ⊢
      omega

theorem Primary.depth_le {phrase : List Lexeme} {e : Expr} {levels : Nat} :
    Primary phrase e levels → e.depth ≤ levels * (levels + 1) - 1
  | .number _ => Nat.le_refl _
  | .constant _ => Nat.le_refl _
  | .var _ => Nat.le_refl _
  | .call h _ => by
      have hargs := h.depthList_le
      simp only [callNamed, depth, Nat.mul_add, Nat.add_mul] at hargs ⊢
      omega
  | .paren h => by
      have hbody := h.depth_le
      have hsigns := h.signs_le
      simp only [Nat.mul_add, Nat.add_mul] at hbody ⊢
      omega

theorem Arguments.depthList_le {phrase : List Lexeme} {args : List Expr} {levels : Nat} :
    Arguments phrase args levels → depthList args ≤ levels * (levels + 3)
  | .none => Nat.le_refl _
  | .some h => h.depthList_le

theorem Items.depthList_le {phrase : List Lexeme} {args : List Expr} {levels : Nat} :
    Items phrase args levels → depthList args ≤ levels * (levels + 3)
  | .last h => by
      have hlast := h.depth_le
      have hsigns := h.signs_le
      simp only [depthList, Nat.mul_add] at hlast ⊢
      omega
  | .cons h h' => by
      have hfirst := h.depth_le
      have hsigns := h.signs_le
      refine Nat.max_le.2 ⟨Nat.le_trans ?_ (mul_add_le_mul_add (Nat.le_max_left _ _) 3),
        Nat.le_trans h'.depthList_le (mul_add_le_mul_add (Nat.le_max_right _ _) 3)⟩
      simp only [Nat.mul_add] at hfirst ⊢
      omega

end

end Secant.Grammar

namespace Secant.Expr

open Grammar

/-- The tree was read, from a text or from tokens. -/
def IsRead (e : Expr) : Prop :=
  (∃ text, ofText text = .ok e) ∨ ∃ tokens, ofTokens tokens = .ok e

theorem IsRead.exists_sentence {e : Expr} (h : e.IsRead) :
    ∃ phrase signs levels, levels ≤ Parser.maxLevels ∧ Expression phrase e signs levels := by
  have htokens : ∃ tokens, ofTokens tokens = .ok e := by
    rcases h with ⟨text, htext⟩ | htokens
    · obtain ⟨tokens, -, htokens⟩ := exists_tokens_of_ofText htext
      exact ⟨tokens, htokens⟩
    · exact htokens
  obtain ⟨tokens, htokens⟩ := htokens
  obtain ⟨levels, hlevels, signs, hexpression⟩ := exists_sentence_of_ofTokens htokens
  exact ⟨_, signs, levels, hlevels, hexpression⟩

/-- A variable behind so many minus signs. -/
def signed : Nat → Expr
  | 0 => var "x"
  | count + 1 => neg (signed count)

theorem depth_signed (count : Nat) : (signed count).depth = count := by
  induction count with
  | zero => rfl
  | succ count ih => rw [signed, depth, ih]

theorem primary_x : Primary [.name "x"] (var "x") 0 := by
  have hvar : Constant.value? (Text.lower "x") = none := by decide +kernel
  exact .var hvar

theorem unary_signed (count : Nat) :
    Unary (List.replicate count (.op .sub) ++ [.name "x"]) (signed count) count := by
  induction count with
  | zero => exact .primary primary_x
  | succ count ih => exact .minus ih

/-- The signs of the first operand have given their levels back when the plus asks for one. -/
theorem sentence_signed_add (count : Nat) :
    Sentence (List.replicate count (.op .sub) ++ [.name "x"] ++ [.op .add, .name "x"])
      (binary .add (signed count) (var "x")) (max count 1) := by
  have hfirst := Expression.single (.single (.base (unary_signed count)))
  have hsecond := Term.single (.base (.primary primary_x))
  exact ⟨1, hfirst.join rfl hsecond⟩

theorem exists_tokens_signed_add (count place : Nat) :
    ∃ tokens, Lexer.tokens ⟨List.replicate count '-' ++ ['x', '+', 'x'], place⟩ = .ok tokens ∧
      tokens.map Token.lexeme =
        List.replicate count (.op .sub) ++ [.name "x"] ++ [.op .add, .name "x"] ++ [.eof] := by
  induction count generalizing place with
  | zero =>
      have hfirst : lexeme? 'x' ['+', 'x'] = some (.name "x", 1, ['+', 'x']) := by decide +kernel
      have hlast : lexeme? 'x' [] = some (.name "x", 1, []) := by decide +kernel
      have hblank : Text.isBlank 'x' = false := by decide
      rw [List.replicate_zero, List.nil_append, Lexer.tokens_cons hblank hfirst,
        Lexer.tokens_cons (by decide) rfl, Lexer.tokens_cons hblank hlast, Lexer.tokens_nil]
      exact ⟨_, rfl, rfl⟩
  | succ count ih =>
      obtain ⟨tokens, htokens, hlexemes⟩ := ih (place + 1)
      refine ⟨⟨.op .sub, place, place + 1⟩ :: tokens, ?_, ?_⟩
      · rw [List.replicate_succ, List.cons_append, Lexer.tokens_cons (by decide) rfl, htokens]
        rfl
      · rw [List.map_cons, hlexemes, List.replicate_succ]
        simp only [List.cons_append]

theorem ofText_signed_add {count : Nat} (hpos : 0 < count) (hcount : count ≤ Parser.maxLevels) :
    ofText (String.ofList (List.replicate count '-' ++ ['x', '+', 'x'])) =
      .ok (binary .add (signed count) (var "x")) := by
  obtain ⟨tokens, htokens, hlexemes⟩ := exists_tokens_signed_add count 0
  have hsentence := sentence_signed_add count
  rw [Nat.max_eq_left hpos, ← Token.sentence_eq hlexemes hsentence.eof_notMem] at hsentence
  rw [ofText, tokenize, Lexer.ofText, String.toList_ofList, htokens]
  exact ofTokens_of_sentence hsentence hcount

/-- A tree that was read has no path longer than the levels exactly if no path through a left
operand is longer; the other paths never are. In any case the square of the levels bounds them. -/
theorem depth_le_maxLevels_iff {e : Expr} (h : e.IsRead) :
    (e.depth ≤ Parser.maxLevels ↔ e.depthLeft ≤ Parser.maxLevels) ∧
      e.depthRight ≤ Parser.maxLevels ∧
      e.depth ≤ Parser.maxLevels * (Parser.maxLevels + 3) := by
  obtain ⟨phrase, signs, levels, hlevels, hexpression⟩ := h.exists_sentence
  have hright := Nat.le_trans hexpression.depthRight_le hlevels
  have hsigns := hexpression.signs_le
  have hdepth := hexpression.depth_le
  have hsquare := mul_add_le_mul_add hlevels 3
  have hpaths := e.depth_eq_max
  refine ⟨by omega, hright, ?_⟩
  rw [Nat.mul_add] at hdepth hsquare
  omega

theorem depth_le_maxLevels_iff_sum :
    (binary .add (signed 2) (var "x")).IsRead ∧
      ((binary .add (signed 2) (var "x")).depth ≤ Parser.maxLevels ↔
        (binary .add (signed 2) (var "x")).depthLeft ≤ Parser.maxLevels) ∧
      (binary .add (signed 2) (var "x")).depthRight ≤ Parser.maxLevels ∧
      (binary .add (signed 2) (var "x")).depth ≤
        Parser.maxLevels * (Parser.maxLevels + 3) := by
  have hread : (binary .add (signed 2) (var "x")).IsRead :=
    .inl ⟨_, ofText_signed_add (by decide) (by decide)⟩
  exact ⟨hread, depth_le_maxLevels_iff hread⟩

/-- As many signs as there are levels, in front of the first operand of a sum. -/
theorem not_forall_depth_le_maxLevels :
    ¬∀ (text : String) (e : Expr), ofText text = .ok e → e.depth ≤ Parser.maxLevels := by
  intro h
  have hread := ofText_signed_add (by decide) (Nat.le_refl Parser.maxLevels)
  have hle := h _ _ hread
  rw [depth, depth_signed] at hle
  omega

/-! ### A path of that length

A call of a call of a call, each raised to a power, multiplied and added to as often as the levels
allow that the call itself takes. -/

def extendedPhrase (sign : Op) (phrase : List Lexeme) : Nat → List Lexeme
  | 0 => phrase
  | count + 1 => extendedPhrase sign phrase count ++ [.op sign, .name "x"]

def extended (sign : Op) (e : Expr) : Nat → Expr
  | 0 => e
  | count + 1 => binary sign (extended sign e count) (var "x")

def deepestPhrase : Nat → List Lexeme
  | 0 => [.name "x"]
  | levels + 1 =>
      let call := .name "abs" :: .leftParen :: (deepestPhrase levels ++ [.rightParen])
      let factors := extendedPhrase .mul (call ++ [.op .pow, .name "x"]) (levels + 1)
      extendedPhrase .add factors (levels + 1)

def deepest : Nat → Expr
  | 0 => var "x"
  | levels + 1 =>
      let call := callNamed "abs" [deepest levels]
      let factors := extended .mul (binary .pow call (var "x")) (levels + 1)
      extended .add factors (levels + 1)

theorem depth_extended (sign : Op) (e : Expr) (count : Nat) :
    (extended sign e count).depth = e.depth + count := by
  induction count with
  | zero => rfl
  | succ count ih =>
      simp only [extended, depth, ih]
      omega

theorem depth_deepest (levels : Nat) : (deepest levels).depth = levels * (levels + 3) := by
  induction levels with
  | zero => rfl
  | succ levels ih =>
      simp only [deepest, depth_extended, depth, callNamed, depthList, ih, Nat.mul_add, Nat.add_mul]
      omega

theorem power_x : Power [.name "x"] (var "x") 0 :=
  .base (.primary primary_x)

theorem term_extended {phrase : List Lexeme} {e : Expr} {levels : Nat}
    (h : Term phrase e 0 levels) (count : Nat) (hcount : count ≤ levels) :
    Term (extendedPhrase .mul phrase count) (extended .mul e count) count levels := by
  induction count with
  | zero => exact h
  | succ count ih =>
      have hjoin : Term _ (binary .mul _ _) _ _ := (ih (by omega)).join rfl power_x
      rwa [Nat.max_eq_left (by omega)] at hjoin

theorem expression_extended {phrase : List Lexeme} {e : Expr} {levels : Nat}
    (h : Expression phrase e 0 levels) (count : Nat) (hcount : count ≤ levels) :
    Expression (extendedPhrase .add phrase count) (extended .add e count) count levels := by
  induction count with
  | zero => exact h
  | succ count ih =>
      have hjoin : Expression _ (binary .add _ _) _ _ :=
        (ih (by omega)).join rfl (.single power_x)
      rwa [Nat.max_eq_left (by omega)] at hjoin

theorem sentence_deepest (levels : Nat) :
    Sentence (deepestPhrase levels) (deepest levels) levels := by
  induction levels with
  | zero => exact ⟨0, .single (.single power_x)⟩
  | succ levels ih =>
      obtain ⟨signs, hinner⟩ := ih
      have hcall : Primary (.name "abs" :: .leftParen :: (deepestPhrase levels ++ [.rightParen]))
          (callNamed "abs" [deepest levels]) (levels + 1) :=
        .call (.some (.last hinner)) (by decide +kernel)
      have hpower := Power.raise (.primary hcall) power_x
      rw [Nat.max_eq_left (by omega)] at hpower
      have hfactors := term_extended (.single hpower) (levels + 1) (Nat.le_refl _)
      exact ⟨_, expression_extended (.single hfactors) (levels + 1) (Nat.le_refl _)⟩

/-- The square of the levels is met. -/
theorem exists_depth_eq :
    ∃ tokens e, ofTokens tokens = .ok e ∧ e.depth = Parser.maxLevels * (Parser.maxLevels + 3) := by
  have hdeepest := sentence_deepest Parser.maxLevels
  let tokens : List Token :=
    (deepestPhrase Parser.maxLevels ++ [Lexeme.eof]).map fun lexeme => ⟨lexeme, 0, 0⟩
  have hlexemes : tokens.map Token.lexeme = deepestPhrase Parser.maxLevels ++ [.eof] := by
    simp [tokens, Function.comp_def]
  rw [← Token.sentence_eq hlexemes hdeepest.eof_notMem] at hdeepest
  exact ⟨tokens, _, ofTokens_of_sentence hdeepest (Nat.le_refl _), depth_deepest _⟩

end Secant.Expr
