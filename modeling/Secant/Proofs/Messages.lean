import Secant.Proofs.ErrorPlaces
import Secant.Proofs.Traits

/-!
What is in the messages. What they show of a text is one of its characters or one of its tokens, and
the variables and the calls of a tree are names in the text that it is read from. So a control
character that is not in the text is in nothing that is said of it; and where the text takes one
line, everything that is said of it does.
-/

namespace Secant

def Lacks (c : Char) (text : String) : Prop :=
  c ∉ text.toList

instance (c : Char) : DecidablePred (Lacks c) :=
  fun text => inferInstanceAs (Decidable (c ∉ text.toList))

/-- There is no line break in the text. -/
def OneLine (text : String) : Prop :=
  '\n' ∉ text.toList

instance : DecidablePred OneLine :=
  fun text => inferInstanceAs (Decidable ('\n' ∉ text.toList))

@[simp] theorem oneLine_iff {text : String} : OneLine text ↔ Lacks '\n' text :=
  Iff.rfl

def IsControl (c : Char) : Prop :=
  c.toNat < 32

instance : DecidablePred IsControl :=
  fun c => inferInstanceAs (Decidable (c.toNat < 32))

variable {c : Char} {text : String}

@[simp] theorem lacks_append {other : String} :
    Lacks c (text ++ other) ↔ Lacks c text ∧ Lacks c other := by
  simp [Lacks]

@[simp] theorem lacks_toString : Lacks c (toString text) ↔ Lacks c text :=
  Iff.rfl

@[simp] theorem lacks_toString_char {d : Char} : Lacks c (toString d) ↔ d ≠ c := by
  change c ∉ (String.singleton d).toList ↔ _
  simp [eq_comm]

def Printed (cs : List Char) : Prop :=
  ∀ c ∈ cs, ¬IsControl c

instance : DecidablePred Printed :=
  fun cs => decidable_of_iff (cs.all (32 ≤ ·.toNat) = true) (by simp [Printed, IsControl])

@[simp] theorem printed_nil : Printed [] := by
  simp [Printed]

@[simp] theorem printed_cons {cs : List Char} : Printed (c :: cs) ↔ ¬IsControl c ∧ Printed cs := by
  simp [Printed]

@[simp] theorem printed_append {cs others : List Char} :
    Printed (cs ++ others) ↔ Printed cs ∧ Printed others := by
  simp [Printed, or_imp, forall_and]

@[simp] theorem printed_toDigits (n : Nat) : Printed (Nat.toDigits 10 n) := by
  intro c hmem hc
  have hdigit := Nat.isDigit_of_mem_toDigits (by decide) (by decide) hmem
  simp only [Char.isDigit, Bool.and_eq_true, decide_eq_true_eq, UInt32.le_iff_toNat_le] at hdigit
  exact absurd (Nat.le_trans (by decide) hdigit.1) (Nat.not_le.2 hc)

theorem Printed.subset {cs others : List Char} (h : Printed cs) (hsubset : others ⊆ cs) :
    Printed others :=
  fun c hmem => h c (hsubset hmem)

namespace IsControl

theorem lacks (hc : IsControl c) (h : Printed text.toList) : Lacks c text :=
  fun hmem => h c hmem hc

theorem ne (hc : IsControl c) {d : Char} (h : ¬IsControl d) : c ≠ d := by
  rintro rfl
  exact h hc

theorem lacks_repr (hc : IsControl c) (n : Nat) : Lacks c n.repr :=
  hc.lacks (by simp)

end IsControl

/-! ### Tokens and names -/

theorem Token.IsOf.lacks {token : Token} (h : token.IsOf text) (hc : IsControl c)
    (htext : Lacks c text) : Lacks c token.text := by
  obtain rfl | ⟨-, hstands⟩ := h.eq_eofAt_or_standsIn
  · change Lacks c "EOF"
    exact hc.lacks (by decide)
  · intro hmem
    rw [← hstands.extract_eq, List.extract_eq_take_drop] at hmem
    exact htext (List.mem_of_mem_drop (List.mem_of_mem_take hmem))

namespace Expr

def namesLack (c : Char) : Traits where
  number _ := True
  var name := Lacks c name
  call name _ _ := Lacks c name

theorem has_namesLack_of_ofText {e : Expr} (h : ofText text = .ok e) (hc : IsControl c)
    (htext : Lacks c text) : e.Has (namesLack c) := by
  obtain ⟨tokens, htokenize, hread⟩ := exists_tokens_of_ofText h
  have hname (name : String) (hmem : .name name ∈ Token.sentence tokens) : Lacks c name := by
    obtain ⟨⟨lexeme, start, stop⟩, htoken, -, rfl⟩ := Token.exists_of_mem_sentence hmem
    exact Token.IsOf.lacks ⟨tokens, htokenize, htoken⟩ hc htext
  refine (has_of_ofTokens hread).mono ⟨fun _ _ => trivial, ?_, ?_⟩
  · rintro name ⟨hmem, -⟩
    exact hname name hmem
  · rintro name canonical args ⟨hmem, -⟩
    exact hname name hmem

end Expr

/-! ### Errors -/

theorem Parser.Expects.lacks {what : String} {taken : List Token} (h : Expects what taken)
    (hc : IsControl c) (htaken : ∀ token ∈ taken, Lacks c token.text) : Lacks c what := by
  cases h with
  | closing | ending => exact hc.lacks (by decide)
  | @closingCall name _ _ _ _ _ hcall =>
      have hname : Lacks c name := htaken _ (hcall.subset List.mem_cons_self)
      simp (disch := decide) [hc.lacks, hname]

theorem Parser.Tells.lacks {error : ParseError} {taken : List Token} {token : Token}
    (h : Tells error taken token) (hc : IsControl c) (htaken : ∀ other ∈ taken, Lacks c other.text)
    (htoken : Lacks c token.text) : Lacks c error.message := by
  unfold ParseError.message
  cases h with
  | @invalidNumber shown _ _ _ _ hmem =>
      have hshown : Lacks c shown := htaken _ hmem
      simp (disch := decide) [hc.lacks, hc.lacks_repr, hshown]
  | @unknownFunction name _ _ _ _ _ _ hcall =>
      have hname : Lacks c name := htaken _ (hcall.subset List.mem_cons_self)
      simp (disch := decide) [hc.lacks, hname]
  | expected hwhat =>
      simp (disch := decide) [hc.lacks, hc.lacks_repr, hwhat.lacks hc htaken, htoken]
  | unexpectedToken => simp (disch := decide) [hc.lacks, hc.lacks_repr, htoken]
  | tooDeep => simp (disch := decide) [hc.lacks, hc.lacks_repr]

theorem Expr.lacks_of_ofText {error : ParseError} (h : ofText text = .error error)
    (hc : IsControl c) (htext : Lacks c text) : Lacks c error.message := by
  obtain htokenize | ⟨tokens, htokens, failure, hfailure, rfl⟩ := ofText_eq_error_iff.1 h
  · obtain ⟨d, position, hget, rfl⟩ :=
      Lexer.exists_of_tokens_eq_error _ (Lexer.isIn_ofText text) htokenize
    have hne : d ≠ c := fun heq => htext (heq ▸ List.mem_of_getElem? hget)
    unfold ParseError.message
    simp (disch := decide) [hc.lacks, hc.lacks_repr, hne]
  · obtain ⟨taken, token, behind, rfl, -, htells, -⟩ := Parser.exists_stop htokens hfailure
    have hof (other : Token) (hmem : other ∈ taken ++ token :: behind) : Lacks c other.text :=
      Token.IsOf.lacks ⟨_, htokens, hmem⟩ hc htext
    exact htells.lacks hc (fun other hmem => hof other (by simp [hmem])) (hof token (by simp))

theorem Expr.position_le_of_ofText {error : ParseError} (h : ofText text = .error error) :
    error.position ≤ text.length := by
  obtain htokenize | ⟨tokens, htokens, failure, hfailure, rfl⟩ := ofText_eq_error_iff.1 h
  · exact (ParseError.fits_of_tokenize htokenize).1
  · obtain ⟨taken, token, behind, rfl, -, htells, -⟩ := Parser.exists_stop htokens hfailure
    exact (ParseError.fits_of_tells htokens htells).1

theorem lacks_countsText (hc : IsControl c) (action : Action) : Lacks c action.countsText := by
  cases action <;> exact hc.lacks (by simp only [Action.countsText, Action.counts]; decide)

/-- What is told of an evaluation that fails. -/
theorem Expr.lacks_of_value {e : Expr} (h : e.Has (namesLack c)) (hc : IsControl c)
    {config : EvalConfig} {valuation : Valuation} {error : EvalError}
    (hvalue : e.value config valuation = .error error) : Lacks c error.message := by
  obtain ⟨e', valuation', hparts, hraises⟩ := arises_of_value hvalue
  have hhas := has_of_parts hparts h
  unfold EvalError.message
  cases hraises with
  | @undefined name =>
      have hname : Lacks c name := hhas
      simp (disch := decide) [hc.lacks, hname]
  | @unknown name | @count name =>
      have hname : Lacks c name := hhas.1
      simp (disch := decide) [hc.lacks, hc.lacks_repr, hname, lacks_countsText hc]
  | division | «variable» | domain => exact hc.lacks (by decide)

/-! ### Numbers and trees -/

namespace Decimal

@[simp] theorem printed_zeros (count : Int) : Printed (zeros count) := by
  intro c hmem
  rw [List.eq_of_mem_replicate hmem]
  decide

theorem printed_pointed {wholeTail digits : List Char} (htail : Printed wholeTail)
    (hdigits : Printed digits) (exponent : Int) : Printed (pointed wholeTail digits exponent) := by
  have htake := hdigits.subset (List.take_subset (digits.length + exponent).toNat digits)
  have hdrop := hdigits.subset (List.drop_subset (digits.length + exponent).toNat digits)
  have hpoint : ¬IsControl '.' := by decide
  have hzero : ¬IsControl '0' := by decide
  unfold pointed
  dsimp only
  split_ifs <;> simp [*]

theorem printed_scaled {digits : List Char} (hdigits : Printed digits) (leading : Int) :
    Printed (scaled digits leading) := by
  have htake := hdigits.subset (List.take_subset 1 digits)
  have htail := hdigits.subset (List.tail_subset digits)
  have hpoint : ¬IsControl '.' := by decide
  have hmark : ¬IsControl 'e' := by decide
  have hminus : ¬IsControl '-' := by decide
  unfold scaled
  dsimp only
  split_ifs <;> simp [*]

theorem Layout.printed_chars {layout : Layout} (h : Printed layout.wholeTail) (x : Float) :
    Printed (layout.chars x) := by
  have hminus : ¬IsControl '-' := by decide
  have hmagnitude (bits : Nat) : Printed (layout.magnitude bits) := by
    unfold magnitude digits
    dsimp only
    split_ifs
    · exact printed_cons.2 ⟨by decide, h⟩
    · decide
    · exact printed_pointed h (printed_toDigits _) _
    · exact printed_scaled (printed_toDigits _) _
  unfold chars
  split_ifs
  · decide
  · simp [hminus, hmagnitude]
  · simp [hmagnitude]

end Decimal

namespace Expr

mutual

theorem lacks_chars (hc : IsControl c) : ∀ {e : Expr}, e.Has (namesLack c) → c ∉ e.chars
  | number x, _ => by
      rw [chars]
      have hprinted : Printed (exprNumber.chars x) := Decimal.Layout.printed_chars printed_nil x
      exact fun hmem => hprinted c hmem hc
  | var name, h => by
      rw [chars]
      exact h
  | neg operand, h => by
      have hoperand := lacks_chars hc (e := operand) h
      simp (disch := decide) [chars, hc.ne, hoperand]
  | binary op left right, h => by
      have hleft := lacks_chars hc (e := left) h.1
      have hright := lacks_chars hc (e := right) h.2
      have hop : c ≠ op.symbol := by cases op <;> exact hc.ne (by decide)
      simp (disch := decide) [chars, hc.ne, hleft, hright, hop]
  | call name canonical args, h => by
      have hname : c ∉ name.toList := h.1
      have hargs := lacks_charsList hc h.2
      simp (disch := decide) [chars, hc.ne, hname, hargs]

theorem lacks_charsList (hc : IsControl c) :
    ∀ {args : List Expr}, HasAll (namesLack c) args → c ∉ charsList args
  | [], _ => by simp [charsList]
  | [last], h => by
      have hlast := lacks_chars hc (e := last) h.1
      simpa [charsList] using hlast
  | first :: second :: rest, h => by
      have hfirst := lacks_chars hc (e := first) h.1
      have hrest := lacks_charsList hc h.2
      simp (disch := decide) [charsList, hc.ne, hfirst, hrest]

end

end Expr

end Secant
