import Secant.Proofs.Decimal.Written
import Secant.Proofs.Spans

/-!
How lexemes are typed. A text that spells a phrase is cut into its lexemes, whatever else comes
behind it, as long as no number and no name at its end goes on there.
-/

namespace Secant

open Text

/-! ### Names -/

/-- A letter or an underscore, and then what may go on a name. -/
def IsIdentifier (name : String) : Prop :=
  ∃ first rest, name.toList = first :: rest ∧ startsName first = true ∧
    ∀ c ∈ rest, continuesName c = true

theorem startsName_eq_false_of_startsNumber {c : Char} (h : isDigit c = true ∨ c = '.') :
    startsName c = false := by
  have hall : ∀ n < 58, startsName (Char.ofNat n) = false := by decide +kernel
  simpa using hall c.toNat (Nat.lt_succ_of_le (Decimal.toNat_of_startsNumber h).2)

/-! ### Where a number or a name ends -/

theorem of_isBlank {p : Char → Bool}
    (hall : ∀ range ∈ blankTable.ranges, ∀ n ∈ List.range' range.1 (range.2 + 1 - range.1),
      p (Char.ofNat n) = true) {c : Char} (h : isBlank c = true) : p c = true := by
  obtain ⟨range, hmem, hlow, hhigh⟩ := blankTable.covers_iff.1 h
  simpa using hall range hmem c.toNat (List.mem_range'_1.2 ⟨hlow, by omega⟩)

/-- Neither a number nor a name goes on at the front of this text. -/
def Breaks (cs : List Char) : Prop :=
  ∀ c ∈ cs.head?, isBlank c = true ∨ c ∈ [',', '(', ')']

theorem breaks_nil : Breaks [] := by simp [Breaks]

theorem breaks_cons {c : Char} (h : isBlank c = true ∨ c ∈ [',', '(', ')']) (cs : List Char) :
    Breaks (c :: cs) := by
  simpa [Breaks] using h

theorem Breaks.append {cs rest : List Char} (h : Breaks cs) (hrest : Breaks rest) :
    Breaks (cs ++ rest) := by
  cases cs with
  | nil => exact hrest
  | cons c cs => exact breaks_cons (h c rfl) _

/-! ### Number tokens -/

namespace NumeralScan

variable {scan : NumeralScan}

theorem step?_of_isDigit (hsign : scan.signAllowed = false) {c : Char} (h : isDigit c = true) :
    scan.step? c = some scan := by
  obtain ⟨pointSeen, markSeen, _⟩ := scan
  cases hsign
  simp [step?, h]

theorem split_digits (hsign : scan.signAllowed = false) {digits : List Char}
    (hdigits : ∀ c ∈ digits, isDigit c = true) (rest : List Char) :
    scan.split (digits ++ rest) = (digits ++ (scan.split rest).1, (scan.split rest).2) := by
  induction digits with
  | nil => rfl
  | cons c digits ih =>
      have ih := ih fun c hmem => hdigits c (List.mem_cons_of_mem _ hmem)
      have hstep := step?_of_isDigit hsign (hdigits c List.mem_cons_self)
      simp [split, hstep, ih]

theorem step?_of_breaks {c : Char} (h : isBlank c = true ∨ c ∈ [',', '(', ')']) :
    scan.step? c = none := by
  have hplain : (!isDigit c && ['.', 'e', 'E', '+', '-'].all (c != ·)) = true := by
    rcases h with hblank | hmem
    · exact of_isBlank (p := fun c => !isDigit c && ['.', 'e', 'E', '+', '-'].all (c != ·))
        (by decide +kernel) hblank
    · have hall : [',', '(', ')'].all (fun c =>
          !isDigit c && ['.', 'e', 'E', '+', '-'].all (c != ·)) = true := by decide
      exact List.all_eq_true.1 hall c hmem
  simp only [List.all_cons, List.all_nil, Bool.and_true, Bool.and_eq_true, Bool.not_eq_true',
    bne_iff_ne] at hplain
  obtain ⟨hdigit, hpoint, hmark, hmark', hplus, hminus⟩ := hplain
  simp [step?, hdigit, hpoint, hmark, hmark', hplus, hminus]

theorem split_of_breaks {rest : List Char} (h : Breaks rest) : scan.split rest = ([], rest) := by
  cases rest with
  | nil => rfl
  | cons c rest => simp [split, step?_of_breaks (h c rfl)]

/-- What was cut off once is cut off again, if it breaks off behind it. -/
theorem split_split (cs : List Char) {rest : List Char} (h : Breaks rest) :
    scan.split ((scan.split cs).1 ++ rest) = ((scan.split cs).1, rest) := by
  induction cs generalizing scan with
  | nil => exact split_of_breaks h
  | cons c cs ih =>
      cases hstep : scan.step? c with
      | none => simpa [split, hstep] using split_of_breaks h
      | some next => simp [split, hstep, ih]

theorem exists_split_plain_append {cs : List Char} {d : Decimal} (h : Decimal.Plain cs d) :
    ∃ scan : NumeralScan, scan.markSeen = false ∧
      ∀ tail, start.split (cs ++ tail) = (cs ++ (scan.split tail).1, (scan.split tail).2) := by
  cases h with
  | whole hne hdigits => exact ⟨start, rfl, split_digits rfl hdigits⟩
  | @pointed digits fraction hne hdigits hfraction =>
      have hpoint : start.step? '.' = some ⟨true, false, false⟩ := rfl
      have hbehind (tail : List Char) : split ⟨true, false, false⟩ (fraction ++ tail) =
          (fraction ++ (split ⟨true, false, false⟩ tail).1, (split ⟨true, false, false⟩ tail).2) :=
        split_digits rfl hfraction tail
      refine ⟨⟨true, false, false⟩, rfl, fun tail => ?_⟩
      rw [List.append_assoc, split_digits rfl hdigits, List.cons_append, split, hpoint]
      simp [hbehind]

/-- A sign behind the mark is taken along, and so are the digits. -/
theorem split_exponent (hmark : scan.markSeen = false) (minus : Bool) {digits : List Char}
    (hne : digits ≠ []) (hdigits : ∀ c ∈ digits, isDigit c = true) {rest : List Char}
    (hrest : Breaks rest) :
    scan.split ('e' :: (if minus then ['-'] else []) ++ digits ++ rest) =
      ('e' :: (if minus then ['-'] else []) ++ digits, rest) := by
  obtain ⟨pointSeen, _, signAllowed⟩ := scan
  cases hmark
  have hstep : step? ⟨pointSeen, false, signAllowed⟩ 'e' = some ⟨pointSeen, true, true⟩ := by
    simp [step?, isDigit]
  have hdrop : split ⟨pointSeen, true, false⟩ (digits ++ rest) = (digits, rest) := by
    rw [split_digits rfl hdigits, split_of_breaks hrest, List.append_nil]
  have hsigned : split ⟨pointSeen, true, true⟩ ((if minus then ['-'] else []) ++ digits ++ rest) =
      ((if minus then ['-'] else []) ++ digits, rest) := by
    cases minus with
    | true =>
        have hminus : step? ⟨pointSeen, true, true⟩ '-' = some ⟨pointSeen, true, false⟩ := by
          simp [step?, isDigit]
        simp [split, hminus, hdrop]
    | false =>
        -- The first digit is where the sign might have stood.
        obtain ⟨first, more, rfl⟩ := List.exists_cons_of_ne_nil hne
        have hfirst := hdigits first List.mem_cons_self
        have hsame :
            step? ⟨pointSeen, true, true⟩ first = step? ⟨pointSeen, true, false⟩ first := by
          simp only [step?, hfirst, if_true]
        simpa [split, hsame] using hdrop
  simp only [List.cons_append, split, hstep, hsigned]

theorem split_written {cs : List Char} {d : Decimal} (h : Decimal.Written cs d) {rest : List Char}
    (hrest : Breaks rest) : start.split (cs ++ rest) = (cs, rest) := by
  cases h with
  | plain hplain =>
      obtain ⟨scan, -, hsplit⟩ := exists_split_plain_append hplain
      rw [hsplit, split_of_breaks hrest, List.append_nil]
  | scaled minus hplain hne hdigits =>
      obtain ⟨scan, hmark, hsplit⟩ := exists_split_plain_append hplain
      have hexponent := split_exponent hmark minus hne hdigits hrest
      rw [List.append_assoc, List.append_assoc, hsplit, ← List.append_assoc, hexponent,
        ← List.append_assoc]

end NumeralScan

/-- A point begins a number only before a digit, and then the digit belongs to the number. -/
theorem exists_split_start {c : Char} {cs : List Char} (h : startsNumber c cs = true) :
    ∃ more, (NumeralScan.start.split (c :: cs)).1 = c :: more ∧
      ∀ rest, startsNumber c (more ++ rest) = true := by
  simp only [startsNumber, Bool.or_eq_true, Bool.and_eq_true, beq_iff_eq, Option.any_eq_true] at h
  rcases h with hdigit | ⟨rfl, digit, hhead, hdigit⟩
  · have hstep : NumeralScan.start.step? c = some .start :=
      NumeralScan.step?_of_isDigit rfl hdigit
    exact ⟨_, by rw [NumeralScan.split, hstep], by simp [startsNumber, hdigit]⟩
  · obtain ⟨behind, rfl⟩ := List.head?_eq_some_iff.1 hhead
    have hpoint : NumeralScan.start.step? '.' = some ⟨true, false, false⟩ := rfl
    have hstep : NumeralScan.step? ⟨true, false, false⟩ digit = some ⟨true, false, false⟩ :=
      NumeralScan.step?_of_isDigit rfl hdigit
    refine ⟨digit :: (NumeralScan.split ⟨true, false, false⟩ behind).1, ?_, ?_⟩
    · simp only [NumeralScan.split, hpoint, hstep]
    · simp [startsNumber, hdigit]

/-! ### Lexemes -/

theorem lexeme?_written {first : Char} {more rest : List Char} {d : Decimal}
    (h : Decimal.Written (first :: more) d) (hrest : Breaks rest) :
    lexeme? first (more ++ rest) =
      some (.number (String.ofList (first :: more)), more.length + 1, rest) := by
  obtain ⟨_, _, heq, hfirst⟩ := h.exists_cons
  cases heq
  have hsplit : NumeralScan.start.split (first :: (more ++ rest)) = (first :: more, rest) :=
    NumeralScan.split_written h hrest
  simp [lexeme?, startsNumber, hfirst, hsplit]

theorem continuesName_eq_false_of_breaks {c : Char} (h : isBlank c = true ∨ c ∈ [',', '(', ')']) :
    continuesName c = false := by
  rcases h with hblank | hmem
  · simpa using of_isBlank (p := fun c => !continuesName c) (by decide +kernel) hblank
  · have hall : [',', '(', ')'].all (fun c => !continuesName c) = true := by decide +kernel
    simpa using List.all_eq_true.1 hall c hmem

theorem lexeme?_name {first : Char} {more rest : List Char} (hfirst : startsName first = true)
    (hmore : ∀ c ∈ more, continuesName c = true)
    (hrest : ∀ c ∈ rest.head?, continuesName c = false) :
    lexeme? first (more ++ rest) =
      some (.name (String.ofList (first :: more)), more.length + 1, rest) := by
  have hnumber : startsNumber first (more ++ rest) = false := by
    have hnot : ¬(isDigit first = true ∨ first = '.') := by
      intro hnumber
      rw [startsName_eq_false_of_startsNumber hnumber] at hfirst
      cases hfirst
    obtain ⟨hdigit, hpoint⟩ := not_or.1 hnot
    simp [startsNumber, hdigit, hpoint]
  have hbehind : rest.takeWhile continuesName = [] ∧ rest.dropWhile continuesName = rest := by
    cases rest with
    | nil => simp
    | cons c rest => simp [hrest c rfl]
  simp [lexeme?, hnumber, hfirst, List.takeWhile_append_of_pos hmore,
    List.dropWhile_append_of_pos hmore, hbehind]

theorem mem_of_symbol? {c : Char} {lexeme : Lexeme} (h : symbol? c = some lexeme) :
    c ∈ ['+', '-', '*', '/', '^', '(', ')', ','] := by
  unfold symbol? at h
  split at h <;> simp at h ⊢

theorem lexeme?_symbol {c : Char} {lexeme : Lexeme} (h : symbol? c = some lexeme)
    (cs : List Char) : lexeme? c cs = some (lexeme, 1, cs) := by
  have hall : ['+', '-', '*', '/', '^', '(', ')', ','].all (fun c =>
      !startsName c && !isDigit c && c != '.') = true := by decide +kernel
  have hplain := List.all_eq_true.1 hall c (mem_of_symbol? h)
  simp only [Bool.and_eq_true, Bool.not_eq_true', bne_iff_ne] at hplain
  obtain ⟨⟨hname, hdigit⟩, hpoint⟩ := hplain
  simp [lexeme?, startsNumber, hname, hdigit, hpoint, h]

/-- What begins with a character that may go on a name is a number or a name. -/
theorem isWord_of_lexeme? {c : Char} {cs rest : List Char} {lexeme : Lexeme} {width : Nat}
    (hc : continuesName c = true) (h : lexeme? c cs = some (lexeme, width, rest)) :
    (∃ text, lexeme = .number text) ∨ ∃ text, lexeme = .name text := by
  unfold lexeme? at h
  split at h
  · cases h
    exact .inl ⟨_, rfl⟩
  · split at h
    · cases h
      exact .inr ⟨_, rfl⟩
    · obtain ⟨_, hfound, -⟩ := Option.map_eq_some_iff.1 h
      have hall :
          ['+', '-', '*', '/', '^', '(', ')', ','].all (fun c => !continuesName c) = true := by
        decide +kernel
      have hnot := List.all_eq_true.1 hall c (mem_of_symbol? hfound)
      simp [hc] at hnot

theorem isBlank_eq_false_of_lexeme? {c : Char} {cs rest : List Char} {lexeme : Lexeme} {width : Nat}
    (h : lexeme? c cs = some (lexeme, width, rest)) : isBlank c = false := by
  by_contra hblank
  rw [Bool.not_eq_false] at hblank
  have hplain := of_isBlank
    (p := fun c => !startsName c && !isDigit c && c != '.' && (symbol? c).isNone)
    (by decide +kernel) hblank
  simp only [Bool.and_eq_true, Bool.not_eq_true', bne_iff_ne, Option.isNone_iff_eq_none] at hplain
  obtain ⟨⟨⟨hname, hdigit⟩, hpoint⟩, hsymbol⟩ := hplain
  simp [lexeme?, startsNumber, hname, hdigit, hpoint, hsymbol] at h

/-! ### Phrases -/

namespace Lexer

theorem next_blank {c : Char} (hblank : isBlank c = true) (cs : List Char) (place : Nat) :
    next ⟨c :: cs, place⟩ = next ⟨cs, place + 1⟩ := by
  have hplace : place + ((cs.takeWhile isBlank).length + 1) =
      place + 1 + (cs.takeWhile isBlank).length := by omega
  simp [next, hblank, hplace]

theorem next_blanks {blanks : List Char} (h : ∀ c ∈ blanks, isBlank c = true) (cs : List Char)
    (place : Nat) : next ⟨blanks ++ cs, place⟩ = next ⟨cs, place + blanks.length⟩ := by
  induction blanks generalizing place with
  | nil => rfl
  | cons c blanks ih =>
      obtain ⟨hblank, hblanks⟩ := List.forall_mem_cons.1 h
      rw [List.cons_append, next_blank hblank, ih hblanks, List.length_cons, Nat.add_assoc,
        Nat.add_comm 1]

theorem tokens_blanks {blanks : List Char} (h : ∀ c ∈ blanks, isBlank c = true) (cs : List Char)
    (place : Nat) : tokens ⟨blanks ++ cs, place⟩ = tokens ⟨cs, place + blanks.length⟩ := by
  rw [tokens_eq, next_blanks h, ← tokens_eq]

theorem tokens_name {name : String} (h : IsIdentifier name) {rest : List Char}
    (hrest : Breaks rest) (place : Nat) :
    tokens ⟨name.toList ++ rest, place⟩ =
      (tokens ⟨rest, place + name.length⟩).map
        (⟨.name name, place, place + name.length⟩ :: ·) := by
  obtain ⟨first, more, hname, hfirst, hmore⟩ := h
  have hlexeme := lexeme?_name hfirst hmore fun c hc =>
    continuesName_eq_false_of_breaks (hrest c hc)
  have hlength : name.length = more.length + 1 := by
    rw [← String.length_toList, hname, List.length_cons]
  rw [← hname, String.ofList_toList] at hlexeme
  rw [hname, List.cons_append, tokens_cons (isBlank_eq_false_of_lexeme? hlexeme) hlexeme, hlength]

end Lexer

/-- The text is cut into the lexemes of the phrase, whatever is behind it. -/
def Spells (cs : List Char) (phrase : List Lexeme) : Prop :=
  ∀ rest place, Breaks rest → ∃ tokens after, tokens.map Token.lexeme = phrase ∧
    ∀ behind, Lexer.tokens ⟨rest, after⟩ = .ok behind →
      Lexer.tokens ⟨cs ++ rest, place⟩ = .ok (tokens ++ behind)

theorem spells_nil : Spells [] [] :=
  fun _ place _ => ⟨[], place, rfl, fun _ hbehind => hbehind⟩

theorem Spells.append {cs cs' : List Char} {phrase phrase' : List Lexeme} (h : Spells cs phrase)
    (h' : Spells cs' phrase') (hbreaks : Breaks cs') : Spells (cs ++ cs') (phrase ++ phrase') := by
  intro rest place hrest
  obtain ⟨tokens, middle, rfl, hread⟩ := h (cs' ++ rest) place (hbreaks.append hrest)
  obtain ⟨tokens', after, rfl, hread'⟩ := h' rest middle hrest
  refine ⟨tokens ++ tokens', after, List.map_append, fun behind hbehind => ?_⟩
  rw [List.append_assoc, List.append_assoc]
  exact hread _ (hread' behind hbehind)

theorem Spells.blanks {gap cs : List Char} {phrase : List Lexeme} (h : Spells cs phrase)
    (hgap : ∀ c ∈ gap, isBlank c = true) : Spells (gap ++ cs) phrase := by
  intro rest place hrest
  obtain ⟨tokens, after, hphrase, hread⟩ := h rest (place + gap.length) hrest
  refine ⟨tokens, after, hphrase, fun behind hbehind => ?_⟩
  rw [List.append_assoc, Lexer.tokens_blanks hgap, hread behind hbehind]

theorem Spells.blank {c : Char} {cs : List Char} {phrase : List Lexeme} (hblank : isBlank c = true)
    (h : Spells cs phrase) : Spells (c :: cs) phrase := by
  have hgap : ∀ b ∈ [c], isBlank b = true := List.forall_mem_singleton.2 hblank
  exact h.blanks hgap

/-- All of a text may be cut, since nothing goes on at its end. -/
theorem Spells.exists_tokens {text : String} {phrase : List Lexeme}
    (h : Spells text.toList phrase) :
    ∃ tokens, tokenize text = .ok tokens ∧ tokens.map Token.lexeme = phrase ++ [.eof] := by
  obtain ⟨tokens, after, rfl, hread⟩ := h [] 0 breaks_nil
  have htokenize := hread [.eofAt after] (Lexer.tokens_nil after)
  rw [List.append_nil] at htokenize
  refine ⟨tokens ++ [.eofAt after], ?_, by simp [Token.eofAt]⟩
  rw [tokenize, Lexer.ofText, htokenize]

/-- A symbol ends where it stands, so any phrase may follow. -/
theorem Spells.symbol {c : Char} {lexeme : Lexeme} {cs : List Char} {phrase : List Lexeme}
    (hc : symbol? c = some lexeme) (h : Spells cs phrase) :
    Spells (c :: cs) (lexeme :: phrase) := by
  intro rest place hrest
  have hlexeme := lexeme?_symbol hc (cs ++ rest)
  obtain ⟨tokens, after, rfl, hread⟩ := h rest (place + 1) hrest
  refine ⟨⟨lexeme, place, place + 1⟩ :: tokens, after, rfl, fun behind hbehind => ?_⟩
  rw [List.cons_append, Lexer.tokens_cons (isBlank_eq_false_of_lexeme? hlexeme) hlexeme,
    hread behind hbehind]
  rfl

theorem spells_of_lexeme? {first : Char} {more : List Char} {lexeme : Lexeme}
    (h : ∀ rest, Breaks rest →
      lexeme? first (more ++ rest) = some (lexeme, more.length + 1, rest)) :
    Spells (first :: more) [lexeme] := by
  intro rest place hrest
  refine ⟨[⟨lexeme, place, place + (more.length + 1)⟩], place + (more.length + 1), rfl, ?_⟩
  intro behind hbehind
  have hlexeme := h rest hrest
  rw [List.cons_append, Lexer.tokens_cons (isBlank_eq_false_of_lexeme? hlexeme) hlexeme, hbehind]
  rfl

theorem spells_written {cs : List Char} {d : Decimal} (h : Decimal.Written cs d) :
    Spells cs [.number (String.ofList cs)] := by
  obtain ⟨first, more, rfl, -⟩ := h.exists_cons
  exact spells_of_lexeme? fun rest hrest => lexeme?_written h hrest

theorem IsIdentifier.spells {name : String} (h : IsIdentifier name) :
    Spells name.toList [.name name] := by
  intro rest place hrest
  refine ⟨[⟨.name name, place, place + name.length⟩], place + name.length, rfl, ?_⟩
  intro behind hbehind
  rw [Lexer.tokens_name h hrest, hbehind]
  rfl

/-! ### What a text is cut into -/

/-- The lexeme is cut off some text. -/
def Lexeme.IsCut (lexeme : Lexeme) : Prop :=
  ∃ c cs width rest, lexeme? c cs = some (lexeme, width, rest)

def Lexeme.IsTyped : Lexeme → Prop
  | number text =>
      ∃ first more, text = String.ofList (first :: more) ∧ (isDigit first = true ∨ first = '.')
  | name text => IsIdentifier text
  | _ => True

theorem isTyped_of_symbol? {c : Char} {lexeme : Lexeme} (h : symbol? c = some lexeme) :
    lexeme.IsTyped := by
  unfold symbol? at h
  split at h <;> cases h <;> trivial

theorem Lexeme.IsCut.isTyped {lexeme : Lexeme} (h : lexeme.IsCut) : lexeme.IsTyped := by
  obtain ⟨c, cs, width, rest, h⟩ := h
  unfold lexeme? at h
  split at h
  · rename_i hnumber
    cases h
    obtain ⟨more, htext, -⟩ := exists_split_start hnumber
    refine ⟨c, more, congrArg String.ofList htext, ?_⟩
    simp only [startsNumber, Bool.or_eq_true, Bool.and_eq_true, beq_iff_eq] at hnumber
    exact hnumber.imp_right And.left
  · split at h
    · rename_i hname
      cases h
      exact ⟨c, _, String.toList_ofList, hname, List.all_eq_true.1 List.all_takeWhile⟩
    · obtain ⟨found, hfound, h⟩ := Option.map_eq_some_iff.1 h
      cases h
      exact isTyped_of_symbol? hfound

/-- The text of a lexeme is cut into that lexeme again, as long as it does not go on behind it. -/
theorem Lexeme.IsCut.spells {lexeme : Lexeme} (h : lexeme.IsCut) :
    Spells lexeme.text.toList [lexeme] := by
  obtain ⟨c, cs, width, rest, h⟩ := h
  unfold lexeme? at h
  split at h
  · rename_i hnumber
    simp only [Option.some.injEq, Prod.mk.injEq] at h
    obtain ⟨rfl, -⟩ := h
    obtain ⟨more, htext, hagain⟩ := exists_split_start hnumber
    rw [Lexeme.text, String.toList_ofList, htext]
    refine spells_of_lexeme? fun rest hrest => ?_
    have hsplit : NumeralScan.start.split (c :: (more ++ rest)) = (c :: more, rest) := by
      rw [← List.cons_append, ← htext]
      exact NumeralScan.split_split _ hrest
    simp [lexeme?, hagain rest, hsplit]
  · split at h
    · rename_i hname
      cases h
      have hname : IsIdentifier (String.ofList (c :: cs.takeWhile continuesName)) :=
        ⟨c, _, String.toList_ofList, hname, List.all_eq_true.1 List.all_takeWhile⟩
      exact hname.spells
    · obtain ⟨found, hfound, h⟩ := Option.map_eq_some_iff.1 h
      cases h
      rw [toList_text_of_symbol? hfound]
      exact spells_nil.symbol hfound

namespace Lexer

theorem isCut_of_next {lexer after : Lexer} {token : Token}
    (h : lexer.next = (.ok token, after)) : token.isEof = true ∨ token.lexeme.IsCut := by
  unfold next at h
  split at h
  · cases h
    exact .inl rfl
  · split at h
    · rename_i hlexeme
      cases h
      exact .inr ⟨_, _, _, _, hlexeme⟩
    · cases h

theorem isCut_of_tokens (lexer : Lexer) {tokens : List Token} (h : lexer.tokens = .ok tokens) :
    ∀ token ∈ tokens, token.isEof = true ∨ token.lexeme.IsCut := by
  induction lexer using Lexer.tokens.induct generalizing tokens with
  | case1 lexer error after herror =>
      rw [tokens_of_error herror] at h
      cases h
  | case2 lexer token after hnext hend =>
      rw [tokens_of_end hnext hend] at h
      cases h
      simpa using isCut_of_next hnext
  | case3 lexer token after hnext hend hlt ih =>
      rw [tokens_of_next hnext (by simpa using hend)] at h
      obtain ⟨behind, hbehind, rfl⟩ := map_eq_ok_iff.1 h
      exact List.forall_mem_cons.2 ⟨isCut_of_next hnext, ih hbehind⟩

theorem isTyped_of_tokens (lexer : Lexer) {tokens : List Token} (h : lexer.tokens = .ok tokens) :
    ∀ token ∈ tokens, token.lexeme.IsTyped := by
  intro token hmem
  obtain hend | hcut := isCut_of_tokens lexer h token hmem
  · have heof : token.lexeme = .eof := by simpa [Token.isEof] using hend
    rw [heof]
    trivial
  · exact hcut.isTyped

end Lexer

end Secant
