import Secant.Proofs.Spelling

/-!
Asking for tokens one by one. A lexer that is asked again and again first yields the tokens of its
text, each further on than the one before, and from then on it gives one and the same answer: the
end of the text, or the first character that begins no token. Up to that place the text is cut as if
it ended there.
-/

namespace Secant

open Text

/-! ### A text that ends earlier -/

namespace NumeralScan

theorem split_of_split_append {scan : NumeralScan} {cs kept dropped : List Char}
    (h : scan.split (cs ++ (kept ++ dropped)) = (cs, kept ++ dropped)) :
    scan.split (cs ++ kept) = (cs, kept) := by
  induction cs generalizing scan with
  | nil =>
      cases kept with
      | nil => rfl
      | cons c kept =>
          cases hstep : scan.step? c with
          | none => simp [split, hstep]
          | some next => simp [split, hstep] at h
  | cons c cs ih =>
      cases hstep : scan.step? c with
      | none => simp [split, hstep] at h
      | some next =>
          simp only [List.cons_append, split, hstep, Prod.mk.injEq, List.cons.injEq, true_and] at h
          have hrest := ih (Prod.ext h.1 h.2)
          simp [split, hstep, hrest]

end NumeralScan

theorem lexeme?_of_lexeme?_append {c : Char} {more kept dropped : List Char} {lexeme : Lexeme}
    {width : Nat}
    (h : lexeme? c (more ++ (kept ++ dropped)) = some (lexeme, width, kept ++ dropped)) :
    lexeme? c (more ++ kept) = some (lexeme, width, kept) := by
  unfold lexeme? at h
  split at h
  · -- A scan is stopped by the next character or by the end, so it stops here as well.
    rename_i hnumber
    simp only [Option.some.injEq, Prod.mk.injEq] at h
    obtain ⟨rfl, rfl, hrest⟩ := h
    obtain ⟨digits, hdigits, hagain⟩ := exists_split_start hnumber
    have hwhole := NumeralScan.split_append .start (c :: (more ++ (kept ++ dropped)))
    rw [hdigits, hrest, List.cons_append, List.cons.injEq, List.append_left_inj] at hwhole
    obtain ⟨-, rfl⟩ := hwhole
    have hsplit : NumeralScan.start.split (c :: digits ++ kept) = (c :: digits, kept) :=
      NumeralScan.split_of_split_append (Prod.ext hdigits hrest)
    rw [List.cons_append] at hsplit
    simp [lexeme?, hagain kept, hsplit, hdigits]
  · split at h
    · rename_i hname
      simp only [Option.some.injEq, Prod.mk.injEq] at h
      obtain ⟨rfl, rfl, hrest⟩ := h
      have hwhole := List.takeWhile_append_dropWhile (p := continuesName)
        (l := more ++ (kept ++ dropped))
      rw [hrest, List.append_left_inj] at hwhole
      have hmore : ∀ c ∈ more, continuesName c = true := by
        rw [← hwhole]
        exact List.all_eq_true.1 List.all_takeWhile
      have hkept : ∀ c ∈ kept.head?, continuesName c = false := by
        intro c hc
        have hhead : ((more ++ (kept ++ dropped)).dropWhile continuesName).head? = some c := by
          rw [hrest, List.head?_append, hc]
          rfl
        exact eq_false_of_head?_dropWhile hhead
      rw [lexeme?_name hname hmore hkept, hwhole]
    · obtain ⟨found, hfound, h⟩ := Option.map_eq_some_iff.1 h
      simp only [Prod.mk.injEq] at h
      obtain ⟨rfl, rfl, hrest⟩ := h
      have hnil : more = [] := by simpa using hrest
      rw [hnil]
      exact lexeme?_symbol hfound kept

theorem exists_more_of_lexeme? {c : Char} {cs rest : List Char} {lexeme : Lexeme} {width : Nat}
    (h : lexeme? c cs = some (lexeme, width, rest)) :
    ∃ more, cs = more ++ rest ∧ width = more.length + 1 := by
  obtain ⟨htext, hwidth, hpos⟩ := text_append_of_lexeme? h
  rw [hwidth] at hpos
  obtain ⟨first, more, hchars⟩ := List.exists_cons_of_length_pos hpos
  rw [hchars, List.cons_append, List.cons.injEq] at htext
  exact ⟨more, htext.2.symm, by rw [hwidth, hchars, List.length_cons]⟩

namespace Lexer

/-- The lexer as it would be if its text ended at `place`. -/
def upTo (place : Nat) (lexer : Lexer) : Lexer :=
  ⟨lexer.rest.take (place - lexer.position), lexer.position⟩

theorem exists_lexeme_of_next {lexer after : Lexer} {token : Token}
    (h : lexer.next = (.ok token, after)) (hend : token.isEof = false) :
    ∃ blanks c more width, lexer.rest = blanks ++ c :: (more ++ after.rest) ∧
      (∀ c ∈ blanks, isBlank c = true) ∧ width = more.length + 1 ∧
      lexeme? c (more ++ after.rest) = some (token.lexeme, width, after.rest) ∧
      after.position = lexer.position + blanks.length + width ∧
      token = ⟨token.lexeme, lexer.position + blanks.length, after.position⟩ := by
  obtain ⟨blanks, behind, hrest, hblanks, -, hnext⟩ := lexer.exists_blanks_next
  have hnext := h.symm.trans (hnext _ rfl)
  cases behind with
  | nil =>
      cases hnext
      cases hend
  | cons c cs =>
      cases hlexeme : lexeme? c cs with
      | none =>
          simp only [hlexeme] at hnext
          cases hnext
      | some found =>
          obtain ⟨lexeme, width, rest⟩ := found
          simp only [hlexeme] at hnext
          cases hnext
          obtain ⟨more, rfl, hwidth⟩ := exists_more_of_lexeme? hlexeme
          exact ⟨blanks, c, more, width, hrest, hblanks, hwidth, hlexeme, rfl, rfl⟩

theorem next_upTo {lexer after : Lexer} {token : Token} (h : lexer.next = (.ok token, after))
    (hend : token.isEof = false) {place : Nat} (hplace : after.position ≤ place) :
    (lexer.upTo place).next = (.ok token, after.upTo place) := by
  obtain ⟨blanks, c, more, width, hrest, hblanks, hwidth, hlexeme, hposition, htoken⟩ :=
    exists_lexeme_of_next h hend
  let left := place - after.position
  have hleft : lexer.rest.take (place - lexer.position) =
      blanks ++ c :: (more ++ after.rest.take left) := by
    have hwhole : lexer.rest = (blanks ++ c :: more) ++ after.rest := by simp [hrest]
    have hlength : place - lexer.position = (blanks ++ c :: more).length + left := by
      rw [List.length_append, List.length_cons]
      omega
    rw [hwhole, hlength, List.take_length_add_append]
    simp
  have hkept : lexeme? c (more ++ after.rest.take left) =
      some (token.lexeme, width, after.rest.take left) := by
    apply lexeme?_of_lexeme?_append
    rw [List.take_append_drop]
    exact hlexeme
  rw [upTo, hleft, next_blanks hblanks, next_cons (isBlank_eq_false_of_lexeme? hkept) hkept,
    ← hposition, ← htoken]
  rfl

end Lexer

/-! ### Where the answers stay the same -/

/-- What there is at the end of all tokens: nothing, or a character that begins no token. -/
inductive Ending
  | eof (place : Nat)
  | stuck (c : Char) (place : Nat)

namespace Ending

def place : Ending → Nat
  | eof place => place
  | stuck _ place => place

def answer : Ending → Except ParseError Token
  | eof place => .ok (.eofAt place)
  | stuck c place => .error (.unexpectedCharacter c place)

def IsOf (cs : List Char) : Ending → Prop
  | eof place => place = cs.length
  | stuck c place => cs[place]? = some c

theorem IsOf.place_le {cs : List Char} {ending : Ending} (h : ending.IsOf cs) :
    ending.place ≤ cs.length := by
  cases ending with
  | eof place => exact Nat.le_of_eq h
  | stuck c place => exact Nat.le_of_lt (List.getElem?_eq_some_iff.1 h).1

end Ending

namespace Lexer

/-- There are only blanks between the lexer and the ending. -/
structure StopsAt (lexer : Lexer) (ending : Ending) : Prop where
  position_le : lexer.position ≤ ending.place
  answer_eq : lexer.next.1 = ending.answer
  position_next : lexer.next.2.position = ending.place

inductive Runs : Lexer → List Token → Ending → Prop
  | stop {lexer : Lexer} {ending : Ending} : lexer.StopsAt ending → Runs lexer [] ending
  | token {lexer after : Lexer} {token : Token} {tokens : List Token} {ending : Ending} :
      lexer.next = (.ok token, after) → token.isEof = false → lexer.position < after.position →
        Runs after tokens ending → Runs lexer (token :: tokens) ending

theorem exists_runs {cs : List Char} (lexer : Lexer) (h : lexer.IsIn cs) :
    ∃ tokens ending, lexer.Runs tokens ending ∧ ending.IsOf cs := by
  induction hlength : lexer.rest.length using Nat.strongRecOn generalizing lexer with
  | ind length ih =>
      obtain ⟨start, hle, -, ⟨rfl, hend⟩ | ⟨token, after, hnext, hne, rfl, hstands, hstop, hin⟩ |
        ⟨c, after, hget, herror, hplace, -⟩⟩ := next_cases h
      · exact ⟨[], .eof cs.length, .stop ⟨hle, by rw [hend]; rfl, by rw [hend]; rfl⟩, rfl⟩
      · have hless := hlength ▸ length_rest_lt hnext hne
        obtain ⟨tokens, ending, hruns, hof⟩ := ih _ hless after hin rfl
        refine ⟨token :: tokens, ending, .token hnext hne ?_ hruns, hof⟩
        rw [hstop]
        exact Nat.lt_of_le_of_lt hle hstands.start_lt_stop
      · exact ⟨[], .stuck c start, .stop ⟨hle, by rw [herror]; rfl, by rw [herror]; exact hplace⟩,
          hget⟩

/-- Behind an answer that is no token the lexer gives the same answer, and stays where it is. The
blanks before it are not there any more. -/
theorem next_of_next {lexer after : Lexer} {answer : Except ParseError Token}
    (h : lexer.next = (answer, after)) (hstop : ∀ token, answer = .ok token → token.isEof = true) :
    after.next = (answer, after) := by
  obtain ⟨blanks, behind, -, -, hbehind, hnext⟩ := lexer.exists_blanks_next
  have hnext := h.symm.trans (hnext _ rfl)
  cases behind with
  | nil =>
      cases hnext
      rfl
  | cons c cs =>
      cases hlexeme : lexeme? c cs with
      | none =>
          -- The character is still there, and now there is no blank before it.
          simp only [hlexeme] at hnext
          cases hnext
          exact next_eq_error (hbehind c rfl) hlexeme _
      | some found =>
          obtain ⟨lexeme, width, rest⟩ := found
          simp only [hlexeme] at hnext
          cases hnext
          exact absurd (by simpa [Token.isEof] using hstop _ rfl) (lexeme?_ne_eof hlexeme)

namespace StopsAt

variable {lexer : Lexer} {ending : Ending}

theorem next (h : lexer.StopsAt ending) : lexer.next.2.StopsAt ending := by
  have hagain : lexer.next.2.next = lexer.next := by
    refine next_of_next rfl fun token htoken => ?_
    have hanswer := h.answer_eq.symm.trans htoken
    cases ending <;> cases hanswer
    rfl
  constructor
  · exact Nat.le_of_eq h.position_next
  · rw [hagain]
    exact h.answer_eq
  · rw [hagain]
    exact h.position_next

theorem requests_eq (h : lexer.StopsAt ending) (count : Nat) :
    lexer.requests count = List.replicate count ending.answer := by
  induction count generalizing lexer with
  | zero => rfl
  | succ count ih => rw [requests, h.answer_eq, ih h.next, List.replicate_succ]

theorem tokens_eq_map (h : lexer.StopsAt ending) :
    lexer.tokens = ending.answer.map fun last => [last] := by
  rw [tokens_eq, h.answer_eq]
  cases ending <;> rfl

theorem tokens_upTo (h : lexer.StopsAt ending) :
    (lexer.upTo ending.place).tokens = .ok [.eofAt ending.place] := by
  obtain ⟨blanks, behind, hrest, hblanks, -, hnext⟩ := lexer.exists_blanks_next
  have hnext := hnext _ rfl
  have hplace : ending.place = lexer.position + blanks.length := by
    rw [← h.position_next]
    cases behind with
    | nil => rw [hnext]
    | cons c cs =>
        cases hlexeme : lexeme? c cs with
        | none => simp [hnext, hlexeme]
        | some found =>
            obtain ⟨lexeme, width, rest⟩ := found
            have hanswer := h.answer_eq
            simp only [hnext, hlexeme] at hanswer
            cases ending with
            | eof place =>
                have heof := congrArg Token.lexeme (Except.ok.inj hanswer)
                exact absurd heof (lexeme?_ne_eof hlexeme)
            | stuck c place => cases hanswer
  have hleft : lexer.rest.take (ending.place - lexer.position) = blanks ++ [] := by
    rw [hrest, hplace, Nat.add_sub_cancel_left, List.take_left, List.append_nil]
  rw [upTo, hleft, tokens_blanks hblanks, tokens_nil, hplace]

end StopsAt

namespace Runs

variable {lexer : Lexer} {tokens : List Token} {ending : Ending}

theorem requests_eq (h : lexer.Runs tokens ending) (count : Nat) :
    lexer.requests count =
      (tokens.map Except.ok ++ List.replicate count ending.answer).take count := by
  induction h generalizing count with
  | stop hstops => simp [hstops.requests_eq]
  | @token _ _ _ tokens ending hnext _ _ _ ih =>
      cases count with
      | zero => rfl
      | succ count =>
          have henough :
              count ≤ (tokens.map Except.ok ++ List.replicate count ending.answer).length := by
            simp
          rw [requests, hnext, ih count, List.map_cons, List.cons_append, List.take_succ_cons,
            List.replicate_succ', ← List.append_assoc, List.take_append_of_le_length henough]

theorem isEof_eq_false (h : lexer.Runs tokens ending) : ∀ token ∈ tokens, token.isEof = false := by
  induction h with
  | stop => simp
  | token _ hend _ _ ih => exact List.forall_mem_cons.2 ⟨hend, ih⟩

theorem position_add_length_le (h : lexer.Runs tokens ending) :
    lexer.position + tokens.length ≤ ending.place := by
  induction h with
  | stop hstops => exact hstops.position_le
  | token _ _ hlt _ ih =>
      rw [List.length_cons]
      omega

theorem tokens_eq_map (h : lexer.Runs tokens ending) :
    lexer.tokens = ending.answer.map fun last => tokens ++ [last] := by
  induction h with
  | stop hstops => exact hstops.tokens_eq_map
  | @token _ _ _ _ ending hnext hend _ _ ih =>
      rw [tokens_of_next hnext hend, ih]
      cases ending <;> rfl

theorem tokens_upTo (h : lexer.Runs tokens ending) :
    (lexer.upTo ending.place).tokens = .ok (tokens ++ [.eofAt ending.place]) := by
  induction h with
  | stop hstops => exact hstops.tokens_upTo
  | token hnext hend _ hruns ih =>
      have hle := Nat.le_of_add_right_le hruns.position_add_length_le
      rw [tokens_of_next (next_upTo hnext hend hle) hend, ih]
      rfl

end Runs

/-! ### The position -/

def asked : Nat → Lexer → Lexer
  | 0, lexer => lexer
  | count + 1, lexer => lexer.next.2.asked count

theorem IsIn.next {lexer : Lexer} {cs : List Char} (h : lexer.IsIn cs) :
    lexer.next.2.IsIn cs ∧ ∀ token, lexer.next.1 = .ok token → token.isEof = false →
      lexer.position < lexer.next.2.position := by
  obtain ⟨start, hle, -, ⟨-, hend⟩ | ⟨token, after, hfound, -, rfl, hstands, hstop, hin⟩ |
    ⟨c, after, -, herror, -, hin⟩⟩ := next_cases h
  · rw [hend]
    refine ⟨⟨cs, by simp, rfl⟩, fun token htoken hne => ?_⟩
    cases htoken
    cases hne
  · rw [hfound, hstop]
    exact ⟨hin, fun _ _ _ => Nat.lt_of_le_of_lt hle hstands.start_lt_stop⟩
  · rw [herror]
    exact ⟨hin, fun token htoken => by cases htoken⟩

/-- Whatever token a request is answered with, the lexer is further on then, if only it is not the
end. -/
theorem IsIn.position_lt {lexer : Lexer} {cs : List Char} (h : lexer.IsIn cs) {count : Nat}
    {token : Token} (hanswer : (lexer.requests (count + 1))[count]? = some (.ok token))
    (hend : token.isEof = false) :
    (lexer.asked count).position < (lexer.asked (count + 1)).position := by
  induction count generalizing lexer with
  | zero => exact h.next.2 token (Option.some.inj hanswer) hend
  | succ count ih =>
      rw [requests, List.getElem?_cons_succ] at hanswer
      exact ih h.next.1 hanswer

/-- A lexer that is asked for tokens any number of times yields some tokens, no more than the text
has characters, and goes on with each of them; and then the answer is always the same. Either it is
the end of the text, which is cut into those tokens. Or it is a character that begins no token,
which is then the error of cutting the text, and what is before it is cut into those tokens. -/
theorem requests_ofText (text : String) :
    ∃ (tokens : List Token) (answer : Except ParseError Token),
      (∀ count, (ofText text).requests count =
        (tokens.map Except.ok ++ List.replicate count answer).take count) ∧
      (∀ token ∈ tokens, token.isEof = false) ∧ tokens.length ≤ text.length ∧
      (∀ count token, ((ofText text).requests (count + 1))[count]? = some (.ok token) →
        token.isEof = false →
          ((ofText text).asked count).position < ((ofText text).asked (count + 1)).position) ∧
      ((answer = .ok (.eofAt text.length) ∧
          tokenize text = .ok (tokens ++ [.eofAt text.length])) ∨
        ∃ c place, answer = .error (.unexpectedCharacter c place) ∧
          tokenize text = .error (.unexpectedCharacter c place) ∧
          text.toList[place]? = some c ∧
          tokenize (String.ofList (text.toList.take place)) =
            .ok (tokens ++ [.eofAt place])) := by
  obtain ⟨tokens, ending, hruns, hof⟩ := exists_runs _ (isIn_ofText text)
  have hlength : tokens.length ≤ text.length := by
    have hplace := hruns.position_add_length_le
    have hle := hof.place_le
    rw [String.length_toList] at hle
    omega
  refine ⟨tokens, ending.answer, hruns.requests_eq, hruns.isEof_eq_false, hlength,
    fun count token => (isIn_ofText text).position_lt, ?_⟩
  cases ending with
  | eof place =>
      obtain rfl : place = text.toList.length := hof
      rw [← String.length_toList]
      exact .inl ⟨rfl, hruns.tokens_eq_map⟩
  | stuck c place =>
      refine .inr ⟨c, place, rfl, hruns.tokens_eq_map, hof, ?_⟩
      rw [tokenize, ofText, String.toList_ofList]
      exact hruns.tokens_upTo

end Lexer

end Secant
