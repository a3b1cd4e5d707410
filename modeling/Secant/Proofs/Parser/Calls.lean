import Secant.Proofs.Parser.Sentences
import Secant.Proofs.Parser.Tracking

/-!
One parser that is asked for an expression any number of times. It goes on where the last call
ended, and with the levels that a call left counted when it failed. From wherever it goes on it
stays among the tokens, and from the first call that ends before a token that no expression begins
with nothing changes any more.
-/

namespace Secant.Counting

open Secant.Parser (maxLevels)

section

variable (tokens : List Token)

/-- How a call is answered, and the cursor after it. -/
def called (cursor : Cursor) : Except Stop Expr × Cursor :=
  match parse tokens cursor with
  | .ok e after => (.ok e, after)
  | .error stop after => (.error stop, after)

def later : Nat → Cursor
  | 0 => ⟨0, 0⟩
  | count + 1 => (called tokens (later count)).2

def answer (count : Nat) : Except Stop Expr :=
  (called tokens (later tokens count)).1

/-- Without counters, the tokens to be read and the levels left. -/
def Cursor.parser (cursor : Cursor) : Parser :=
  ⟨tokens.drop cursor.place, maxLevels - cursor.depth⟩

def whole : List Token :=
  (Parser.ofTokens tokens).rest

end

/-- The call found an expression, or a token where one should begin. -/
def Settles : Except Stop Expr → Prop
  | .ok _ => True
  | .error (.parse (.unexpectedToken _ _)) => True
  | _ => False

/-! ### One call -/

/-- What may come of a call: an expression up to an end, with the levels as before, or an error,
with as many levels or more. It is what comes of it without counters. -/
inductive Called (tokens : List Token) (last : Nat) (cursor : Cursor) :
    Except Stop Expr × Cursor → Prop
  | ok {e : Expr} {place : Nat} {token : Token} :
      cursor.place ≤ place → place ≤ last → tokens[place]? = some token → token.isEof = true →
        (cursor.parser tokens).parse = (.ok e, Cursor.parser tokens ⟨place, cursor.depth⟩) →
          Called tokens last cursor (.ok e, ⟨place, cursor.depth⟩)
  | error {error : ParseError} {after : Cursor} {token : Token} :
      cursor.place ≤ after.place → after.place ≤ last → cursor.depth ≤ after.depth →
        tokens[after.place]? = some token → Blames error token →
          (cursor.parser tokens).parse = (.error error, after.parser tokens) →
            Called tokens last cursor (.error (.parse error), after)

section

variable {tokens other : List Token} {last : Nat} {cursor : Cursor}
  {call : Except Stop Expr × Cursor}

theorem called_cases (hagree : Agree tokens other last) (hplace : cursor.place ≤ last) :
    Called tokens last cursor (called tokens cursor) := by
  have hfollows : Follows tokens last 0 cursor
      (Parser.wholly (maxLevels - cursor.depth) (tokens.drop cursor.place))
      (parse tokens cursor) := (tracks_parse hagree hplace).follows
  have hread : (cursor.parser tokens).parse = _ := Parser.parse_eq _
  have hend {e : Expr} {rest : List Token}
      (h : Parser.wholly (maxLevels - cursor.depth) (tokens.drop cursor.place) = .ok (e, rest)) :
      (Parser.current rest).isEof = true := by
    obtain ⟨read, -, h⟩ := bind_eq_ok_iff.1 h
    split at h
    · rename_i hend
      cases h
      exact hend
    · cases h
  rw [Cursor.parser] at hread
  rw [called]
  generalize parse tokens cursor = result at hfollows ⊢
  generalize Parser.wholly (maxLevels - cursor.depth) (tokens.drop cursor.place) = read
    at hfollows hread hend
  cases hfollows with
  | ok hle hlast _ =>
      obtain ⟨token, htoken, -, hdrop, -⟩ := hagree.exists_token hlast
      have hend := hend rfl
      rw [hdrop] at hend
      exact .ok hle hlast htoken hend hread
  | error hle hlast hdepth hblames =>
      obtain ⟨token, htoken, -⟩ := hagree.exists_token hlast
      exact .error hle hlast hdepth htoken (hblames token htoken) hread

namespace Called

theorem place_le (h : Called tokens last cursor call) :
    cursor.place ≤ call.2.place ∧ call.2.place ≤ last := by
  cases h with
  | ok hle hlast => exact ⟨hle, hlast⟩
  | error hle hlast => exact ⟨hle, hlast⟩

theorem depth_le (h : Called tokens last cursor call) :
    cursor.depth ≤ call.2.depth ∧ ∀ e, call.1 = .ok e → call.2.depth = cursor.depth := by
  cases h with
  | ok => exact ⟨Nat.le_refl _, fun _ _ => rfl⟩
  | error _ _ hdepth => exact ⟨hdepth, by rintro _ ⟨⟩⟩

theorem exists_parse (h : Called tokens last cursor call) :
    ∃ read, (cursor.parser tokens).parse = (read, call.2.parser tokens) ∧
      call.1 = read.mapError Stop.parse := by
  cases h with
  | @ok e _ _ _ _ _ _ hread => exact ⟨.ok e, hread, rfl⟩
  | @error error _ _ _ _ _ _ _ hread => exact ⟨.error error, hread, rfl⟩

theorem ne_crash (h : Called tokens last cursor call) : call.1 ≠ .error .crash := by
  cases h <;> simp

theorem exists_token (h : Called tokens last cursor call) (hsettles : Settles call.1) :
    ∃ token, tokens[call.2.place]? = some token ∧ opens token.lexeme = false ∧
      ((∃ e, call.1 = .ok e) → token.isEof = true) := by
  cases h with
  | @ok _ _ token _ _ htoken hend =>
      have hlexeme : token.lexeme = .eof := by simpa [Token.isEof] using hend
      exact ⟨token, htoken, by rw [hlexeme]; rfl, fun _ => hend⟩
  | @error error _ token _ _ _ htoken hblames =>
      cases error with
      | unexpectedToken text position =>
          exact ⟨token, htoken, hblames text position rfl, by rintro ⟨_, ⟨⟩⟩⟩
      | _ => exact hsettles.elim

end Called

/-! ### All calls -/

theorem later_place_le (hagree : Agree tokens other last) (count : Nat) :
    (later tokens count).place ≤ last := by
  induction count with
  | zero => exact Nat.zero_le last
  | succ count ih => exact (called_cases hagree ih).place_le.2

theorem called_later (hagree : Agree tokens other last) (count : Nat) :
    Called tokens last (later tokens count) (answer tokens count, later tokens (count + 1)) :=
  called_cases hagree (later_place_le hagree count)

theorem map_requests (hagree : Agree tokens other last) (count calls : Nat) :
    (((later tokens calls).parser tokens).requests count).map (Except.mapError Stop.parse) =
      (List.range' calls count).map (answer tokens) := by
  induction count generalizing calls with
  | zero => rfl
  | succ count ih =>
      obtain ⟨read, hparse, hanswer⟩ := (called_later hagree calls).exists_parse
      rw [Parser.requests, hparse, List.range'_succ, List.map_cons, List.map_cons]
      exact List.cons_eq_cons.2 ⟨hanswer.symm, ih (calls + 1)⟩

/-- Tokens behind an end make no difference. -/
theorem later_eq (hagree : Agree tokens other last) (count : Nat) :
    answer other count = answer tokens count ∧ later other count = later tokens count := by
  have hcalled (count : Nat) :
      called other (later tokens count) = called tokens (later tokens count) := by
    have hrun : parse other (later tokens count) = parse tokens (later tokens count) :=
      (tracks_parse hagree (later_place_le hagree count)).run_eq
    rw [called, called, hrun]
  have hlater : later other count = later tokens count := by
    induction count with
    | zero => rfl
    | succ count ih => rw [later, later, ih, hcalled]
  exact ⟨by rw [answer, answer, hlater, hcalled], hlater⟩

/-- Before a token that no expression begins with, the calls change nothing. -/
theorem later_add (count : Nat) {token : Token}
    (htoken : tokens[(later tokens count).place]? = some token)
    (hopens : opens token.lexeme = false) (more : Nat) :
    answer tokens (count + more) = .error (.parse (.unexpectedToken token.text token.start)) ∧
      later tokens (count + more) = later tokens count := by
  have hcalled : called tokens (later tokens count) =
      (.error (.parse (.unexpectedToken token.text token.start)), later tokens count) := by
    rw [called, parse_eq_error htoken hopens]
  have hlater : later tokens (count + more) = later tokens count := by
    induction more with
    | zero => rfl
    | succ more ih => rw [← Nat.add_assoc, later, ih, hcalled]
  exact ⟨by rw [answer, hlater, hcalled], hlater⟩

end

theorem agree_whole (front : List Token) {ending : Token} (hend : ending.isEof = true)
    (behind other : List Token) :
    Agree (whole (front ++ ending :: behind)) (whole (front ++ ending :: other)) front.length := by
  obtain ⟨rest, hrest⟩ := Parser.exists_ofTokens_append front ending behind
  obtain ⟨rest', hrest'⟩ := Parser.exists_ofTokens_append front ending other
  rw [whole, whole, hrest, hrest']
  refine ⟨fun place hplace => ?_, ending, by simp, hend⟩
  rcases Nat.lt_or_eq_of_le hplace with hlt | rfl
  · rw [List.getElem?_append_left hlt, List.getElem?_append_left hlt]
  · simp

theorem exists_agree_whole (tokens : List Token) :
    ∃ last, Agree (whole tokens) (whole tokens) last := by
  obtain ⟨ending, behind, hend, hrest⟩ := Parser.exists_rest_ofTokens tokens
  refine ⟨(tokens.takeWhile fun token => !token.isEof).length, fun _ _ => rfl, ending, ?_, hend⟩
  rw [whole, hrest]
  simp

/-- One parser is asked for an expression any number of times. Every step can be made, so with
counters the answers are those without: the place is always that of a token, and no more levels are
given back than were counted. From call to call the place never goes back; a call that succeeds
leaves the levels counted as they were, and one that fails leaves no fewer. Tokens behind an end
make no difference to anything. Once a call has found an expression or a token where one should
begin, every later call finds the token where that one stopped, the end if it was an expression, and
leaves everything as it is. -/
theorem calls_ofTokens (tokens : List Token) :
    (∀ count, ((Parser.ofTokens tokens).requests count).map (Except.mapError Stop.parse) =
        (List.range count).map (answer (whole tokens))) ∧
      (∀ count, answer (whole tokens) count ≠ .error .crash) ∧
      (∀ count, (later (whole tokens) count).place < (whole tokens).length ∧
        (later (whole tokens) count).place ≤ (later (whole tokens) (count + 1)).place) ∧
      (∀ count, (later (whole tokens) count).depth ≤ (later (whole tokens) (count + 1)).depth ∧
        ∀ e, answer (whole tokens) count = .ok e →
          (later (whole tokens) (count + 1)).depth = (later (whole tokens) count).depth) ∧
      (∀ front ending behind, tokens = front ++ ending :: behind → ending.isEof = true →
        ∀ other count,
          answer (whole (front ++ ending :: other)) count = answer (whole tokens) count ∧
            later (whole (front ++ ending :: other)) count = later (whole tokens) count) ∧
      ∀ count, Settles (answer (whole tokens) count) →
        ∃ token, (whole tokens)[(later (whole tokens) (count + 1)).place]? = some token ∧
          ((∃ e, answer (whole tokens) count = .ok e) → token.isEof = true) ∧
          ∀ more, answer (whole tokens) (count + 1 + more) =
              .error (.parse (.unexpectedToken token.text token.start)) ∧
            later (whole tokens) (count + 1 + more) = later (whole tokens) (count + 1) := by
  obtain ⟨last, hagree⟩ := exists_agree_whole tokens
  have hcalled := called_later hagree
  refine ⟨fun count => ?_, fun count => (hcalled count).ne_crash, fun count => ⟨?_, ?_⟩,
    fun count => (hcalled count).depth_le, ?_, fun count hsettles => ?_⟩
  · have hstart : (later (whole tokens) 0).parser (whole tokens) = Parser.ofTokens tokens :=
      congrArg (Parser.mk _) (Expr.levels_ofTokens tokens).symm
    rw [← hstart, map_requests hagree count 0, List.range_eq_range']
  · exact Nat.lt_of_le_of_lt (later_place_le hagree count) hagree.lt_length
  · exact (hcalled count).place_le.1
  · rintro front ending behind rfl hend other count
    exact later_eq (agree_whole front hend behind other) count
  · obtain ⟨token, htoken, hopens, hend⟩ := (hcalled count).exists_token hsettles
    exact ⟨token, htoken, hend, later_add (count + 1) htoken hopens⟩

end Secant.Counting
