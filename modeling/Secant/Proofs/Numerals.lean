import Secant.Proofs.Parser.Pairing
import Secant.Proofs.Provenance
import Secant.Proofs.Requests
import Secant.Proofs.Spacing

/-!
Number tokens. A number token is the longest run of characters from its start that may be in one,
and not every such run is a number: what stands behind the mark of an exponent may be no exponent.
The lexer takes such a run whole all the same, and the parser refuses it, wherever it would have
taken a number.
-/

namespace Secant

open Text

/-! ### Runs -/

namespace Numeral

def IsMark (c : Char) : Prop :=
  c = 'e' ∨ c = 'E'

instance : DecidablePred IsMark :=
  fun c => inferInstanceAs (Decidable (c = 'e' ∨ c = 'E'))

def IsSign (c : Char) : Prop :=
  c = '+' ∨ c = '-'

def EndsInMark (cs : List Char) : Prop :=
  ∃ front mark, cs = front ++ [mark] ∧ IsMark mark ∧ ∀ c ∈ front, ¬IsMark c

/-- A number token that has begun with these characters may go on with this one: with a digit, the
first point, the first mark, or a sign right behind the mark. -/
def MayFollow (before : List Char) (c : Char) : Prop :=
  isDigit c = true ∨ (c = '.' ∧ '.' ∉ before) ∨ (IsMark c ∧ ∀ d ∈ before, ¬IsMark d) ∨
    (IsSign c ∧ EndsInMark before)

/-- Each of the characters may follow those in front of it. -/
def Run (cs : List Char) : Prop :=
  ∀ before c behind, cs = before ++ c :: behind → MayFollow before c

/-- A digit, or a point and a digit, at the front. -/
def Begins (cs : List Char) : Prop :=
  ∃ digit more, isDigit digit = true ∧ (cs = digit :: more ∨ cs = '.' :: digit :: more)

/-- An optional sign and then digits to the end, at least one of them. -/
def IsExponent (cs : List Char) : Prop :=
  ∃ sign digits, cs = sign ++ digits ∧ (sign = [] ∨ sign = ['+'] ∨ sign = ['-']) ∧ digits ≠ [] ∧
    ∀ c ∈ digits, isDigit c = true

/-- Behind a mark, if there is one, there is an exponent and nothing else. -/
def ExponentFits (cs : List Char) : Prop :=
  ∀ front mark behind, cs = front ++ mark :: behind → IsMark mark → IsExponent behind

/-- The characters are the longest run from this place on, and begin like a number. -/
structure LongestAt (text : List Char) (place : Nat) (cs : List Char) : Prop where
  begins : Begins cs
  stands : cs <+: text.drop place
  run : Run cs
  longest : ∀ other, other <+: text.drop place → Run other → other.length ≤ cs.length

def RunBehind (before cs : List Char) : Prop :=
  ∀ front c behind, cs = front ++ c :: behind → MayFollow (before ++ front) c

theorem runBehind_nil (before : List Char) : RunBehind before [] := by
  intro front c behind h
  simp at h

theorem runBehind_cons {before cs : List Char} {c : Char} :
    RunBehind before (c :: cs) ↔ MayFollow before c ∧ RunBehind (before ++ [c]) cs := by
  constructor
  · intro h
    refine ⟨by simpa using h [] c cs rfl, fun front d behind hsplit => ?_⟩
    simpa using h (c :: front) d behind (by rw [hsplit]; rfl)
  · rintro ⟨hfirst, hmore⟩ front d behind hsplit
    cases front with
    | nil =>
        cases hsplit
        simpa using hfirst
    | cons first front =>
        rw [List.cons_append, List.cons.injEq] at hsplit
        obtain ⟨rfl, hsplit⟩ := hsplit
        simpa using hmore front d behind hsplit

theorem not_isMark_of_isDigit {c : Char} (h : isDigit c = true) : ¬IsMark c := by
  rintro (rfl | rfl) <;> cases h

end Numeral

namespace NumeralScan

open Numeral

/-- The scan has seen these characters. -/
structure Has (scan : NumeralScan) (seen : List Char) : Prop where
  pointSeen : scan.pointSeen = true ↔ '.' ∈ seen
  markSeen : scan.markSeen = true ↔ ∃ c ∈ seen, IsMark c
  signAllowed : scan.signAllowed = true ↔ EndsInMark seen

theorem has_start : start.Has [] where
  pointSeen := by simp [start]
  markSeen := by simp [start]
  signAllowed := by simp [start, EndsInMark]

variable {scan next : NumeralScan} {seen : List Char} {c : Char}

theorem endsInMark_append :
    EndsInMark (seen ++ [c]) ↔ IsMark c ∧ ∀ d ∈ seen, ¬IsMark d := by
  constructor
  · rintro ⟨front, mark, hsplit, hmark, hfront⟩
    obtain ⟨rfl, hlast⟩ := List.append_inj' hsplit rfl
    obtain rfl : c = mark := by simpa using hlast
    exact ⟨hmark, hfront⟩
  · rintro ⟨hmark, hseen⟩
    exact ⟨seen, c, rfl, hmark, hseen⟩

theorem Has.markSeen_eq_false_iff (h : scan.Has seen) :
    scan.markSeen = false ↔ ∀ d ∈ seen, ¬IsMark d := by
  rw [Bool.eq_false_iff, ne_eq, h.markSeen]
  simp

theorem Has.mayFollow_iff (h : scan.Has seen) :
    MayFollow seen c ↔ isDigit c = true ∨ (c = '.' ∧ scan.pointSeen = false) ∨
      (IsMark c ∧ scan.markSeen = false) ∨ (IsSign c ∧ scan.signAllowed = true) := by
  rw [MayFollow, h.markSeen_eq_false_iff, h.signAllowed, Bool.eq_false_iff, ne_eq, h.pointSeen]

theorem Has.exists_step?_iff (h : scan.Has seen) :
    (∃ next, scan.step? c = some next) ↔ MayFollow seen c := by
  rw [h.mayFollow_iff]
  unfold step?
  split
  · simp_all
  split
  · simp_all
  split
  · simp_all [IsMark]
  split
  · simp_all [IsSign]
  · simp_all [IsMark, IsSign]

theorem Has.append (h : scan.Has seen)
    (hpoint : next.pointSeen = true ↔ scan.pointSeen = true ∨ c = '.')
    (hmark : next.markSeen = true ↔ scan.markSeen = true ∨ IsMark c)
    (hsign : next.signAllowed = true ↔ IsMark c ∧ scan.markSeen = false) :
    next.Has (seen ++ [c]) where
  pointSeen := by simp [hpoint, h.pointSeen, eq_comm]
  markSeen := by simp [hmark, h.markSeen, or_and_right, exists_or]
  signAllowed := by rw [hsign, endsInMark_append, h.markSeen_eq_false_iff]

theorem Has.step (h : scan.Has seen) (hstep : scan.step? c = some next) :
    next.Has (seen ++ [c]) := by
  unfold step? at hstep
  split at hstep
  · rename_i hdigit
    have hmark := not_isMark_of_isDigit hdigit
    have hpoint : c ≠ '.' := by
      rintro rfl
      cases hdigit
    cases hstep
    exact h.append (by simp [hpoint]) (by simp [hmark]) (by simp [hmark])
  split at hstep
  · rename_i hpoint
    obtain ⟨rfl, -⟩ := hpoint
    have hmark : ¬IsMark '.' := by decide
    cases hstep
    exact h.append (by simp) (by simp [hmark]) (by simp [hmark])
  split at hstep
  · rename_i hmark
    obtain ⟨hmark, hfirst⟩ := hmark
    have hpoint : c ≠ '.' := by rcases hmark with rfl | rfl <;> decide
    cases hstep
    exact h.append (by simp [hpoint]) (by simp [IsMark, hmark])
      (by simpa [IsMark, hmark] using hfirst)
  split at hstep
  · rename_i hsign
    obtain ⟨hpoint, hmark⟩ : c ≠ '.' ∧ ¬IsMark c := by rcases hsign.1 with rfl | rfl <;> decide
    cases hstep
    exact h.append (by simp [hpoint]) (by simp [hmark]) (by simp [hmark])
  · cases hstep

/-- What is cut off is a run, and no longer run stands there. -/
theorem Has.split (h : scan.Has seen) (cs : List Char) :
    RunBehind seen (scan.split cs).1 ∧
      ∀ other, other <+: cs → RunBehind seen other → other <+: (scan.split cs).1 := by
  induction cs generalizing scan seen with
  | nil => exact ⟨runBehind_nil seen, fun other hother _ => hother⟩
  | cons c cs ih =>
      cases hstep : scan.step? c with
      | some next =>
          obtain ⟨hrun, hlongest⟩ := ih (h.step hstep)
          simp only [NumeralScan.split, hstep]
          refine ⟨runBehind_cons.2 ⟨h.exists_step?_iff.1 ⟨next, hstep⟩, hrun⟩,
            fun other hother hotherRun => ?_⟩
          cases other with
          | nil => exact List.nil_prefix
          | cons d other =>
              obtain ⟨rfl, hstem⟩ := List.cons_prefix_cons.1 hother
              exact List.cons_prefix_cons.2
                ⟨rfl, hlongest other hstem (runBehind_cons.1 hotherRun).2⟩
      | none =>
          have hfollow : ¬MayFollow seen c := by
            rw [← h.exists_step?_iff, hstep]
            simp
          simp only [NumeralScan.split, hstep]
          refine ⟨runBehind_nil seen, fun other hother hotherRun => ?_⟩
          cases other with
          | nil => exact List.nil_prefix
          | cons d other =>
              obtain ⟨rfl, -⟩ := List.cons_prefix_cons.1 hother
              exact absurd (runBehind_cons.1 hotherRun).1 hfollow

end NumeralScan

/-! ### Runs that are numbers -/

namespace Numeral

variable {cs : List Char}

theorem EndsInMark.exists_mem (h : EndsInMark cs) : ∃ c ∈ cs, IsMark c := by
  obtain ⟨front, mark, rfl, hmark, -⟩ := h
  exact ⟨mark, by simp, hmark⟩

theorem isMark_of_mayFollow {before : List Char} {c : Char} (hbefore : ∀ d ∈ before, ¬IsMark d)
    (hdigit : isDigit c = false) (hpoint : c = '.' → '.' ∈ before) (h : MayFollow before c) :
    IsMark c := by
  rcases h with h | ⟨h, hfirst⟩ | ⟨h, -⟩ | ⟨-, hmark⟩
  · rw [hdigit] at h
    cases h
  · exact absurd (hpoint h) hfirst
  · exact h
  · obtain ⟨d, hmem, hd⟩ := hmark.exists_mem
    exact absurd hd (hbefore d hmem)

theorem not_isMark_of_mayFollow {before : List Char} {mark : Char} (hmark : IsMark mark)
    (h : MayFollow before mark) : ∀ c ∈ before, ¬IsMark c := by
  rcases h with h | ⟨rfl, -⟩ | ⟨-, hbefore⟩ | ⟨hsign, -⟩
  · exact absurd hmark (not_isMark_of_isDigit h)
  · exact absurd hmark (by decide)
  · exact hbefore
  · rcases hsign with rfl | rfl <;> exact absurd hmark (by decide)

theorem exists_point {tail : List Char} (htail : ∀ c ∈ tail.head?, isDigit c = false) :
    ∃ point, tail = point ++ (Decimal.splitFraction tail).1 ++ (Decimal.splitFraction tail).2 ∧
      (∀ c ∈ point, c = '.') ∧ (∀ c ∈ (Decimal.splitFraction tail).1, isDigit c = true) ∧
      ∀ c ∈ (Decimal.splitFraction tail).2.head?, isDigit c = false ∧ (c = '.' → '.' ∈ point) := by
  unfold Decimal.splitFraction
  split
  · rename_i cs
    refine ⟨['.'], by simp [List.takeWhile_append_dropWhile], by simp,
      List.all_eq_true.1 List.all_takeWhile, fun c hc => ⟨?_, fun _ => List.mem_singleton_self _⟩⟩
    exact Text.eq_false_of_head?_dropWhile hc
  · rename_i hpoint
    refine ⟨[], rfl, by simp, by simp, fun c hc => ⟨htail c hc, ?_⟩⟩
    rintro rfl
    obtain ⟨cs, rfl⟩ := List.head?_eq_some_iff.1 hc
    exact (hpoint cs rfl).elim

/-- Up to the mark, if there is one, a run that begins like a number is read. -/
theorem exists_mark (hbegins : Begins cs) (hrun : Run cs) :
    ∃ plain rest, cs = plain ++ rest ∧ (∀ c ∈ plain, ¬IsMark c) ∧
      (∀ c ∈ rest.head?, IsMark c) ∧
      (Decimal.unsigned? cs).isSome = (Decimal.exponent? rest).isSome := by
  have hhead : ∀ c ∈ (cs.dropWhile isDigit).head?, isDigit c = false := fun c hc =>
    Text.eq_false_of_head?_dropWhile hc
  have hwhole : ∀ c ∈ cs.takeWhile isDigit, isDigit c = true :=
    List.all_eq_true.1 List.all_takeWhile
  have hne : ¬(cs.takeWhile isDigit = [] ∧
      (Decimal.splitFraction (cs.dropWhile isDigit)).1 = []) := by
    have hpoint : isDigit '.' = false := rfl
    obtain ⟨digit, more, hdigit, rfl | rfl⟩ := hbegins <;>
      simp [hdigit, hpoint, Decimal.splitFraction]
  obtain ⟨point, hsplit, hpoint, hfraction, hrest⟩ := exists_point hhead
  have hcs := List.takeWhile_append_dropWhile (p := isDigit) (l := cs)
  have hread : (Decimal.unsigned? cs).isSome =
      (Decimal.exponent? (Decimal.splitFraction (cs.dropWhile isDigit)).2).isSome := by
    unfold Decimal.unsigned?
    dsimp only
    rw [if_neg hne, Option.isSome_map]
  generalize cs.takeWhile isDigit = whole at *
  generalize cs.dropWhile isDigit = tail at *
  generalize Decimal.splitFraction tail = parts at *
  have hplain : ∀ c ∈ whole ++ point ++ parts.1, ¬IsMark c := by
    simp only [List.mem_append]
    rintro c ((hmem | hmem) | hmem)
    · exact not_isMark_of_isDigit (hwhole c hmem)
    · rw [hpoint c hmem]
      decide
    · exact not_isMark_of_isDigit (hfraction c hmem)
  have hall : cs = whole ++ point ++ parts.1 ++ parts.2 := by
    rw [← hcs, hsplit]
    simp
  refine ⟨whole ++ point ++ parts.1, parts.2, hall, hplain, fun c hc => ?_, hread⟩
  obtain ⟨behind, hbehind⟩ := List.head?_eq_some_iff.1 hc
  -- The digits end at a character of the run, and nothing but a mark may stand there.
  have hfollow := hrun _ c behind (hbehind ▸ hall)
  refine isMark_of_mayFollow hplain (hrest c hc).1 (fun heq => ?_) hfollow
  simp [(hrest c hc).2 heq]

theorem isSome_exponent?_iff {mark : Char} {behind : List Char} (hmark : IsMark mark) :
    (Decimal.exponent? (mark :: behind)).isSome = true ↔ IsExponent behind := by
  have hmark' : mark = 'e' ∨ mark = 'E' := hmark
  have hread : (Decimal.exponent? (mark :: behind)).isSome = true ↔
      (Decimal.splitSign behind).2 ≠ [] ∧ ∀ c ∈ (Decimal.splitSign behind).2, isDigit c = true := by
    simp [Decimal.exponent?, hmark', List.all_eq_true]
  rw [hread]
  constructor
  · unfold Decimal.splitSign
    split <;> rintro ⟨hne, hdigits⟩
    · exact ⟨['-'], _, rfl, .inr (.inr rfl), hne, hdigits⟩
    · exact ⟨['+'], _, rfl, .inr (.inl rfl), hne, hdigits⟩
    · exact ⟨[], _, rfl, .inl rfl, hne, hdigits⟩
  · rintro ⟨sign, digits, rfl, rfl | rfl | rfl, hne, hdigits⟩
    · obtain ⟨first, more, rfl⟩ := List.exists_cons_of_ne_nil hne
      have hfirst := hdigits first List.mem_cons_self
      rw [List.nil_append, Decimal.splitSign_of_startsNumber more (.inl hfirst)]
      exact ⟨hne, hdigits⟩
    · exact ⟨hne, hdigits⟩
    · exact ⟨hne, hdigits⟩

theorem behind_eq_of_isMark {front front' behind behind' : List Char} {mark mark' : Char}
    (hfront : ∀ c ∈ front, ¬IsMark c) (hfront' : ∀ c ∈ front', ¬IsMark c) (hmark : IsMark mark)
    (hmark' : IsMark mark')
    (h : front ++ mark :: behind = front' ++ mark' :: behind') : behind = behind' := by
  have hdrop : ∀ {front behind : List Char} {mark : Char}, (∀ c ∈ front, ¬IsMark c) →
      IsMark mark → (front ++ mark :: behind).dropWhile (fun c => !decide (IsMark c)) =
        mark :: behind := fun hfront hmark => by
    rw [List.dropWhile_append_of_pos (by simpa using hfront), List.dropWhile_cons_of_neg (by simpa)]
  have hcut := congrArg (List.dropWhile fun c => !decide (IsMark c)) h
  rw [hdrop hfront hmark, hdrop hfront' hmark'] at hcut
  exact (List.cons.inj hcut).2

/-- A run that begins like a number is one exactly if its exponent, if any, is one. -/
theorem exists_number?_iff (hbegins : Begins cs) (hrun : Run cs) :
    (∃ value, Decimal.number? (String.ofList cs) = some value) ↔ ExponentFits cs := by
  have hread : (∃ value, Decimal.number? (String.ofList cs) = some value) ↔
      (Decimal.unsigned? cs).isSome = true := by
    obtain ⟨first, more, rfl, hfirst⟩ :
        ∃ first more, cs = first :: more ∧ (isDigit first = true ∨ first = '.') := by
      obtain ⟨digit, more, hdigit, rfl | rfl⟩ := hbegins
      · exact ⟨digit, more, rfl, .inl hdigit⟩
      · exact ⟨'.', digit :: more, rfl, .inr rfl⟩
    rw [Decimal.number?_of_startsNumber more hfirst, ← Option.isSome_iff_exists,
      Option.isSome_map]
  obtain ⟨plain, rest, rfl, hplain, hrest, hsome⟩ := exists_mark hbegins hrun
  rw [hread, hsome]
  cases rest with
  | nil =>
      refine iff_of_true rfl fun front mark behind hsplit hmark => ?_
      rw [List.append_nil] at hsplit
      exact absurd hmark (hplain mark (by simp [hsplit]))
  | cons mark behind =>
      have hmark := hrest mark rfl
      rw [isSome_exponent?_iff hmark]
      refine ⟨fun hexponent front mark' behind' hsplit hmark' => ?_,
        fun hfits => hfits plain mark behind rfl hmark⟩
      have hfront : ∀ c ∈ front, ¬IsMark c :=
        not_isMark_of_mayFollow hmark' (hrun front mark' behind' hsplit)
      rwa [← behind_eq_of_isMark hplain hfront hmark hmark' hsplit]

example : ["2e", "2e+", "1e2.5", "1e.5", "1.e5"].map (fun text => (Decimal.number? text).isSome) =
    [false, false, false, false, true] := by
  decide +kernel

end Numeral

/-! ### The number tokens of a text -/

/-- The lexer of the text answers some request with the token. -/
def Token.IsYielded (token : Token) (text : String) : Prop :=
  ∃ count, .ok token ∈ (Lexer.ofText text).requests count

theorem Token.IsOf.isYielded {token : Token} {text : String} (h : token.IsOf text) :
    token.IsYielded text := by
  obtain ⟨tokens, htokens, hmem⟩ := h
  obtain ⟨front, ending, hruns, -⟩ := Lexer.exists_runs _ (Lexer.isIn_ofText text)
  obtain ⟨last, hanswer, rfl⟩ := map_eq_ok_iff.1 (hruns.tokens_eq_map.symm.trans htokens)
  have hanswers : (Lexer.ofText text).requests (front.length + 1) =
      (front ++ [last]).map Except.ok := by
    rw [hruns.requests_eq, hanswer, ← List.length_map Except.ok, List.take_length_add_append]
    simp
  exact ⟨front.length + 1, hanswers ▸ List.mem_map_of_mem hmem⟩

namespace Lexer

variable {cs : List Char} {lexer : Lexer} {token : Token}

theorem IsIn.exists_next (h : lexer.IsIn cs) {count : Nat}
    (hmem : .ok token ∈ lexer.requests count) :
    ∃ found after, IsIn found cs ∧ found.next = (.ok token, after) := by
  induction count generalizing lexer with
  | zero => cases hmem
  | succ count ih =>
      rw [requests, List.mem_cons] at hmem
      obtain hfirst | hmem := hmem
      · exact ⟨lexer, lexer.next.2, h, Prod.ext hfirst.symm rfl⟩
      · exact ih h.next.1 hmem

/-- A token that is not the end stands in the text, and is the lexeme at its start. -/
theorem IsIn.standsIn_and_lexeme? (h : lexer.IsIn cs) {after : Lexer}
    (hnext : lexer.next = (.ok token, after)) (hend : token.isEof = false) :
    token.StandsIn cs ∧ ∃ c more width, cs.drop token.start = c :: more ∧
      lexeme? c more = some (token.lexeme, width, after.rest) := by
  obtain ⟨_, -, -, ⟨-, hlast⟩ | ⟨_, _, hfound, -, -, hstands, -⟩ |
    ⟨c, _, -, herror, -⟩⟩ := next_cases h
  · cases hlast.symm.trans hnext
    cases hend
  · cases hfound.symm.trans hnext
    obtain ⟨blanks, c, more, width, hrest, -, -, hlexeme, -, htoken⟩ :=
      exists_lexeme_of_next hnext hend
    obtain ⟨before, rfl, hposition⟩ := h
    refine ⟨hstands, c, more ++ after.rest, width, ?_, hlexeme⟩
    rw [htoken, hposition, hrest, List.drop_length_add_append, List.drop_left]
  · cases herror.symm.trans hnext

end Lexer

theorem split_of_lexeme? {c : Char} {cs rest : List Char} {shown : String} {width : Nat}
    (h : lexeme? c cs = some (.number shown, width, rest)) :
    startsNumber c cs = true ∧ shown.toList = (NumeralScan.start.split (c :: cs)).1 := by
  unfold lexeme? at h
  split at h
  · rename_i hstarts
    cases h
    exact ⟨hstarts, String.toList_ofList⟩
  · split at h
    · cases h
    · obtain ⟨found, hfound, h⟩ := Option.map_eq_some_iff.1 h
      cases h
      unfold symbol? at hfound
      split at hfound <;> cases hfound

namespace Numeral

theorem begins_of_prefix {cs other : List Char} (hstem : other <+: cs) (h : Begins other) :
    Begins cs := by
  obtain ⟨behind, rfl⟩ := hstem
  obtain ⟨digit, more, hdigit, rfl | rfl⟩ := h
  · exact ⟨digit, more ++ behind, hdigit, .inl rfl⟩
  · exact ⟨digit, more ++ behind, hdigit, .inr rfl⟩

theorem exists_begins_of_startsNumber {c : Char} {cs : List Char} (h : startsNumber c cs = true) :
    ∃ front, front <+: c :: cs ∧ RunBehind [] front ∧ Begins front := by
  simp only [startsNumber, Bool.or_eq_true, Bool.and_eq_true, beq_iff_eq] at h
  rcases h with hdigit | ⟨rfl, hdigit⟩
  · exact ⟨[c], ⟨cs, rfl⟩, runBehind_cons.2 ⟨.inl hdigit, runBehind_nil _⟩, c, [], hdigit, .inl rfl⟩
  · obtain ⟨digit, hhead, hdigit⟩ := (Option.any_eq_true _ _).1 hdigit
    obtain ⟨more, rfl⟩ := List.head?_eq_some_iff.1 hhead
    have hpoint : MayFollow [] '.' := .inr (.inl ⟨rfl, List.not_mem_nil⟩)
    exact ⟨['.', digit], ⟨more, rfl⟩,
      runBehind_cons.2 ⟨hpoint, runBehind_cons.2 ⟨.inl hdigit, runBehind_nil _⟩⟩,
      digit, [], hdigit, .inr rfl⟩

theorem longestAt_of_lexeme? {text rest : List Char} {place : Nat} {c : Char} {cs : List Char}
    {shown : String} {width : Nat} (hdrop : text.drop place = c :: cs)
    (h : lexeme? c cs = some (.number shown, width, rest)) :
    LongestAt text place shown.toList := by
  obtain ⟨hstarts, hshown⟩ := split_of_lexeme? h
  obtain ⟨hrun, hlongest⟩ := NumeralScan.has_start.split (c :: cs)
  obtain ⟨front, hfront, hfrontRun, hbegins⟩ := exists_begins_of_startsNumber hstarts
  rw [← hshown] at hrun hlongest
  exact {
    begins := begins_of_prefix (hlongest front hfront hfrontRun) hbegins
    stands := by
      rw [hdrop, hshown]
      exact ⟨_, NumeralScan.split_append .start (c :: cs)⟩
    run := hrun
    longest := fun other hother hotherRun =>
      (hlongest other (hdrop ▸ hother) hotherRun).length_le }

theorem Begins.isTyped {text : String} (h : Begins text.toList) : (Lexeme.number text).IsTyped := by
  obtain ⟨digit, more, hdigit, hsplit | hsplit⟩ := h
  · exact ⟨digit, more, by rw [← hsplit, String.ofList_toList], .inl hdigit⟩
  · exact ⟨'.', digit :: more, by rw [← hsplit, String.ofList_toList], .inr rfl⟩

end Numeral

/-! ### Number tokens that are no numbers -/

namespace Parser

/-- Behind these tokens the parser takes a number: with some number there it goes on behind it. -/
def Reaches (before : List Token) : Prop :=
  ∃ (good : String) (value : Float) (start stop : Nat) (behind : List Token),
    Decimal.number? good = some value ∧
      (parse ⟨before ++ ⟨.number good, start, stop⟩ :: behind, maxLevels⟩).2.rest.length ≤
        behind.length

/-- Up to some token both sides are the same. From there on it is `token` and what is behind it on
the one side and `token'` and what is behind it on the other. -/
def Forked (token token' : Token) (behind behind' tokens tokens' : List Token) : Prop :=
  ∃ before, tokens = before ++ token :: behind ∧ tokens' = before ++ token' :: behind'

variable {token token' : Token} {behind behind' tokens tokens' : List Token}

theorem Forked.length_lt (h : Forked token token' behind behind' tokens tokens') :
    behind.length < tokens.length := by
  obtain ⟨before, rfl, -⟩ := h
  simp
  omega

/-- Nothing is asked of the trees, and failures are met up to the fork, but for the one that is to
be met there. -/
def forked (token token' : Token) (behind behind' : List Token) : Pairing where
  tokens := Forked token token' behind behind'
  trees _ _ := True
  failures failure failure' :=
    Forked token token' behind behind' failure.parser.rest failure'.parser.rest
  parts failure' := failure'.error = .invalidNumber token'.text token'.start

variable {good bad : String} {start stop start' stop' : Nat}

theorem Forked.meets (hbad : Decimal.number? bad = none)
    (h : Forked ⟨.number good, start, stop⟩ ⟨.number bad, start', stop'⟩ behind behind'
      tokens tokens') :
    (forked ⟨.number good, start, stop⟩ ⟨.number bad, start', stop'⟩ behind behind').Meets
      tokens tokens' := by
  obtain ⟨before, rfl, rfl⟩ := h
  cases before with
  | nil => exact .parting hbad fun _ => rfl
  | cons first before =>
      have hrest : Forked ⟨.number good, start, stop⟩ ⟨.number bad, start', stop'⟩ behind behind'
          _ _ := ⟨before, rfl, rfl⟩
      obtain ⟨lexeme, first, last⟩ := first
      cases lexeme with
      | number text =>
          cases hvalue : Decimal.number? text with
          | some value => exact .number hvalue hvalue trivial hrest
          | none => exact .invalid hvalue hvalue fun _ => hrest
      | name name =>
          cases before with
          | nil => exact .name (by simp [current]) (by simp [current]) trivial hrest
          | cons second before =>
              obtain ⟨lexeme, opened, closed⟩ := second
              by_cases hparen : lexeme = .leftParen
              · subst hparen
                exact .call ⟨rfl, fun _ => trivial, fun _ h _ => h, fun _ h => h⟩ ⟨before, rfl, rfl⟩
              · exact .name hparen hparen trivial hrest
      | op | leftParen | rightParen | comma => exact .symbol trivial hrest
      | eof => exact .eof rfl rfl

theorem lawful_forked (hbad : Decimal.number? bad = none) (good : String)
    (start stop start' stop' : Nat) (behind behind' : List Token) :
    (forked ⟨.number good, start, stop⟩ ⟨.number bad, start', stop'⟩ behind behind').Lawful where
  meets h := h.meets hbad
  neg _ := trivial
  binary _ _ _ _ _ _ _ := trivial
  tooDeep h := h
  notExpected _ _ h := h
  unexpected _ h _ := h

/-- Where the parser goes on behind a number it refuses a token there that is none. -/
theorem Reaches.parse_eq_error {before : List Token} (h : Reaches before)
    (hbad : Decimal.number? bad = none) (start stop : Nat) (behind : List Token) :
    (parse ⟨before ++ ⟨.number bad, start, stop⟩ :: behind, maxLevels⟩).1 =
      .error (.invalidNumber bad start) := by
  obtain ⟨good, _, start', stop', behind', -, hread⟩ := h
  have hforked : Forked ⟨.number good, start', stop'⟩ ⟨.number bad, start, stop⟩ behind' behind
      _ _ := ⟨before, rfl, rfl⟩
  have hreads :=
    (lawful_forked hbad good start' stop' start stop behind' behind).wholly maxLevels hforked
  rw [parse_eq] at hread
  rw [parse_fst]
  dsimp only at hread ⊢
  generalize wholly maxLevels (before ++ ⟨.number good, start', stop'⟩ :: behind') = read at *
  generalize wholly maxLevels (before ++ ⟨.number bad, start, stop⟩ :: behind) = read' at *
  -- Up to the fork nothing has been taken that is behind it.
  cases hreads with
  | ok _ hrest => exact absurd hread (Nat.not_le.2 (Forked.length_lt hrest))
  | error hfailures => exact absurd hread (Nat.not_le.2 (Forked.length_lt hfailures))
  | parted hparts => exact congrArg Except.error hparts

end Parser

/-! ### What becomes of number tokens -/

namespace Numeral

/-- A number token is the longest run from its start. It is a number, neither negative nor one that
is no number, unless there is something else than an exponent behind the mark of one; and then the
parser refuses it by its text and its start, if it comes to it. -/
theorem longestAt_of_isYielded {text shown : String} {start stop : Nat}
    (h : Token.IsYielded ⟨.number shown, start, stop⟩ text) :
    Token.StandsIn ⟨.number shown, start, stop⟩ text.toList ∧
      LongestAt text.toList start shown.toList ∧
      ((∃ value, Decimal.number? shown = some value) ↔ ExponentFits shown.toList) ∧
      (∀ value, Decimal.number? shown = some value →
        value.isNaN = false ∧ Binary64.isNegative value = false) ∧
      ∀ before behind, tokenize text = .ok (before ++ ⟨.number shown, start, stop⟩ :: behind) →
        ¬ExponentFits shown.toList → Parser.Reaches before →
          Expr.ofText text = .error (.invalidNumber shown start) := by
  obtain ⟨count, hmem⟩ := h
  obtain ⟨lexer, after, hin, hnext⟩ := (Lexer.isIn_ofText text).exists_next hmem
  obtain ⟨hstands, c, more, width, hdrop, hlexeme⟩ := hin.standsIn_and_lexeme? hnext rfl
  have hlongest : LongestAt text.toList start shown.toList := longestAt_of_lexeme? hdrop hlexeme
  have htyped := hlongest.begins.isTyped
  have hfits := exists_number?_iff hlongest.begins hlongest.run
  rw [String.ofList_toList] at hfits
  refine ⟨hstands, hlongest, hfits, fun value hvalue => ?_,
    fun before behind htokens hnot hreach => ?_⟩
  · exact ⟨Expr.isNaN_of_number? htyped hvalue, Expr.isNegative_of_number? htyped hvalue⟩
  · have hnone : Decimal.number? shown = none := by
      rw [← hfits, ← Option.isSome_iff_exists, Option.not_isSome_iff_eq_none] at hnot
      exact hnot
    rw [Expr.ofText_eq_parse htokens]
    exact hreach.parse_eq_error hnone start stop behind

/-- A sum goes on with a token that is no number. -/
theorem longestAt_of_isYielded_sum :
    ∃ before behind, tokenize "-(x+2e+)" = .ok (before ++ ⟨.number "2e+", 4, 7⟩ :: behind) ∧
      Token.IsYielded ⟨.number "2e+", 4, 7⟩ "-(x+2e+)" ∧ ¬ExponentFits "2e+".toList ∧
      Parser.Reaches before ∧
      LongestAt "-(x+2e+)".toList 4 "2e+".toList ∧
      Expr.ofText "-(x+2e+)" = .error (.invalidNumber "2e+" 4) := by
  have htokens : tokenize "-(x+2e+)" =
      .ok ([⟨.op .sub, 0, 1⟩, ⟨.leftParen, 1, 2⟩, ⟨.name "x", 2, 3⟩, ⟨.op .add, 3, 4⟩] ++
        ⟨.number "2e+", 4, 7⟩ :: [⟨.rightParen, 7, 8⟩, .eofAt 8]) := by cbv
  have hyielded : Token.IsYielded ⟨.number "2e+", 4, 7⟩ "-(x+2e+)" :=
    Token.IsOf.isYielded ⟨_, htokens, by simp⟩
  have hreaches : Parser.Reaches
      [⟨.op .sub, 0, 1⟩, ⟨.leftParen, 1, 2⟩, ⟨.name "x", 2, 3⟩, ⟨.op .add, 3, 4⟩] :=
    ⟨"1", _, 4, 5, [⟨.rightParen, 7, 8⟩, .eofAt 8], rfl, by decide +kernel⟩
  have hnone : Decimal.number? "2e+" = none := by decide +kernel
  obtain ⟨-, hlongest, hfits, -, hread⟩ := longestAt_of_isYielded hyielded
  have hnot : ¬ExponentFits "2e+".toList := by
    rw [← hfits, hnone]
    simp
  exact ⟨_, _, htokens, hyielded, hnot, hreaches, hlongest, hread _ _ htokens hnot hreaches⟩

end Numeral

end Secant
