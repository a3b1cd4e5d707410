import Secant.Conversation
import Secant.Proofs.ErrorPlaces
import Secant.Proofs.Parser.Sentences
import Secant.Proofs.Registry

/-!
Commands and expressions. A line that is no command's name is looked at by one command only, and
that one takes a single word behind its name. A name with a word behind it is no expression, so the
command takes no line that is one: whatever can be read as an expression is read as one, unless it
is just the name of a command.
-/

namespace Secant

open Text

/-! ### A name and what stands behind it -/

theorem isBlank_eq_false_of_continuesName {c : Char} (h : continuesName c = true) :
    isBlank c = false := by
  by_contra hblank
  rw [continuesName_eq_false_of_breaks (.inl (by simpa using hblank))] at h
  cases h

namespace Expr

/-- Where neither a parenthesis nor an operator follows a name, the name has to be all there is. -/
theorem ofText_of_name {text name : String} {start stop : Nat} {rest : List Token}
    (h : tokenize text = .ok (⟨.name name, start, stop⟩ :: rest))
    (hparen : (Parser.current rest).lexeme ≠ .leftParen)
    (hop : ∀ sign, (Parser.current rest).lexeme ≠ .op sign) :
    ofText text =
      if (Parser.current rest).isEof then .ok (Parser.named name)
      else .error (.expected "end of expression" (Parser.current rest).text
        (Parser.current rest).start) := by
  have hread : ofText text = ofTokens (⟨.name name, start, stop⟩ :: rest) := by
    rw [ofText, h]
    rfl
  rw [hread, ofTokens, Parser.ofTokens_of_tokenize h, Parser.parse,
    expression_name _ _ _ _ hparen hop]
  dsimp only
  split <;> rfl

theorem not_ofText_of_word {line name : String} {blanks more : List Char} {c : Char} {e : Expr}
    (hname : IsIdentifier name) (hblanks : ∀ b ∈ blanks, isBlank b = true) (hne : blanks ≠ [])
    (hc : continuesName c = true) (hline : line.toList = name.toList ++ (blanks ++ c :: more)) :
    ofText line ≠ .ok e := by
  intro hread
  obtain ⟨tokens, htokenize, -⟩ := exists_tokens_of_ofText hread
  have hbreaks : Breaks (blanks ++ c :: more) := by
    obtain ⟨b, rest, rfl⟩ := List.exists_cons_of_ne_nil hne
    exact breaks_cons (.inl (hblanks b List.mem_cons_self)) _
  have hcut := htokenize
  rw [tokenize, Lexer.ofText, hline, Lexer.tokens_name hname hbreaks, Lexer.tokens_blanks hblanks]
    at hcut
  obtain ⟨behind, hbehind, rfl⟩ := map_eq_ok_iff.1 hcut
  obtain ⟨lexeme, width, rest, behind, hlexeme, rfl⟩ :=
    Lexer.exists_lexeme_of_tokens (isBlank_eq_false_of_continuesName hc) hbehind
  rcases isWord_of_lexeme? hc hlexeme with ⟨text, rfl⟩ | ⟨text, rfl⟩
  · rw [ofText_of_name htokenize (by simp [Parser.current]) (by simp [Parser.current])] at hread
    cases hread
  · rw [ofText_of_name htokenize (by simp [Parser.current]) (by simp [Parser.current])] at hread
    cases hread

end Expr

/-! ### The standard commands -/

namespace Registry

open Command

theorem commands_standard :
    standard.commands =
      [⟨"functions", true, fun argument context => (functions argument, context)⟩,
        answering "constants" fun _ => .say constants,
        answering "help" fun _ => .say helpText,
        answering "vars" fun context => .say (definitions context.defines),
        answering "quit" fun _ => .leave,
        answering "exit" fun _ => .leave] :=
  rfl

theorem names_standard :
    standard.names = ["functions", "constants", "help", "vars", "quit", "exit"] :=
  rfl

theorem standard_eq : standard = ofList standard.commands :=
  rfl

theorem eq_functions_of_takesArguments {command : Command} (h : command ∈ standard.commands)
    (htakes : command.takesArguments = true) :
    command = ⟨"functions", true, fun argument context => (functions argument, context)⟩ := by
  rw [commands_standard, List.mem_cons] at h
  refine h.resolve_right fun hmem => ?_
  have hbare : ∀ other ∈ standard.commands.tail, other.takesArguments = false := by
    simp [commands_standard, answering]
  rw [hbare command hmem] at htakes
  cases htakes

theorem execute_standard_of_forall {P : CommandAnswer × CommandContext → Prop} {line : String}
    {context : CommandContext} (hdecline : P (.decline, context))
    (h : ∀ command ∈ standard.commands, command.Matches line →
      ∀ argument, P (command.run argument context)) :
    P (standard.execute line context) := by
  rw [standard_eq]
  rcases execute_ofList_cases standard.commands line context with
    ⟨command, rest, hchooses, -, hrun⟩ | ⟨-, hrun⟩
  · rw [hrun]
    exact h command hchooses.mem hchooses.isMatch _
  · rwa [hrun]

/-- No command changes what it is given. -/
theorem exists_execute_standard (line : String) (context : CommandContext) :
    ∃ answer, standard.execute line context = (answer, context) := by
  refine execute_standard_of_forall (P := fun answered => ∃ answer, answered = (answer, context))
    ⟨_, rfl⟩ ?_
  simp [commands_standard, answering]

theorem functions_ne_leave (argument : String) : functions argument ≠ .leave := by
  unfold functions
  split_ifs
  · simp
  · split <;> simp
  · simp

theorem execute_standard_eq_leave_iff {line : String} {context : CommandContext} :
    (standard.execute line context).1 = .leave ↔ line = "quit" ∨ line = "exit" := by
  constructor
  · refine execute_standard_of_forall
      (P := fun answered => answered.1 = .leave → line = "quit" ∨ line = "exit") (by simp) ?_
    simp +contextual [commands_standard, answering, functions_ne_leave, Command.Matches]
  · rintro (rfl | rfl) <;> rfl

/-- A line that is not the name of a command is declined, unless "functions" and a blank stand at
its front. -/
theorem execute_standard_of_notMem {line : String} (h : line ∉ standard.names)
    (context : CommandContext) :
    standard.execute line context = (.decline, context) ∨
      ∃ rest, line = "functions" ++ (" " ++ rest) ∧
        standard.execute line context = (functions (Text.trim (" " ++ rest)), context) := by
  rw [standard_eq]
  rcases execute_ofList_cases standard.commands line context with
    ⟨command, behind, hchooses, hline, hrun⟩ | ⟨-, hrun⟩
  · right
    rcases hchooses.isMatch with rfl | ⟨htakes, rest, hrest⟩
    · exact absurd (List.mem_map_of_mem hchooses.mem) h
    · obtain rfl := eq_functions_of_takesArguments hchooses.mem htakes
      rw [String.append_assoc] at hrest
      obtain rfl := (String.append_right_inj _).1 (hline.symm.trans hrest)
      exact ⟨rest, hline, hrun⟩
  · exact .inl hrun

theorem isIdentifier_functions : IsIdentifier "functions" :=
  ⟨'f', "unctions".toList, rfl, by decide, List.all_eq_true.1 (by decide)⟩

/-- The argument would be a word behind the name. -/
theorem functions_eq_decline_of_ofText {rest : String} {e : Expr}
    (htrim : Text.trim ("functions" ++ (" " ++ rest)) = "functions" ++ (" " ++ rest))
    (hread : Expr.ofText ("functions" ++ (" " ++ rest)) = .ok e) :
    functions (Text.trim (" " ++ rest)) = .decline := by
  have hline := congrArg String.toList htrim
  rw [Text.trim, String.toList_ofList, String.toList_append] at hline
  have hne : trimChars (" " ++ rest).toList ≠ [] := trimChars_ne_nil hline (by simp)
  rw [functions, Text.trim, if_neg (mt String.ofList_eq_empty_iff.1 hne)]
  refine if_neg fun hall => ?_
  rw [String.toList_ofList, List.all_eq_true] at hall
  obtain ⟨front, back, hsplit, hfront, -⟩ := exists_trimChars (" " ++ rest).toList
  obtain ⟨c, more, hword⟩ := List.exists_cons_of_ne_nil hne
  rw [hword] at hsplit hall
  have hc : continuesName c = true := hall c List.mem_cons_self
  have hfrontNe : front ≠ [] := by
    rintro rfl
    rw [String.toList_append] at hsplit
    obtain rfl : ' ' = c := (List.cons.inj hsplit).1
    rw [continuesName_eq_false_of_breaks (.inl (by decide))] at hc
    cases hc
  have hwords : ("functions" ++ (" " ++ rest)).toList =
      "functions".toList ++ (front ++ c :: (more ++ back)) := by
    rw [String.toList_append, hsplit]
    simp
  exact Expr.not_ofText_of_word isIdentifier_functions hfront hfrontNe hc hwords hread

/-- Whatever is an expression is declined, but for the names of the commands. -/
theorem execute_standard_of_ofText {line : String} {e : Expr} (htrim : Text.trim line = line)
    (hread : Expr.ofText line = .ok e) (h : line ∉ standard.names) (context : CommandContext) :
    standard.execute line context = (.decline, context) := by
  rcases execute_standard_of_notMem h context with hrun | ⟨rest, rfl, hrun⟩
  · exact hrun
  · rw [hrun, functions_eq_decline_of_ofText htrim hread]

end Registry

namespace Conversation

/-- No command takes an expression away: a line without blanks at its ends that can be read as an
expression and is not just the name of a command is declined, with the context left as it was, and
so it is evaluated. -/
theorem reply_of_ofText {line : String} {e : Expr} (htrim : Text.trim line = line)
    (hread : Expr.ofText line = .ok e) (h : line ∉ Registry.standard.names)
    (context : CommandContext) :
    Registry.standard.execute line context = (.decline, context) ∧
      ∀ session : Session, (ofSession session).reply (.line context) (.line line) =
        ⟨.remembered line ::
            ((session.start line).embed (.number context line) (proceed context line)).events,
          ((session.start line).embed (.number context line) (proceed context line)).next⟩ := by
  have hrun := Registry.execute_standard_of_ofText htrim hread h context
  have hne : line ≠ "" := by
    rintro rfl
    have hnothing : Expr.ofText "" = .error (.unexpectedToken "EOF" 0) := by cbv
    rw [hnothing] at hread
    cases hread
  refine ⟨hrun, fun session => ?_⟩
  simp [reply, react, ofSession, htrim, hne, hrun]

/-- The minus sign makes a difference out of what would be a command with its argument. -/
theorem reply_of_ofText_difference :
    ∃ e, Text.trim "functions -2" = "functions -2" ∧ Expr.ofText "functions -2" = .ok e ∧
      e.text = "(functions - 2)" ∧ "functions -2" ∉ Registry.standard.names ∧
      ∀ context, Registry.standard.execute "functions -2" context = (.decline, context) := by
  have htrim : Text.trim "functions -2" = "functions -2" := by decide +kernel
  have hnotMem : "functions -2" ∉ Registry.standard.names := by
    simp [Registry.names_standard]
  have htext : (Expr.ofText "functions -2").toOption.map Expr.text = some "(functions - 2)" := by
    decide +kernel
  cases hread : Expr.ofText "functions -2" with
  | error error =>
      rw [hread] at htext
      cases htext
  | ok e =>
      rw [hread] at htext
      exact ⟨e, htrim, rfl, Option.some.inj htext, hnotMem,
        fun context => (reply_of_ofText htrim hread hnotMem context).1⟩

end Conversation

end Secant
