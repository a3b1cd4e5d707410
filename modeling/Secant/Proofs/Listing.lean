import Mathlib.Data.List.Basic
import Mathlib.Data.String.Basic
import Secant.Proofs.Conversation

/-!
Definitions as they are listed, and as they are in force. The list is in order of the names, and the
definitions of one name stand in it as they were given, so the last one listed is the last one
given, which is the one that counts. A name that is entered as an expression has that value and is
not asked for, unless it is the name of a constant: then it has the value of the constant, whatever
it was defined as.
-/

namespace Secant

open Text

/-! ### The list -/

namespace Command

theorem filter_inNameOrder (defines : List Definition) (name : String) :
    (inNameOrder defines).filter (·.1 = name) = defines.filter (·.1 = name) := by
  have hsame : (defines.filter (·.1 = name)).Pairwise fun a b => decide (a.1 ≤ b.1) = true := by
    refine List.pairwise_filter.2 (List.pairwise_of_forall fun a b ha hb => ?_)
    simp only [decide_eq_true_eq] at ha hb ⊢
    rw [ha, hb]
  -- Sorting leaves what is in order already as it is, and definitions of one name are.
  have hsublist : (defines.filter (·.1 = name)).Sublist (inNameOrder defines) :=
    List.sublist_mergeSort name_le_trans name_le_total hsame List.filter_sublist
  have hfiltered := hsublist.filter (·.1 = name)
  rw [List.filter_filter] at hfiltered
  simp only [Bool.and_self] at hfiltered
  have hlength := ((perm_inNameOrder defines).filter (·.1 = name)).length_eq
  exact (hfiltered.eq_of_length hlength.symm).symm

/-- All definitions in order of their names, and those of one name in the order in which they were
given. -/
structure Lists (listed defines : List Definition) : Prop where
  perm : listed.Perm defines
  ascending : listed.Pairwise fun a b => a.1 ≤ b.1
  filter_eq : ∀ name, listed.filter (·.1 = name) = defines.filter (·.1 = name)

theorem lists_inNameOrder (defines : List Definition) : Lists (inNameOrder defines) defines :=
  ⟨perm_inNameOrder defines, pairwise_inNameOrder defines, filter_inNameOrder defines⟩

/-- The words in which definitions are listed. -/
def listing : List Definition → String
  | [] => "No variables defined with -D"
  | listed =>
      "\n".intercalate (listed.map fun define =>
        "  " ++ define.1 ++ " = " ++ Report.value define.2)

theorem render_definition (define : Definition) :
    Styled.render false (.plain "  " ++ .hue .cyan define.1 ++
      .plain s!" = {Report.value define.2}") =
        "  " ++ define.1 ++ " = " ++ Report.value define.2 := by
  have hvalue : s!" = {Report.value define.2}" = " = " ++ Report.value define.2 := rfl
  rw [← String.toList_inj, hvalue]
  simp [Styled.render, Styled.plain, Styled.hue]

theorem render_definitions (defines : List Definition) :
    (definitions defines).render false = listing (inNameOrder defines) := by
  have hperm := perm_inNameOrder defines
  cases hlisted : inNameOrder defines with
  | nil =>
      rw [hlisted] at hperm
      rw [← hperm.nil_eq]
      rfl
  | cons first rest =>
      have hne : defines.isEmpty = false := by
        cases defines with
        | nil => simp [inNameOrder] at hlisted
        | cons _ _ => rfl
      rw [definitions, hne, if_neg Bool.false_ne_true, hlisted, Styled.render_lines, List.map_map,
        listing]
      · congr 2
        funext define
        exact render_definition define
      · simp

end Command

theorem lookup_filter (defines : List Definition) (name : String) :
    (defines.filter (·.1 = name)).lookup name = defines.lookup name := by
  induction defines with
  | nil => rfl
  | cons define defines ih =>
      obtain ⟨key, x⟩ := define
      by_cases h : key = name
      · simp [h]
      · have hbeq : (name == key) = false := beq_eq_false_iff_ne.2 (Ne.symm h)
        rw [List.filter_cons_of_neg (by simpa using h), ih, List.lookup_cons, hbeq]

/-- The definition that is listed last under a name is the one that counts. -/
theorem lookup_ofList_of_listed {defines before after : List Definition} {name : String} {x : Float}
    (hlisted : Command.inNameOrder defines = before ++ (name, x) :: after)
    (hlast : ∀ later ∈ after, later.1 ≠ name) :
    (Environment.ofList defines).lookup name = some x := by
  have hafter : after.filter (·.1 = name) = [] :=
    List.filter_eq_nil_iff.2 fun later hmem => by simpa using hlast later hmem
  have hfilter := Command.filter_inNameOrder defines name
  rw [hlisted, List.filter_append, List.filter_cons_of_pos (by simp), hafter] at hfilter
  rw [Environment.lookup_ofList, ← lookup_filter, List.filter_reverse, ← hfilter,
    List.reverse_append]
  simp

/-! ### A name as an expression -/

theorem Question.ask_of_isDefined {tree : Expr} {env : Environment} {names : List String}
    (h : ∀ name ∈ names, env.isDefined name = true) :
    ask tree env names = .done (verdict tree env) := by
  induction names with
  | nil => exact ask_nil tree env
  | cons name names ih =>
      obtain ⟨hname, hnames⟩ := List.forall_mem_cons.1 h
      rw [ask, if_pos hname, ih hnames]

/-- The text is a name and nothing else. -/
def IsName (text : String) : Prop :=
  tokenize text = .ok [⟨.name text, 0, text.length⟩, .eofAt text.length]

instance (text : String) : Decidable (IsName text) :=
  inferInstanceAs (Decidable (_ = _))

namespace IsName

variable {name : String}

theorem ofText (h : IsName name) : Expr.ofText name = .ok (Parser.named name) := by
  rw [Expr.ofText_of_name h (by simp [Parser.current, Token.eofAt])
    (by simp [Parser.current, Token.eofAt])]
  rfl

theorem isIdentifier (h : IsName name) : IsIdentifier name :=
  Lexer.isTyped_of_tokens _ h _ List.mem_cons_self

theorem trim (h : IsName name) : Text.trim name = name := by
  obtain ⟨first, rest, hname, hfirst, hrest⟩ := h.isIdentifier
  have hcontinues : continuesName first = true := by
    simp only [startsName, Bool.or_eq_true] at hfirst
    simp only [continuesName, isAlphanumeric, Bool.or_eq_true]
    exact .inl (hfirst.imp_left .inl)
  apply trim_eq_self
  rw [hname]
  exact List.forall_mem_cons.2 ⟨isBlank_eq_false_of_continuesName hcontinues,
    fun c hmem => isBlank_eq_false_of_continuesName (hrest c hmem)⟩

theorem ne_empty (h : IsName name) : name ≠ "" := by
  rintro rfl
  obtain ⟨first, rest, hname, -⟩ := h.isIdentifier
  cases hname

end IsName

/-- The value of a name: of a constant its own, whatever the name is bound to. -/
def nameValue (name : String) (bound : Float) : Float :=
  (Constant.value? (Text.lower name)).getD bound

theorem verdict_named {name : String} {env : Environment} {x : Float}
    (h : env.lookup name = some x) :
    verdict (Parser.named name) env = .ok (nameValue name x) := by
  rw [verdict, (Expr.keeps_eval _ _ _).outcome_eq, Parser.named, nameValue]
  cases Constant.value? (Text.lower name) with
  | some c => simp [Expr.value, Except.mapError]
  | none => simp [Expr.value, Except.mapError, h]

theorem Session.evaluate_of_isName {session : Session} {name : String} {x : Float}
    (hname : IsName name) (hbound : (Environment.ofList session.defines).lookup name = some x)
    (script : List Reading) :
    session.evaluate name script =
      ⟨session.notes (Parser.named name), .ok (nameValue name x), script⟩ := by
  have hfree : ∀ other ∈ (Parser.named name).free,
      (Environment.ofList session.defines).isDefined other = true := by
    intro other hfree
    unfold Parser.named at hfree
    split at hfree
    · simp [Expr.free] at hfree
    · obtain rfl := Expr.mem_free_var.1 hfree
      rw [Environment.isDefined, hbound]
      rfl
  rw [evaluate_of_ok hname.ofText, Question.ask_of_isDefined hfree, Dialogue.play_done,
    verdict_named hbound]
  simp [Played.prepend]

namespace Conversation

theorem fromPrompt_vars (session : Session) (script : List Reading) :
    fromPrompt session (.line "vars" :: script) =
      (fromPrompt session script).prepend
        [.prompted linePrompt, .remembered "vars",
          .wrote (Command.definitions session.defines)] := by
  have htrim : Text.trim "vars" = "vars" := by decide +kernel
  have hreact : (ofSession session).react ⟨session.defines⟩ (Text.trim "vars") =
      ⟨[.wrote (Command.definitions session.defines)], .wait (.line ⟨session.defines⟩)⟩ := by
    rw [htrim]
    rfl
  rw [fromPrompt_answered session (by rw [htrim]; decide) hreact, htrim]

theorem fromPrompt_of_isName {session : Session} {name : String} {x : Float}
    (hname : IsName name) (hbound : (Environment.ofList session.defines).lookup name = some x)
    (hnotMem : name ∉ Registry.standard.names) (script : List Reading) :
    fromPrompt session (.line name :: script) =
      (fromPrompt session script).prepend
        ([.prompted linePrompt, .remembered name] ++ session.notes (Parser.named name) ++
          [.wrote (Report.resultLine (nameValue name x))]) := by
  have hrun := Registry.execute_standard_of_ofText hname.trim hname.ofText hnotMem
    ⟨session.defines⟩
  rw [fromPrompt_round session (by rw [hname.trim]; exact hname.ne_empty)
    (by rw [hname.trim]; exact hrun), hname.trim, Session.evaluate_of_isName hname hbound]
  rfl

/-- All definitions are listed, in order of their names and those of one name as they were given,
and the list shows what is in force. A name that is listed has, when it is entered, the value of the
definition that is listed last under it, or its own if it is that of a constant, and is not asked
for; and so it is at the prompt of the conversation that shows the list, unless the name is that of
a command. -/
theorem evaluate_listed (session : Session) :
    Command.Lists (Command.inNameOrder session.defines) session.defines ∧
      (Command.definitions session.defines).render false =
        Command.listing (Command.inNameOrder session.defines) ∧
      (∀ script, fromPrompt session (.line "vars" :: script) =
        (fromPrompt session script).prepend
          [.prompted linePrompt, .remembered "vars",
            .wrote (Command.definitions session.defines)]) ∧
      ∀ {before after : List Definition} {name : String} {x : Float},
        Command.inNameOrder session.defines = before ++ (name, x) :: after →
        (∀ later ∈ after, later.1 ≠ name) → IsName name →
          (∀ script, session.evaluate name script =
            ⟨session.notes (Parser.named name), .ok (nameValue name x), script⟩) ∧
          (name ∉ Registry.standard.names → ∀ script,
            fromPrompt session (.line name :: script) =
              (fromPrompt session script).prepend
                ([.prompted linePrompt, .remembered name] ++
                  session.notes (Parser.named name) ++
                  [.wrote (Report.resultLine (nameValue name x))])) ∧
          (Report.resultLine (nameValue name x)).render false =
            "Result: " ++ Report.value (nameValue name x) := by
  refine ⟨Command.lists_inNameOrder _, Command.render_definitions _, fromPrompt_vars session, ?_⟩
  intro before after name x hlisted hlast hname
  have hbound := lookup_ofList_of_listed hlisted hlast
  exact ⟨Session.evaluate_of_isName hname hbound, fromPrompt_of_isName hname hbound,
    Report.render_resultLine _⟩

def twice : Session :=
  ⟨[("x", 1), ("a", 0), ("x", 2)], false⟩

/-- Both are listed, and the last one counts. -/
theorem evaluate_listed_twice :
    Command.inNameOrder twice.defines = [("a", 0), ("x", 1)] ++ ("x", 2) :: [] ∧ IsName "x" ∧
      "x" ∉ Registry.standard.names ∧
      (Command.definitions twice.defines).render false = "  a = 0.0\n  x = 1.0\n  x = 2.0" ∧
      ∀ script, fromPrompt twice (.line "x" :: script) =
        (fromPrompt twice script).prepend
          [.prompted linePrompt, .remembered "x", .wrote (.hue .brightGreen "Result: 2.0")] := by
  have hlisted : Command.inNameOrder twice.defines = [("a", 0), ("x", 1)] ++ ("x", 2) :: [] := by
    cbv
  have hname : IsName "x" := by decide +kernel
  have hnotMem : "x" ∉ Registry.standard.names := by
    simp [Registry.names_standard]
  have hline : Report.resultLine (nameValue "x" 2) = .hue .brightGreen "Result: 2.0" := by
    decide +kernel
  obtain ⟨-, hshown, -, hvalue⟩ := evaluate_listed twice
  refine ⟨hlisted, hname, hnotMem, ?_, fun script => ?_⟩
  · rw [hshown, hlisted]
    decide +kernel
  · have hentered := (hvalue hlisted (by simp) hname).2.1 hnotMem script
    rw [hline] at hentered
    exact hentered

/-- Every name that is listed has the value that is listed with it. -/
def ShowsBindings (defines : List Definition) : Prop :=
  ∀ name x, (name, x) ∈ Command.inNameOrder defines → IsName name →
    ∀ verbose script, (Session.evaluate ⟨defines, verbose⟩ name script).result = .ok x

/-- It is not so for the name of a constant, nor for a name that is defined twice. -/
theorem not_showsBindings :
    ¬ShowsBindings [("pi", 3)] ∧ ¬ShowsBindings [("x", 1), ("x", 2)] := by
  constructor
  · intro h
    have hlisted := h "pi" 3 (by simp [Command.inNameOrder]) (by decide +kernel) false []
    rw [Session.evaluate_of_isName (x := 3) (by decide +kernel) rfl] at hlisted
    have hbits := congrArg (Except.toOption · |>.map Float.toBits) hlisted
    revert hbits
    decide +kernel
  · intro h
    have hlisted := h "x" 1 (by simp [Command.inNameOrder]) (by decide +kernel) false []
    rw [Session.evaluate_of_isName (x := 2) (by decide +kernel) rfl] at hlisted
    have hbits := congrArg (Except.toOption · |>.map Float.toBits) hlisted
    revert hbits
    decide +kernel

end Conversation

end Secant
