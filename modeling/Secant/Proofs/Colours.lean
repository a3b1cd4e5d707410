import Secant.Proofs.Commands
import Secant.Proofs.Messages
import Secant.Proofs.Rounds

/-!
Colours and nothing else. Where no text has an escape in it, what is shown with colours is what is
shown without them, but for the codes: with these deleted it is the same text. And as everything
that is shown is made of definitions, lines and texts that were given, the same holds of whole
conversations and of one call after the other.
-/

namespace Secant

open Text (Styled Piece Style Hue)

/-! ### Codes -/

namespace Text

def escape : Char :=
  '\x1b'

def isParameter (c : Char) : Bool :=
  isDigit c || c == ';'

/-- Deletes all codes. A code is an escape and a bracket, then numbers, then the letter `m`. -/
def withoutCodes : List Char → List Char
  | '\x1b' :: '[' :: cs =>
      if (cs.dropWhile isParameter).head? = some 'm' then
        withoutCodes (cs.dropWhile isParameter).tail
      else '\x1b' :: withoutCodes ('[' :: cs)
  | c :: cs => c :: withoutCodes cs
  | [] => []
termination_by cs => cs.length
decreasing_by
  · have hle := (List.dropWhile_sublist (l := cs) isParameter).length_le
    simp only [List.length_tail, List.length_cons]
    omega
  · simp
  · simp

inductive Codes : List Char → Prop
  | nil : Codes []
  | cons {parameters rest : List Char} : parameters.all isParameter = true → Codes rest →
      Codes ('\x1b' :: '[' :: (parameters ++ 'm' :: rest))

@[simp] theorem withoutCodes_nil : withoutCodes [] = [] := by
  rw [withoutCodes]

theorem withoutCodes_cons {c : Char} (h : c ≠ escape) (cs : List Char) :
    withoutCodes (c :: cs) = c :: withoutCodes cs := by
  rw [withoutCodes]
  rintro _ rfl
  exact absurd rfl h

theorem withoutCodes_append {cs : List Char} (h : escape ∉ cs) (rest : List Char) :
    withoutCodes (cs ++ rest) = cs ++ withoutCodes rest := by
  induction cs with
  | nil => rfl
  | cons c cs ih =>
      obtain ⟨hc, hcs⟩ := not_or.1 (mt List.mem_cons.2 h)
      rw [List.cons_append, withoutCodes_cons (Ne.symm hc), ih hcs, List.cons_append]

theorem Codes.withoutCodes_append {codes : List Char} (h : Codes codes) (rest : List Char) :
    withoutCodes (codes ++ rest) = withoutCodes rest := by
  induction h with
  | nil => rfl
  | @cons parameters more hparameters _ ih =>
      have hdrop : (parameters ++ 'm' :: (more ++ rest)).dropWhile isParameter =
          'm' :: (more ++ rest) := by
        rw [List.dropWhile_append_of_pos (List.all_eq_true.1 hparameters)]
        rfl
      rw [List.cons_append, List.cons_append, List.append_assoc, List.cons_append, withoutCodes,
        hdrop, if_pos List.head?_cons]
      exact ih

theorem Style.codes_opening {style : Style} {opening : String} (h : style.opening? = some opening) :
    Codes opening.toList := by
  have hcode (hue : Hue) : hue.code.toList.all isParameter = true := by cases hue <;> decide
  cases style with
  | plain => cases h
  | bold =>
      cases h
      exact @Codes.cons ['1'] [] rfl .nil
  | dimmed =>
      cases h
      exact @Codes.cons ['2'] [] rfl .nil
  | hue hue =>
      obtain rfl : "\x1b[" ++ hue.code ++ "m" = opening := Option.some.inj h
      simpa using Codes.cons (hcode hue) .nil
  | boldHue hue =>
      obtain rfl : "\x1b[1;" ++ hue.code ++ "m" = opening := Option.some.inj h
      have hparameters : ('1' :: ';' :: hue.code.toList).all isParameter = true := hcode hue
      simpa using Codes.cons hparameters .nil
  | heading =>
      cases h
      exact @Codes.cons ['1'] _ rfl (@Codes.cons ['4'] [] rfl .nil)

theorem codes_reset : Codes reset.toList :=
  @Codes.cons ['0'] [] rfl .nil

theorem reopen_eq_self (opening : List Char) {cs : List Char} (h : escape ∉ cs) :
    reopen opening cs = cs := by
  induction cs with
  | nil => rfl
  | cons c cs ih =>
      obtain ⟨hc, hcs⟩ := not_or.1 (mt List.mem_cons.2 h)
      rw [reopen, ih hcs]
      rintro _ rfl
      exact absurd rfl hc

theorem Piece.withoutCodes_render {piece : Piece} (h : Lacks escape piece.text)
    (rest : List Char) :
    withoutCodes ((piece.render true).toList ++ rest) = piece.text.toList ++ withoutCodes rest := by
  unfold render
  cases hopening : piece.style.opening? with
  | none => exact withoutCodes_append h rest
  | some opening =>
      simp only [if_true, String.toList_append, String.toList_ofList, reopen_eq_self _ h,
        List.append_assoc]
      rw [(Style.codes_opening hopening).withoutCodes_append, withoutCodes_append h,
        codes_reset.withoutCodes_append]

namespace Styled

/-- No piece has an escape in its text. -/
def Clean (text : Styled) : Prop :=
  ∀ piece ∈ text, Lacks escape piece.text

instance : DecidablePred Clean :=
  fun text => inferInstanceAs (Decidable (∀ piece ∈ text, Lacks escape piece.text))

@[simp] theorem clean_nil : Clean [] := by
  simp [Clean]

@[simp] theorem clean_append {text other : Styled} :
    Clean (text ++ other) ↔ Clean text ∧ Clean other := by
  simp [Clean, or_imp, forall_and]

@[simp] theorem clean_cons {piece : Piece} {text : Styled} :
    Clean (piece :: text) ↔ Lacks escape piece.text ∧ Clean text := by
  simp [Clean]

theorem withoutCodes_render {text : Styled} (h : text.Clean) (rest : List Char) :
    withoutCodes ((text.render true).toList ++ rest) =
      (text.render false).toList ++ withoutCodes rest := by
  induction text with
  | nil => simp [render]
  | cons piece text ih =>
      obtain ⟨hpiece, htext⟩ := List.forall_mem_cons.1 h
      have hcons (color : Bool) :
          render color (piece :: text) = piece.render color ++ render color text := by
        simp [render]
      rw [hcons, hcons, String.toList_append, String.toList_append, List.append_assoc,
        Piece.withoutCodes_render hpiece, ih htext, Piece.render_false, List.append_assoc]

end Styled

def uncoloured (text : String) : String :=
  String.ofList (withoutCodes text.toList)

example : uncoloured "\x1b[1;91mError:\x1b[0m \x1b[m 3;4m" = "Error:  3;4m" := by
  cbv

theorem Styled.uncoloured_render {text : Styled} (h : text.Clean) :
    uncoloured (text.render true) = text.render false := by
  have hrender := withoutCodes_render h []
  rw [List.append_nil, withoutCodes_nil, List.append_nil] at hrender
  rw [uncoloured, hrender, String.ofList_toList]

end Text

open Text

theorem uncoloured_writtenLines {texts : List Styled} (h : ∀ text ∈ texts, text.Clean) :
    uncoloured (writtenLines true texts) = writtenLines false texts := by
  suffices hlines : withoutCodes (writtenLines true texts).toList =
      (writtenLines false texts).toList by
    rw [uncoloured, hlines, String.ofList_toList]
  induction texts with
  | nil => simp [writtenLines]
  | cons text texts ih =>
      obtain ⟨htext, htexts⟩ := List.forall_mem_cons.1 h
      have hcons (color : Bool) : writtenLines color (text :: texts) =
          text.render color ++ ("\n" ++ writtenLines color texts) := by
        simp [writtenLines, String.append_assoc]
      have hend : escape ∉ "\n".toList := by decide
      rw [hcons, hcons, String.toList_append, String.toList_append, String.toList_append,
        String.toList_append, Styled.withoutCodes_render htext, withoutCodes_append hend,
        ih htexts]

/-! ### What is seen of a dialogue -/

/-- What is seen of a dialogue that is played, and what comes of it. -/
structure Seen (α : Type) where
  prompts : List String
  output : String
  notes : String
  history : List String
  result : α
  rest : List Reading

def Seen.uncoloured {α : Type} (seen : Seen α) : Seen α :=
  { seen with
    prompts := seen.prompts.map Text.uncoloured
    output := Text.uncoloured seen.output
    notes := Text.uncoloured seen.notes }

def Played.seen {α : Type} (played : Played α) (color : Bool) : Seen α :=
  ⟨played.prompts color, played.output color, played.notes color, played.history, played.result,
    played.rest⟩

def Event.Clean : Event → Prop
  | prompted text | wrote text | noted text => text.Clean
  | remembered _ => True

instance : DecidablePred Event.Clean
  | .prompted text | .wrote text | .noted text => inferInstanceAs (Decidable text.Clean)
  | .remembered _ => inferInstanceAs (Decidable True)

theorem Played.uncoloured_seen {α : Type} {played : Played α}
    (h : ∀ event ∈ played.events, event.Clean) :
    (played.seen true).uncoloured = played.seen false := by
  have hclean {f : Event → Option Styled} (hf : ∀ event text, f event = some text → event.Clean →
      text.Clean) : ∀ text ∈ played.events.filterMap f, text.Clean := by
    intro text hmem
    obtain ⟨event, hevent, hshown⟩ := List.mem_filterMap.1 hmem
    exact hf event text hshown (h event hevent)
  have hprompts := hclean (f := Event.prompt?) fun event text hshown hevent => by
    cases event <;> cases hshown
    exact hevent
  have hwritten := hclean (f := Event.written?) fun event text hshown hevent => by
    cases event <;> cases hshown
    exact hevent
  have hnoted := hclean (f := Event.noted?) fun event text hshown hevent => by
    cases event <;> cases hshown
    exact hevent
  simp only [seen, Seen.uncoloured, Seen.mk.injEq, and_true]
  refine ⟨?_, uncoloured_writtenLines hwritten, uncoloured_writtenLines hnoted⟩
  rw [prompts, prompts, List.map_map]
  exact List.map_congr_left fun text hmem => Styled.uncoloured_render (hprompts text hmem)

/-! ### Rounds -/

theorem isControl_escape : IsControl escape := by
  decide

/-- A text that is known is not taken apart for this. -/
theorem lacks_ofList {c : Char} {cs : List Char} (h : c ∉ cs) : Lacks c (String.ofList cs) := by
  simpa [Lacks] using h

theorem lacks_trim {c : Char} {text : String} (h : Lacks c text) : Lacks c (trim text) := by
  obtain ⟨front, back, hsplit, -, -⟩ := exists_trimChars text.toList
  rw [Lacks, trim, String.toList_ofList]
  generalize trimChars text.toList = inner at hsplit ⊢
  rw [Lacks, hsplit] at h
  simp_all

theorem lacks_value (x : Float) : Lacks escape (Report.value x) := by
  have hprinted : Printed (resultNumber.chars x) := Decimal.Layout.printed_chars (by decide) x
  rw [Report.value, Decimal.Layout.text, Lacks, String.toList_ofList]
  exact fun hmem => hprinted _ hmem isControl_escape

theorem lacks_intercalate {c : Char} {separator : String} (hseparator : Lacks c separator)
    {texts : List String} (htexts : ∀ text ∈ texts, Lacks c text) :
    Lacks c (separator.intercalate texts) := by
  induction texts with
  | nil => simp [Lacks]
  | cons first rest ih =>
      obtain ⟨hfirst, hrest⟩ := List.forall_mem_cons.1 htexts
      cases rest with
      | nil => simpa using hfirst
      | cons second rest =>
          rw [String.intercalate_cons_cons]
          simp [hfirst, hseparator, ih hrest]

/-- There is no escape in what is told of a fault, if there is one. -/
def Told {α : Type} : Except Fault α → Prop
  | .ok _ => True
  | .error fault => Lacks escape fault.headline

def Reading.Clean : Reading → Prop
  | line text => Lacks escape text
  | failed _ => True

namespace Report

theorem clean_resultLine (x : Float) : (resultLine x).Clean := by
  simp +decide [resultLine, Styled.hue, lacks_value]

theorem clean_errorLine {message : String} (h : Lacks escape message) :
    (errorLine message).Clean := by
  simp +decide [errorLine, errorMark, Styled.hue, Styled.boldHue, Styled.plain, h]

theorem clean_caretLines {text : String} (h : Lacks escape text) (position : Nat) :
    (caretLines text position).Clean := by
  have hgap : Lacks escape (String.ofList (List.replicate (min position text.length) ' ')) := by
    have hne : escape ≠ ' ' := by decide
    simp [Lacks, hne]
  simp +decide [caretLines, Styled.plain, Styled.boldHue, h, hgap]

theorem clean_fault {fault : Fault} (hfault : Lacks escape fault.headline) {text : String}
    (htext : Lacks escape text) : (Report.fault fault (some text)).Clean := by
  unfold Report.fault
  split
  · rename_i error expression _ hsome
    cases hsome
    simp +decide [clean_errorLine hfault, clean_caretLines htext, Styled.plain]
  · exact clean_errorLine hfault

theorem clean_diagnostics {e : Expr} (h : e.Has (Expr.namesLack escape)) :
    (diagnostics e).Clean := by
  have htext : Lacks escape e.text := by
    rw [Lacks, Expr.text, String.toList_ofList]
    exact Expr.lacks_chars isControl_escape h
  have hnames : Lacks escape (", ".intercalate e.free) :=
    lacks_intercalate (by decide) fun name hmem => h.var_of_mem_free hmem
  unfold diagnostics
  dsimp only
  split <;> simp +decide [Styled.dimmed, htext, hnames]

end Report

namespace Question

def Clean (question : Question) : Prop :=
  question.tree.Has (Expr.namesLack escape) ∧
    ∀ name ∈ question.name :: question.later, Lacks escape name

theorem has_ask {tree : Expr} (htree : tree.Has (Expr.namesLack escape)) (env : Environment)
    {names : List String} (hnames : ∀ name ∈ names, Lacks escape name) :
    (ask tree env names).Has Clean Told := by
  induction names with
  | nil =>
      have hvalue := (Expr.keeps_eval .default tree env).outcome_eq
      unfold Environment.Evaluation.outcome at hvalue
      unfold ask
      split
      · trivial
      · rename_i error after heval
        rw [heval] at hvalue
        exact Expr.lacks_of_value htree isControl_escape hvalue.symm
  | cons name later ih =>
      rw [ask]
      split
      · exact ih (List.forall_mem_cons.1 hnames).2
      · exact ⟨htree, hnames⟩

theorem clean_prompt {question : Question} (h : question.Clean) : question.prompt.Clean := by
  have hname := h.2 question.name List.mem_cons_self
  simp +decide [prompt, Styled.hue, hname]

theorem preserves_dialogue : dialogue.Preserves Event.Clean Reading.Clean Clean Told where
  prompt question h := clean_prompt h
  reply question reading h _ := by
    cases reading with
    | failed message =>
        have hname := h.2 question.name List.mem_cons_self
        refine ⟨by simp [dialogue], ?_⟩
        change Lacks escape s!"failed to read a value for '{question.name}'"
        simp +decide [hname]
    | line text =>
        change (question.answer text).Has Event.Clean Clean Told
        unfold answer
        split
        · exact ⟨by simp, h⟩
        · exact ⟨by simp +decide [Event.Clean, Styled.hue], h⟩
        · exact ⟨by simp, has_ask h.1 _ (List.forall_mem_cons.1 h.2).2⟩
  close question h := by
    have hname := h.2 question.name List.mem_cons_self
    refine ⟨by simp [dialogue], ?_⟩
    change Lacks escape s!"input ended before a value for '{question.name}' was entered"
    simp +decide [hname]

end Question

namespace Session

theorem clean_report {text : String} (htext : Lacks escape text) {result : Except Fault Float}
    (h : Told result) : ∀ event ∈ (report text result).1, event.Clean := by
  cases result with
  | ok x => simpa [report, Event.Clean] using Report.clean_resultLine x
  | error fault => simpa [report, Event.Clean] using Report.clean_fault h htext

theorem has_start (session : Session) {text : String} (h : Lacks escape text) :
    (session.start text).Has Event.Clean Question.Clean Told := by
  unfold start
  split
  · rename_i error hread
    exact ⟨by simp, Expr.lacks_of_ofText hread isControl_escape h⟩
  · rename_i tree hread
    have htree := Expr.has_namesLack_of_ofText hread isControl_escape h
    refine ⟨?_, Question.has_ask htree _ fun name hmem => htree.var_of_mem_free hmem⟩
    dsimp only
    split
    · simpa [Event.Clean] using Report.clean_diagnostics htree
    · simp

theorem clean_round (session : Session) {text : String} (htext : Lacks escape text)
    {script : List Reading} (hscript : ∀ reading ∈ script, reading.Clean) :
    (∀ event ∈ (session.round text script).events, event.Clean) ∧
      ∀ reading ∈ (session.round text script).rest, reading.Clean := by
  obtain ⟨hevents, hresult, hrest⟩ :=
    Question.preserves_dialogue.play (session.has_start htext) hscript
  exact ⟨List.forall_mem_append.2 ⟨hevents, clean_report htext hresult⟩, hrest⟩

def Waiting.Clean : Waiting → Prop
  | expression => True
  | number text question => Lacks escape text ∧ question.Clean

theorem clean_emptyInput : emptyInput.Clean :=
  Report.clean_errorLine (by decide)

theorem has_startSingle (session : Session) {text : String} (h : Lacks escape text) :
    (session.startSingle text).Has Event.Clean Waiting.Clean fun _ => True := by
  have htrim := lacks_trim h
  unfold startSingle
  dsimp only
  split
  · exact ⟨by simpa using clean_emptyInput, trivial⟩
  · exact (session.has_start htrim).embed (fun question hquestion => ⟨htrim, hquestion⟩)
      fun result hresult => ⟨clean_report htrim hresult, trivial⟩

theorem preserves_singleDialogue (session : Session) :
    session.singleDialogue.Preserves Event.Clean Reading.Clean Waiting.Clean fun _ => True where
  prompt waiting h := by
    cases waiting with
    | expression =>
        change expressionPrompt.Clean
        decide
    | number text question => exact Question.clean_prompt h.2
  reply waiting reading h hreading := by
    cases waiting with
    | expression =>
        cases reading with
        | line text =>
            simp only [singleDialogue]
            exact session.has_startSingle hreading
        | failed message => exact ⟨by simp [singleDialogue], trivial⟩
    | number text question =>
        exact (Question.preserves_dialogue.reply question reading h.2 hreading).embed
          (fun question hquestion => ⟨h.1, hquestion⟩)
          fun result hresult => ⟨clean_report h.1 hresult, trivial⟩
  close waiting h := by
    cases waiting with
    | expression => exact ⟨by simpa [singleDialogue] using clean_emptyInput, trivial⟩
    | number text question =>
        obtain ⟨hevents, hresult⟩ := Question.preserves_dialogue.close question h.2
        exact ⟨List.forall_mem_append.2 ⟨hevents, clean_report h.1 hresult⟩, trivial⟩

theorem clean_singleRound (session : Session) {expression : Option String}
    (hexpression : ∀ text ∈ expression, Lacks escape text) {script : List Reading}
    (hscript : ∀ reading ∈ script, reading.Clean) :
    (∀ event ∈ (session.singleRound expression script).events, event.Clean) ∧
      ∀ reading ∈ (session.singleRound expression script).rest, reading.Clean := by
  have hturn : (session.singleTurn expression).Has Event.Clean Waiting.Clean fun _ => True := by
    cases expression with
    | some text =>
        rw [singleTurn]
        exact session.has_startSingle (hexpression text rfl)
    | none => exact ⟨by simp [singleTurn], trivial⟩
  obtain ⟨hevents, -, hrest⟩ := session.preserves_singleDialogue.play hturn hscript
  exact ⟨hevents, hrest⟩

/-! ### One call after the other -/

/-- What a session is called for: a single round, over a text or over the next line, or a round over
a text as it is. -/
inductive Call
  | once (expression : Option String)
  | round (text : String)

def Call.text? : Call → Option String
  | once expression => expression
  | round text => some text

def call (session : Session) : Call → List Reading → Played (Except Fault Bool)
  | .once expression, script => session.singleRound expression script
  | .round text, script =>
      let played := session.round text script
      ⟨played.events, .ok played.result, played.rest⟩

/-- Calls one after the other, each with the lines that the one before has left. -/
def calls (session : Session) : List Call → List Reading → Played (List (Except Fault Bool))
  | [], script => ⟨[], [], script⟩
  | first :: later, script =>
      let played := session.call first script
      let others := session.calls later played.rest
      ⟨played.events ++ others.events, played.result :: others.result, others.rest⟩

theorem clean_call (session : Session) {call : Call}
    (hcall : ∀ text ∈ call.text?, Lacks escape text) {script : List Reading}
    (hscript : ∀ reading ∈ script, reading.Clean) :
    (∀ event ∈ (session.call call script).events, event.Clean) ∧
      ∀ reading ∈ (session.call call script).rest, reading.Clean := by
  cases call with
  | once expression => exact session.clean_singleRound hcall hscript
  | round text => exact session.clean_round (hcall text rfl) hscript

theorem clean_calls (session : Session) {calls : List Call}
    (hcalls : ∀ call ∈ calls, ∀ text ∈ call.text?, Lacks escape text) {script : List Reading}
    (hscript : ∀ reading ∈ script, reading.Clean) :
    ∀ event ∈ (session.calls calls script).events, event.Clean := by
  induction calls generalizing script with
  | nil => simp [Session.calls]
  | cons first later ih =>
      obtain ⟨hfirst, hlater⟩ := List.forall_mem_cons.1 hcalls
      obtain ⟨hevents, hrest⟩ := session.clean_call hfirst hscript
      exact List.forall_mem_append.2 ⟨hevents, ih hlater hrest⟩

end Session

/-! ### Conversations -/

def CommandAnswer.Clean : CommandAnswer → Prop
  | say text => text.Clean
  | refuse message => Lacks escape message
  | leave | decline => True

namespace Command

theorem clean_lines {texts : List Styled} (h : ∀ text ∈ texts, text.Clean) :
    (Styled.lines texts).Clean := by
  have hbreak : (Styled.plain "\n").Clean := by decide
  unfold Styled.lines
  induction texts with
  | nil => exact Styled.clean_nil
  | cons first rest ih =>
      obtain ⟨hfirst, hrest⟩ := List.forall_mem_cons.1 h
      cases rest with
      | nil => simpa using hfirst
      | cons second rest =>
          rw [List.intercalate_cons_cons]
          simp [hfirst, hbreak, ih hrest]

theorem lacks_padRight {text : String} (h : Lacks escape text) (width : Nat) :
    Lacks escape (padRight width text) := by
  have hne : escape ≠ ' ' := by decide
  have hmem : escape ∉ text.toList := h
  simp [padRight, Lacks, hmem, hne]

theorem lacks_of_mem_all : ∀ function ∈ Builtin.all, Lacks escape function.signature ∧
    Lacks escape function.category ∧ Lacks escape function.description := by
  simp only [Builtin.all, Builtin.derivative, List.forall_mem_cons, List.not_mem_nil,
    IsEmpty.forall_iff, implies_true, and_true]
  and_intros <;> exact lacks_ofList (by decide)

theorem clean_describe {function : Builtin} (h : function ∈ Builtin.all) :
    (describe function).Clean := by
  obtain ⟨hsignature, hcategory, hdescription⟩ := lacks_of_mem_all function h
  simp +decide [describe, Styled.hue, Styled.plain, Styled.dimmed, hsignature, hcategory,
    hdescription]

theorem clean_functionLines (category : String) {functions : List Builtin}
    (h : functions ⊆ Builtin.all) : ∀ text ∈ functionLines category functions, text.Clean := by
  induction functions generalizing category with
  | nil => simp [functionLines]
  | cons function rest ih =>
      obtain ⟨hmem, hrest⟩ := List.cons_subset.1 h
      obtain ⟨hsignature, hcategory, hdescription⟩ := lacks_of_mem_all function hmem
      have hwide := lacks_padRight hsignature 24
      rw [functionLines]
      have hline : (Styled.plain "  " ++ Styled.hue .cyan (padRight 24 function.signature) ++
          Styled.plain s!" {function.description}").Clean := by
        simp +decide [Styled.hue, Styled.plain, hwide, hdescription]
      have hheading : (Styled.hue .green s!"{function.category}:").Clean := by
        simp +decide [Styled.hue, hcategory]
      split
      · exact List.forall_mem_cons.2 ⟨hline, ih _ hrest⟩
      · exact List.forall_mem_cons.2 ⟨hheading, List.forall_mem_cons.2 ⟨hline, ih _ hrest⟩⟩

theorem clean_functions (argument : String) : (functions argument).Clean := by
  unfold functions
  split_ifs with hempty hname
  · exact clean_lines (clean_functionLines "" fun _ hmem => hmem)
  · split
    · rename_i function hfind
      exact clean_describe (Builtin.mem_all_of_find? hfind).1
    · have hargument : Lacks escape argument := fun hmem => by
        have hcontinues := List.all_eq_true.1 hname escape hmem
        revert hcontinues
        decide
      change Lacks escape s!"Unknown function '{argument}'"
      simp +decide [hargument]
  · trivial

theorem clean_helpText : helpText.Clean := by
  refine clean_lines ?_
  simp only [Styled.bold, Styled.hue, Styled.plain, helpText.sample, List.forall_mem_cons,
    List.not_mem_nil, IsEmpty.forall_iff, implies_true, Styled.clean_append, Styled.clean_cons,
    Styled.clean_nil, and_true, true_and]
  and_intros <;> exact lacks_ofList (by decide)

theorem clean_constants : constants.Clean := by
  have hall : ∀ constant ∈ Constant.all,
      Lacks escape constant.name ∧ Lacks escape constant.description := by decide
  refine clean_lines fun text hmem => ?_
  obtain ⟨constant, hconstant, rfl⟩ := List.mem_map.1 hmem
  obtain ⟨hname, hdescription⟩ := hall constant hconstant
  simp +decide [Styled.plain, Styled.hue, lacks_padRight hname, hdescription,
    lacks_padRight (lacks_value constant.value)]

theorem clean_definitions {defines : List Definition}
    (h : ∀ define ∈ defines, Lacks escape define.1) : (definitions defines).Clean := by
  unfold definitions
  split
  · decide
  · refine clean_lines fun text hmem => ?_
    obtain ⟨define, hdefine, rfl⟩ := List.mem_map.1 hmem
    have hname := h define (List.mem_mergeSort.1 hdefine)
    simp +decide [Styled.plain, Styled.hue, hname, lacks_value]

end Command

theorem Registry.clean_execute_standard (line : String) {context : CommandContext}
    (h : ∀ define ∈ context.defines, Lacks escape define.1) :
    (standard.execute line context).1.Clean := by
  refine execute_standard_of_forall (P := fun answered => answered.1.Clean) trivial ?_
  rw [commands_standard]
  intro command hmem _ argument
  simp only [List.mem_cons, List.not_mem_nil, or_false] at hmem
  rcases hmem with rfl | rfl | rfl | rfl | rfl | rfl
  · exact Command.clean_functions argument
  · exact Command.clean_constants
  · exact Command.clean_helpText
  · exact Command.clean_definitions h
  · trivial
  · trivial

namespace Conversation

def Waiting.Clean : Waiting → Prop
  | line context => ∀ define ∈ context.defines, Lacks escape define.1
  | number context text question =>
      (∀ define ∈ context.defines, Lacks escape define.1) ∧ Lacks escape text ∧ question.Clean

theorem has_embed {context : CommandContext} (hcontext : ∀ define ∈ context.defines,
      Lacks escape define.1) {text : String} (htext : Lacks escape text)
    {turn : Turn Question (Except Fault Float)}
    (hturn : turn.Has Event.Clean Question.Clean Told) :
    (turn.embed (.number context text) (proceed context text)).Has Event.Clean Waiting.Clean
      fun _ => True :=
  hturn.embed (fun _ hquestion => ⟨hcontext, htext, hquestion⟩)
    fun _ hresult => ⟨Session.clean_report htext hresult, hcontext⟩

theorem has_react (session : Session) {context : CommandContext}
    (hcontext : ∀ define ∈ context.defines, Lacks escape define.1) {text : String}
    (htext : Lacks escape text) :
    ((ofSession session).react context text).Has Event.Clean Waiting.Clean fun _ => True := by
  obtain ⟨answer, hexecute⟩ := Registry.exists_execute_standard text context
  have hanswer : answer.Clean := by
    simpa [hexecute] using Registry.clean_execute_standard text hcontext
  have hfarewell : farewell.Clean := by decide
  have hreact : (ofSession session).registry.execute text context = (answer, context) := hexecute
  unfold react
  rw [hreact]
  cases answer with
  | say message => exact ⟨List.forall_mem_singleton.2 hanswer, hcontext⟩
  | refuse message =>
      exact ⟨List.forall_mem_singleton.2 (Report.clean_errorLine hanswer), hcontext⟩
  | leave => exact ⟨List.forall_mem_singleton.2 hfarewell, trivial⟩
  | decline => exact has_embed hcontext htext (session.has_start htext)

theorem preserves_dialogue (session : Session) :
    (ofSession session).dialogue.Preserves Event.Clean Reading.Clean Waiting.Clean
      fun _ => True where
  prompt waiting h := by
    cases waiting with
    | line context =>
        change linePrompt.Clean
        decide
    | number context text question => exact Question.clean_prompt h.2.2
  reply waiting reading h hreading := by
    cases waiting with
    | line context =>
        cases reading with
        | failed message => exact ⟨by simp [dialogue, reply], trivial⟩
        | line line =>
            have hreact := has_react session h (lacks_trim hreading)
            simp only [dialogue, reply]
            split
            · exact ⟨by simp, h⟩
            · exact ⟨List.forall_mem_cons.2 ⟨trivial, hreact.1⟩, hreact.2⟩
    | number context text question =>
        simp only [dialogue, reply]
        exact has_embed h.1 h.2.1
          (Question.preserves_dialogue.reply question reading h.2.2 hreading)
  close waiting h := by
    have hending : ∀ event ∈ [.prompted linePrompt, farewell], event.Clean := by decide
    cases waiting with
    | line context => exact ⟨(List.forall_mem_cons.1 hending).2, trivial⟩
    | number context text question =>
        obtain ⟨hevents, hresult⟩ := Question.preserves_dialogue.close question h.2.2
        exact ⟨List.forall_mem_append.2 ⟨List.forall_mem_append.2
          ⟨hevents, Session.clean_report h.2.1 hresult⟩, hending⟩, trivial⟩

theorem clean_run (session : Session) (hdefines : ∀ define ∈ session.defines, Lacks escape define.1)
    {script : List Reading} (hscript : ∀ reading ∈ script, reading.Clean) :
    ∀ event ∈ ((ofSession session).run script).events, event.Clean := by
  have hbanner : ∀ event ∈ banner, event.Clean := by decide
  have hbegin : (ofSession session).begin.Has Event.Clean Waiting.Clean fun _ => True :=
    ⟨hbanner, hdefines⟩
  exact ((preserves_dialogue session).play hbegin hscript).1

end Conversation

/-- Colours change nothing but colours. Where there is no escape in the definitions of a session, in
the lines or in the texts that are given, a conversation, and any calls one after the other, are
seen with colours as without them, once all codes are deleted: the same prompts and the same output,
the same lines remembered and left, and the same results. -/
theorem uncoloured_run_and_calls (session : Session)
    (hdefines : ∀ define ∈ session.defines, Lacks escape define.1) (script : List Reading)
    (hscript : ∀ line, .line line ∈ script → Lacks escape line) :
    (((Conversation.ofSession session).run script).seen true).uncoloured =
        ((Conversation.ofSession session).run script).seen false ∧
      ∀ calls : List Session.Call, (∀ call ∈ calls, ∀ text ∈ call.text?, Lacks escape text) →
        ((session.calls calls script).seen true).uncoloured =
          (session.calls calls script).seen false := by
  have hreadings : ∀ reading ∈ script, reading.Clean := by
    rintro (line | message) hmem
    · exact hscript line hmem
    · trivial
  refine ⟨Played.uncoloured_seen ?_, fun calls hcalls => Played.uncoloured_seen ?_⟩
  · exact Conversation.clean_run session hdefines hreadings
  · exact session.clean_calls hcalls hreadings

def mixedSession : Session :=
  ⟨[("k", 4), ("\u00e9", 0.5)], true⟩

def mixedScript : List Reading :=
  [.line "x / k", .line "abc", .line "0", .line "vars", .line "2 + * 3", .line "y", .failed "\x1b"]

def mixedCalls : List Session.Call :=
  [.once none, .round "k ^ ", .once (some " functions ")]

/-- Variables are asked for, commands are run, errors are pointed out and a reading fails, with
notes on what is read. -/
theorem uncoloured_run_and_calls_mixed :
    (∀ define ∈ mixedSession.defines, Lacks escape define.1) ∧
      (∀ line, .line line ∈ mixedScript → Lacks escape line) ∧
      (∀ call ∈ mixedCalls, ∀ text ∈ call.text?, Lacks escape text) ∧
      (((Conversation.ofSession mixedSession).run mixedScript).seen true).uncoloured =
        ((Conversation.ofSession mixedSession).run mixedScript).seen false ∧
      ((mixedSession.calls mixedCalls mixedScript).seen true).uncoloured =
        (mixedSession.calls mixedCalls mixedScript).seen false := by
  have hdefines : ∀ define ∈ mixedSession.defines, Lacks escape define.1 := by
    decide
  have hscript : ∀ line, .line line ∈ mixedScript → Lacks escape line := by
    simp +decide [mixedScript]
  have hcalls : ∀ call ∈ mixedCalls, ∀ text ∈ call.text?, Lacks escape text := by
    decide
  obtain ⟨hrun, hall⟩ := uncoloured_run_and_calls mixedSession hdefines mixedScript hscript
  exact ⟨hdefines, hscript, hcalls, hrun, hall mixedCalls hcalls⟩

end Secant
