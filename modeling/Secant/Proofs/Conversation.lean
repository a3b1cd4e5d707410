import Secant.Conversation
import Secant.Proofs.Answers
import Secant.Proofs.Commands

/-!
Conversations line by line. Two readers share the lines of a script, the prompt of the conversation
and the prompts for numbers in the round it is at. A line at the prompt of the conversation is taken
together with the lines that its round reads behind it: such an exchange says what happens at them,
and a conversation is one exchange after the other, up to the first one that leaves it. No exchange
has an effect on those behind it but by the lines it leaves to them.
-/

namespace Secant

open Text (Styled)

/-! ### Numbers that are asked for -/

/-- A line that is read for the number of a variable. -/
structure Attempt where
  name : String
  line : String

namespace Attempt

def written (attempt : Attempt) : List Styled :=
  match NumberInput.ofText attempt.line with
  | .invalid => [.hue .yellow "Expected a number. Try again."]
  | _ => []

def events (attempt : Attempt) : List Event :=
  asking attempt.name :: attempt.written.map .wrote

@[simp] theorem remembered_events (attempt : Attempt) :
    attempt.events.filterMap Event.remembered? = [] := by
  simp [events, asking, List.filterMap_cons]

@[simp] theorem written_events (attempt : Attempt) :
    attempt.events.filterMap Event.written? = attempt.written := by
  simp [events, asking, List.filterMap_cons, List.filterMap_map, Function.comp_def]

end Attempt

namespace Question

theorem exists_reply (question : Question) (line : String) :
    ∃ next, dialogue.reply question (.line line) =
      ⟨(Attempt.mk question.name line).written.map .wrote, next⟩ := by
  change ∃ next, question.answer line = _
  rw [answer, Attempt.written]
  cases NumberInput.ofText line <;> exact ⟨_, rfl⟩

/-- Lines are read for one variable after the other, until there is a result. If the lines are at
their end before that, the result is an error. -/
theorem play_lines (next : Next Question (Except Fault Float)) (script : List String) :
    ∃ (attempts : List Attempt) (unanswered : Option String) (result : Except Fault Float)
        (behind : List String),
      script = attempts.map Attempt.line ++ behind ∧
      (unanswered ≠ none → behind = [] ∧ ∃ fault, result = .error fault) ∧
      dialogue.play ⟨[], next⟩ (script.map .line) =
        ⟨attempts.flatMap Attempt.events ++ unanswered.toList.map asking, result,
          behind.map .line⟩ := by
  induction script generalizing next with
  | nil =>
      cases next with
      | done result => exact ⟨[], none, result, [], rfl, by simp, Dialogue.play_done _ _ _⟩
      | wait question =>
          exact ⟨[], some question.name, _, [], rfl, fun _ => ⟨rfl, _, rfl⟩,
            Dialogue.play_wait_nil _ _⟩
  | cons line script ih =>
      cases next with
      | done result => exact ⟨[], none, result, _, rfl, by simp, Dialogue.play_done _ _ _⟩
      | wait question =>
          obtain ⟨next, hreply⟩ := question.exists_reply line
          obtain ⟨attempts, unanswered, result, behind, rfl, hopen, hplay⟩ := ih next
          refine ⟨⟨question.name, line⟩ :: attempts, unanswered, result, behind, rfl, hopen, ?_⟩
          have hasking : Event.prompted (dialogue.prompt question) = asking question.name := rfl
          rw [List.map_cons, Dialogue.play_wait_cons, hreply, Dialogue.play_eq_prepend, hplay,
            hasking]
          simp [Played.prepend, Attempt.events]

end Question

theorem Session.exists_notes (session : Session) (tree : Expr) :
    ∃ notes : List Styled, session.notes tree = notes.map .noted := by
  unfold notes
  split
  · exact ⟨[_], rfl⟩
  · exact ⟨[], rfl⟩

theorem Session.evaluate_lines (session : Session) (text : String) (script : List String) :
    ∃ (notes : List Styled) (attempts : List Attempt) (unanswered : Option String)
        (result : Except Fault Float) (behind : List String),
      script = attempts.map Attempt.line ++ behind ∧
      (unanswered ≠ none → behind = [] ∧ ∃ fault, result = .error fault) ∧
      session.evaluate text (script.map .line) =
        ⟨notes.map .noted ++ attempts.flatMap Attempt.events ++ unanswered.toList.map asking,
          result, behind.map .line⟩ := by
  cases hread : Expr.ofText text with
  | error error => exact ⟨[], [], none, _, script, rfl, by simp, evaluate_of_error hread _⟩
  | ok tree =>
      obtain ⟨attempts, unanswered, result, behind, hscript, hopen, hplay⟩ :=
        Question.play_lines (Question.ask tree (.ofList session.defines) tree.free) script
      obtain ⟨notes, hnotes⟩ := session.exists_notes tree
      refine ⟨notes, attempts, unanswered, result, behind, hscript, hopen, ?_⟩
      rw [evaluate_of_ok hread, hplay, hnotes, List.append_assoc]
      rfl

theorem Session.round_eq (session : Session) (text : String) (script : List Reading) :
    session.round text script =
      ⟨(session.evaluate text script).events ++
          (report text (session.evaluate text script).result).1,
        (report text (session.evaluate text script).result).2,
        (session.evaluate text script).rest⟩ :=
  rfl

namespace Conversation

/-! ### From the prompt on -/

/-- A conversation that asks for its next line. -/
def fromPrompt (session : Session) (script : List Reading) : Played (Except Fault Unit) :=
  (ofSession session).dialogue.play ⟨[], .wait (.line ⟨session.defines⟩)⟩ script

theorem prompt_line (conversation : Conversation) (context : CommandContext) :
    conversation.dialogue.prompt (.line context) = linePrompt := rfl

theorem close_line (conversation : Conversation) (context : CommandContext) :
    conversation.dialogue.close (.line context) = ([farewell], .ok ()) := rfl

theorem run_eq_prepend (session : Session) (script : List Reading) :
    (ofSession session).run script = (fromPrompt session script).prepend banner := by
  rw [run, begin, Dialogue.play_eq_prepend, fromPrompt]
  rfl

theorem fromPrompt_nil (session : Session) :
    fromPrompt session [] = ⟨[.prompted linePrompt, farewell], .ok (), []⟩ := by
  rw [fromPrompt, Dialogue.play_wait_nil, prompt_line, close_line]

theorem fromPrompt_blank (session : Session) {line : String} (h : Text.trim line = "")
    (script : List Reading) :
    fromPrompt session (.line line :: script) =
      (fromPrompt session script).prepend [.prompted linePrompt] := by
  have hreply : (ofSession session).dialogue.reply (.line ⟨session.defines⟩) (.line line) =
      ⟨[], .wait (.line ⟨session.defines⟩)⟩ := by
    simp [dialogue, reply, h]
  rw [fromPrompt, Dialogue.play_wait_cons, hreply, prompt_line, fromPrompt]

theorem play_line (conversation : Conversation) (context : CommandContext) {line : String}
    (h : Text.trim line ≠ "") (script : List Reading) :
    conversation.dialogue.play ⟨[], .wait (.line context)⟩ (.line line :: script) =
      (conversation.dialogue.play (conversation.react context (Text.trim line)) script).prepend
        [.prompted linePrompt, .remembered (Text.trim line)] := by
  have hreply : conversation.dialogue.reply (.line context) (.line line) =
      ⟨[.remembered (Text.trim line)] ++ (conversation.react context (Text.trim line)).events,
        (conversation.react context (Text.trim line)).next⟩ := by
    simp [dialogue, reply, h]
  rw [Dialogue.play_wait_cons, hreply, Dialogue.play_eq_prepend, ← Played.prepend_prepend,
    ← Dialogue.play_eq_prepend, Played.prepend_prepend, prompt_line, List.singleton_append]

theorem fromPrompt_answered (session : Session) {line : String} {answer : Styled}
    (h : Text.trim line ≠ "")
    (hreact : (ofSession session).react ⟨session.defines⟩ (Text.trim line) =
      ⟨[.wrote answer], .wait (.line ⟨session.defines⟩)⟩)
    (script : List Reading) :
    fromPrompt session (.line line :: script) =
      (fromPrompt session script).prepend
        [.prompted linePrompt, .remembered (Text.trim line), .wrote answer] := by
  rw [fromPrompt, play_line (ofSession session) _ h, hreact, Dialogue.play_eq_prepend,
    Played.prepend_prepend, ← fromPrompt]
  rfl

theorem embeds_round (conversation : Conversation) (context : CommandContext) (text : String) :
    Question.dialogue.Embeds conversation.dialogue (.number context text)
      (proceed context text) where
  prompt _ := rfl
  reply _ _ := rfl
  close question := by
    rw [proceed, Dialogue.play_eq_prepend, Dialogue.play_wait_nil]
    simp [Played.prepend, dialogue]

theorem play_round (conversation : Conversation) {context context' : CommandContext}
    {line : String} (h : Text.trim line ≠ "")
    (hdecline : conversation.registry.execute (Text.trim line) context = (.decline, context'))
    (script : List Reading) :
    conversation.dialogue.play ⟨[], .wait (.line context)⟩ (.line line :: script) =
      (conversation.dialogue.play ⟨[], .wait (.line context')⟩
        (conversation.session.round (Text.trim line) script).rest).prepend
          ([.prompted linePrompt, .remembered (Text.trim line)] ++
            (conversation.session.round (Text.trim line) script).events) := by
  have hreact : conversation.react context (Text.trim line) =
      (conversation.session.start (Text.trim line)).embed (.number context' (Text.trim line))
        (proceed context' (Text.trim line)) := by
    simp [react, hdecline]
  rw [play_line conversation context h, hreact, (embeds_round _ _ _).play]
  unfold proceed
  rw [Dialogue.play_eq_prepend conversation.dialogue, Played.prepend_prepend,
    Played.prepend_prepend, ← Session.evaluate, Session.round_eq, List.append_assoc]

theorem fromPrompt_round (session : Session) {line : String} (h : Text.trim line ≠ "")
    (hdecline : Registry.standard.execute (Text.trim line) ⟨session.defines⟩ =
      (.decline, ⟨session.defines⟩))
    (script : List Reading) :
    fromPrompt session (.line line :: script) =
      (fromPrompt session (session.evaluate (Text.trim line) script).rest).prepend
        ([.prompted linePrompt, .remembered (Text.trim line)] ++
          (session.evaluate (Text.trim line) script).events ++
          (Session.report (Text.trim line)
            (session.evaluate (Text.trim line) script).result).1) := by
  rw [List.append_assoc]
  exact play_round (ofSession session) h hdecline script

/-! ### Exchanges -/

/-- A line that ends the conversation. -/
def Leaves (text : String) : Prop :=
  text = "quit" ∨ text = "exit"

/-- A line at the prompt of a conversation, and what comes of it. -/
structure Exchange where
  line : String
  notes : List Styled
  attempts : List Attempt
  /-- The variable that is asked for when the lines are at their end. -/
  unanswered : Option String
  answer : Option Styled

namespace Exchange

def text (exchange : Exchange) : String :=
  Text.trim exchange.line

def lines (exchange : Exchange) : List String :=
  exchange.line :: exchange.attempts.map Attempt.line

def events (exchange : Exchange) : List Event :=
  .prompted linePrompt :: (if exchange.text = "" then [] else [.remembered exchange.text]) ++
    exchange.notes.map .noted ++ exchange.attempts.flatMap Attempt.events ++
    exchange.unanswered.toList.map asking ++ exchange.answer.toList.map .wrote

/-- The lines that are written: first what is said to those that were read for numbers. -/
def written (exchange : Exchange) : List Styled :=
  exchange.attempts.flatMap Attempt.written ++ exchange.answer.toList

theorem remembered_events (exchange : Exchange) :
    exchange.events.filterMap Event.remembered? = [exchange.text].filter (· ≠ "") := by
  by_cases h : exchange.text = "" <;>
    simp [events, h, asking, List.filterMap_cons, List.filterMap_flatMap]

theorem written_events (exchange : Exchange) :
    exchange.events.filterMap Event.written? = exchange.written := by
  by_cases h : exchange.text = "" <;>
    simp [events, written, h, asking, List.filterMap_cons, List.filterMap_flatMap,
      List.filterMap_map, Function.comp_def]

/-- What may come of a line, where `behind` are the lines behind those that the exchange uses up. A
line is blank, leaves the conversation, is a command, which answers by a message or an error, or is
evaluated, which ends with the value or an error. -/
inductive Fits (session : Session) (behind : List String) : Exchange → Prop
  | blank {line : String} (h : Text.trim line = "") :
      Fits session behind ⟨line, [], [], none, none⟩
  | leave {line : String} (h : Leaves (Text.trim line)) :
      Fits session behind ⟨line, [], [], none, none⟩
  | message {line : String} {message : Styled} (h : Text.trim line ≠ "")
      (hrun : Registry.standard.execute (Text.trim line) ⟨session.defines⟩ =
        (.say message, ⟨session.defines⟩)) :
      Fits session behind ⟨line, [], [], none, some message⟩
  | refusal {line message : String} (h : Text.trim line ≠ "")
      (hrun : Registry.standard.execute (Text.trim line) ⟨session.defines⟩ =
        (.refuse message, ⟨session.defines⟩)) :
      Fits session behind ⟨line, [], [], none, some (Report.errorLine message)⟩
  | value {line : String} {notes : List Styled} {attempts : List Attempt} {x : Float}
      (h : Text.trim line ≠ "")
      (hrun : Registry.standard.execute (Text.trim line) ⟨session.defines⟩ =
        (.decline, ⟨session.defines⟩))
      (hround : session.evaluate (Text.trim line)
          ((attempts.map Attempt.line ++ behind).map .line) =
        ⟨notes.map .noted ++ attempts.flatMap Attempt.events, .ok x, behind.map .line⟩) :
      Fits session behind ⟨line, notes, attempts, none, some (Report.resultLine x)⟩
  | error {line : String} {notes : List Styled} {attempts : List Attempt}
      {unanswered : Option String} {fault : Fault} (h : Text.trim line ≠ "")
      (hrun : Registry.standard.execute (Text.trim line) ⟨session.defines⟩ =
        (.decline, ⟨session.defines⟩))
      (hround : session.evaluate (Text.trim line)
          ((attempts.map Attempt.line ++ behind).map .line) =
        ⟨notes.map .noted ++ attempts.flatMap Attempt.events ++ unanswered.toList.map asking,
          .error fault, behind.map .line⟩)
      (hopen : unanswered ≠ none → behind = []) :
      Fits session behind
        ⟨line, notes, attempts, unanswered, some (Report.fault fault (some (Text.trim line)))⟩

theorem not_leaves_of_execute {text : String} {answer : CommandAnswer}
    {context context' : CommandContext}
    (hrun : Registry.standard.execute text context = (answer, context')) (h : answer ≠ .leave) :
    ¬Leaves text := by
  intro hleaves
  apply h
  have hleave : (Registry.standard.execute text context).1 = .leave :=
    Registry.execute_standard_eq_leave_iff.2 hleaves
  rwa [hrun] at hleave

/-- Every line but the blank ones and the one that leaves the conversation has an answer. -/
theorem Fits.isSome_answer_iff {session : Session} {behind : List String} {exchange : Exchange}
    (h : exchange.Fits session behind) :
    exchange.answer.isSome ↔ exchange.text ≠ "" ∧ ¬Leaves exchange.text := by
  cases h with
  | blank h => simp [text, h]
  | leave h => simp [text, h]
  | message h hrun =>
      simpa [text] using And.intro h (not_leaves_of_execute hrun (by simp))
  | refusal h hrun =>
      simpa [text] using And.intro h (not_leaves_of_execute hrun (by simp))
  | value h hrun _ =>
      simpa [text] using And.intro h (not_leaves_of_execute hrun (by simp))
  | error h hrun _ _ =>
      simpa [text] using And.intro h (not_leaves_of_execute hrun (by simp))

end Exchange

/-- The lines begin with those of an exchange, and unless it leaves the conversation, the next line
is asked for behind it. -/
def Opens (session : Session) (script : List String) (exchange : Exchange)
    (behind : List String) : Prop :=
  script = exchange.lines ++ behind ∧ exchange.Fits session behind ∧
    (Leaves exchange.text ∧
        fromPrompt session (script.map .line) =
          ⟨exchange.events ++ [farewell], .ok (), behind.map .line⟩ ∨
      ¬Leaves exchange.text ∧
        fromPrompt session (script.map .line) =
          (fromPrompt session (behind.map .line)).prepend exchange.events)

theorem exists_opens_of_decline {session : Session} {line : String} (h : Text.trim line ≠ "")
    (hrun : Registry.standard.execute (Text.trim line) ⟨session.defines⟩ =
      (.decline, ⟨session.defines⟩))
    (script : List String) : ∃ exchange behind, Opens session (line :: script) exchange behind := by
  have hgoes : ¬Leaves (Text.trim line) := Exchange.not_leaves_of_execute hrun (by simp)
  obtain ⟨notes, attempts, unanswered, result, behind, rfl, hopen, hround⟩ :=
    session.evaluate_lines (Text.trim line) script
  cases result with
  | ok x =>
      obtain rfl : unanswered = none := by
        by_contra hne
        obtain ⟨-, fault, hfault⟩ := hopen hne
        cases hfault
      refine ⟨⟨line, notes, attempts, none, some (Report.resultLine x)⟩, behind, rfl,
        .value h hrun (by simpa using hround), .inr ⟨hgoes, ?_⟩⟩
      rw [List.map_cons, fromPrompt_round session h hrun, hround]
      simp [Exchange.events, Exchange.text, h, Session.report]
  | error fault =>
      refine ⟨⟨line, notes, attempts, unanswered, _⟩, behind, rfl,
        .error h hrun hround fun hne => (hopen hne).1, .inr ⟨hgoes, ?_⟩⟩
      rw [List.map_cons, fromPrompt_round session h hrun, hround]
      simp [Exchange.events, Exchange.text, h, Session.report]

theorem exists_opens (session : Session) (line : String) (script : List String) :
    ∃ exchange behind, Opens session (line :: script) exchange behind := by
  by_cases h : Text.trim line = ""
  · refine ⟨⟨line, [], [], none, none⟩, script, rfl, .blank h, .inr ⟨?_, ?_⟩⟩
    · simp [Exchange.text, h, Leaves]
    · rw [List.map_cons, fromPrompt_blank session h]
      simp [Exchange.events, Exchange.text, h]
  obtain ⟨answer, hrun⟩ :=
    Registry.exists_execute_standard (Text.trim line) ⟨session.defines⟩
  cases answer with
  | say message =>
      refine ⟨⟨line, [], [], none, some message⟩, script, rfl, .message h hrun,
        .inr ⟨Exchange.not_leaves_of_execute hrun (by simp), ?_⟩⟩
      have hreact : (ofSession session).react ⟨session.defines⟩ (Text.trim line) =
          ⟨[.wrote message], .wait (.line ⟨session.defines⟩)⟩ := by
        simp [react, ofSession, hrun]
      rw [List.map_cons, fromPrompt_answered session h hreact]
      simp [Exchange.events, Exchange.text, h]
  | refuse message =>
      refine ⟨⟨line, [], [], none, some (Report.errorLine message)⟩, script, rfl,
        .refusal h hrun, .inr ⟨Exchange.not_leaves_of_execute hrun (by simp), ?_⟩⟩
      have hreact : (ofSession session).react ⟨session.defines⟩ (Text.trim line) =
          ⟨[.wrote (Report.errorLine message)], .wait (.line ⟨session.defines⟩)⟩ := by
        simp [react, ofSession, hrun]
      rw [List.map_cons, fromPrompt_answered session h hreact]
      simp [Exchange.events, Exchange.text, h]
  | leave =>
      have hleaves : Leaves (Text.trim line) := by
        apply Registry.execute_standard_eq_leave_iff.1
        rw [hrun]
      refine ⟨⟨line, [], [], none, none⟩, script, rfl, .leave hleaves, .inl ⟨hleaves, ?_⟩⟩
      have hreact : (ofSession session).react ⟨session.defines⟩ (Text.trim line) =
          ⟨[farewell], .done (.ok ())⟩ := by
        simp [react, ofSession, hrun]
      rw [List.map_cons, fromPrompt, play_line (ofSession session) _ h, hreact,
        Dialogue.play_eq_prepend, Dialogue.play_done]
      simp [Played.prepend, Exchange.events, Exchange.text, h]
  | decline => exact exists_opens_of_decline h hrun script

/-! ### Whole conversations -/

/-- Exchanges one after the other, each with the lines behind it, and `rest` behind them all. -/
inductive Course (session : Session) (rest : List String) : List Exchange → Prop
  | nil : Course session rest []
  | cons {exchange : Exchange} {exchanges : List Exchange}
      (h : exchange.Fits session (exchanges.flatMap Exchange.lines ++ rest))
      (hcourse : Course session rest exchanges) : Course session rest (exchange :: exchanges)

theorem Course.isSome_answer_iff {session : Session} {rest : List String}
    {exchanges : List Exchange} (h : Course session rest exchanges) :
    ∀ exchange ∈ exchanges,
      (exchange.answer.isSome ↔ exchange.text ≠ "" ∧ ¬Leaves exchange.text) := by
  induction h with
  | nil => simp
  | cons h _ ih => exact List.forall_mem_cons.2 ⟨h.isSome_answer_iff, ih⟩

/-- A conversation ends behind the first exchange that leaves it, or, if there is none, at the end
of the lines. -/
def Ends (exchanges : List Exchange) (rest : List String) (ending : List Event) : Prop :=
  (∃ before last, exchanges = before ++ [last] ∧ (∀ exchange ∈ before, ¬Leaves exchange.text) ∧
      Leaves last.text ∧ ending = [farewell]) ∨
    (∀ exchange ∈ exchanges, ¬Leaves exchange.text) ∧ rest = [] ∧
      ending = [.prompted linePrompt, farewell]

theorem Ends.cons {exchange : Exchange} {exchanges : List Exchange} {rest : List String}
    {ending : List Event} (hgoes : ¬Leaves exchange.text) (h : Ends exchanges rest ending) :
    Ends (exchange :: exchanges) rest ending := by
  rcases h with ⟨before, last, rfl, hbefore, hlast, hending⟩ | ⟨hall, hrest, hending⟩
  · exact .inl ⟨exchange :: before, last, rfl, List.forall_mem_cons.2 ⟨hgoes, hbefore⟩, hlast,
      hending⟩
  · exact .inr ⟨List.forall_mem_cons.2 ⟨hgoes, hall⟩, hrest, hending⟩

theorem fromPrompt_lines (session : Session) (script : List String) :
    ∃ (exchanges : List Exchange) (rest : List String) (ending : List Event),
      script = exchanges.flatMap Exchange.lines ++ rest ∧ Course session rest exchanges ∧
      Ends exchanges rest ending ∧
      fromPrompt session (script.map .line) =
        ⟨exchanges.flatMap Exchange.events ++ ending, .ok (), rest.map .line⟩ := by
  -- An exchange uses up its first line at least, so fewer lines are behind it.
  induction hlength : script.length using Nat.strong_induction_on generalizing script with
  | _ n ih =>
      cases script with
      | nil =>
          refine ⟨[], [], [.prompted linePrompt, farewell], rfl, .nil, .inr ⟨by simp, rfl, rfl⟩, ?_⟩
          exact fromPrompt_nil session
      | cons line script =>
          obtain ⟨exchange, behind, hlines, hfits, hend⟩ :=
            exists_opens session line script
          rw [hlines] at hlength ⊢
          rcases hend with ⟨hleaves, hplay⟩ | ⟨hgoes, hplay⟩
          · refine ⟨[exchange], behind, [farewell], by simp, .cons (by simpa using hfits) .nil,
              .inl ⟨[], exchange, rfl, by simp, hleaves, rfl⟩, ?_⟩
            rw [← hlines, hplay]
            simp
          · have hshorter : behind.length < n := by
              rw [← hlength, List.length_append, Exchange.lines, List.length_cons]
              omega
            obtain ⟨exchanges, rest, ending, rfl, hcourse, hends, hlater⟩ :=
              ih _ hshorter behind rfl
            refine ⟨exchange :: exchanges, rest, ending, by simp, .cons hfits hcourse,
              hends.cons hgoes, ?_⟩
            rw [← hlines, hplay, hlater]
            simp [Played.prepend]

theorem remembered_flatMap_events (exchanges : List Exchange) :
    (exchanges.flatMap Exchange.events).filterMap Event.remembered? =
      (exchanges.map Exchange.text).filter (· ≠ "") := by
  induction exchanges with
  | nil => rfl
  | cons exchange exchanges ih =>
      rw [List.flatMap_cons, List.filterMap_append, Exchange.remembered_events, ih,
        ← List.filter_append]
      rfl

theorem written_flatMap_events (exchanges : List Exchange) :
    (exchanges.flatMap Exchange.events).filterMap Event.written? =
      exchanges.flatMap Exchange.written := by
  rw [List.filterMap_flatMap]
  exact List.flatMap_congr fun exchange _ => exchange.written_events

theorem Ends.remembered {exchanges : List Exchange} {rest : List String} {ending : List Event}
    (h : Ends exchanges rest ending) : ending.filterMap Event.remembered? = [] := by
  rcases h with ⟨_, _, _, _, _, rfl⟩ | ⟨_, _, rfl⟩ <;> rfl

theorem Ends.written {exchanges : List Exchange} {rest : List String} {ending : List Event}
    (h : Ends exchanges rest ending) :
    ending.filterMap Event.written? = [.hue .brightCyan "Goodbye!"] := by
  rcases h with ⟨_, _, _, _, _, rfl⟩ | ⟨_, _, rfl⟩ <;> rfl

/-- Where no reading fails, a conversation comes to its end without an error. It uses the lines up
in their order, exchange by exchange, each either at its own prompt or for a number in the round it
is at, and it ends behind the first line at its prompt that leaves it, with the lines behind that
one unread, or else at the end of the lines. Exactly the lines at its own prompt that are not blank
are remembered. Behind the banner every one of them but the one that leaves has one answer, with
nothing before it but what is said to the lines that were no numbers; and the last line is the
farewell. -/
theorem run_lines (session : Session) (script : List String) :
    ∃ (exchanges : List Exchange) (rest : List String) (ending : List Event),
      script = exchanges.flatMap Exchange.lines ++ rest ∧ Course session rest exchanges ∧
      Ends exchanges rest ending ∧
      (ofSession session).run (script.map .line) =
        ⟨banner ++ exchanges.flatMap Exchange.events ++ ending, .ok (), rest.map .line⟩ ∧
      ((ofSession session).run (script.map .line)).history =
        (exchanges.map Exchange.text).filter (· ≠ "") ∧
      ((ofSession session).run (script.map .line)).events.filterMap Event.written? =
        banner.filterMap Event.written? ++ exchanges.flatMap Exchange.written ++
          [.hue .brightCyan "Goodbye!"] ∧
      ∀ exchange ∈ exchanges,
        (exchange.answer.isSome ↔ exchange.text ≠ "" ∧ ¬Leaves exchange.text) := by
  obtain ⟨exchanges, rest, ending, hscript, hcourse, hends, hplay⟩ :=
    fromPrompt_lines session script
  have hrun : (ofSession session).run (script.map .line) =
      ⟨banner ++ exchanges.flatMap Exchange.events ++ ending, .ok (), rest.map .line⟩ := by
    rw [run_eq_prepend, hplay, Played.prepend, List.append_assoc]
  refine ⟨exchanges, rest, ending, hscript, hcourse, hends, hrun, ?_, ?_,
    hcourse.isSome_answer_iff⟩
  · have hbanner : banner.filterMap Event.remembered? = [] := rfl
    rw [hrun, Played.history, List.filterMap_append, List.filterMap_append, hbanner,
      remembered_flatMap_events, hends.remembered, List.nil_append, List.append_nil]
  · rw [hrun, List.filterMap_append, List.filterMap_append, written_flatMap_events, hends.written]

-- The answers to a prompt for a number are neither commands nor remembered.
example : ((ofSession ⟨[], false⟩).run (["x", "quit", "2", " exit ", "1"].map .line)).history =
    ["x", "exit"] := by
  decide +kernel

end Conversation

end Secant
