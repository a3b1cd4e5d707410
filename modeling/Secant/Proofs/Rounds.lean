import Secant.Proofs.Conversation

/-!
Single rounds, and rounds in a conversation. A single round over a text is one round, behind which
nothing is asked for; in a conversation the same round is played between two prompts. What happens
in it depends on the definitions of the session and on the lines that are still to be read, and on
nothing that was entered, answered or shown before.
-/

namespace Secant

open Text (Styled)

namespace Session

variable (session : Session)

/-! ### Single rounds -/

/-- A single round is played as the evaluation of its text, and ends with the report. -/
theorem embeds_single (text : String) :
    Question.dialogue.Embeds session.singleDialogue (.number text) (conclude text) where
  prompt _ := rfl
  reply _ _ := rfl
  close question := by
    rw [conclude, Dialogue.play_eq_prepend, Dialogue.play_done]
    simp [Played.prepend, singleDialogue]

theorem play_conclude (text : String) (result : Except Fault Float) (script : List Reading) :
    session.singleDialogue.play (conclude text result) script =
      ⟨(report text result).1, .ok (report text result).2, script⟩ := by
  simp [conclude, Dialogue.play]

theorem singleRound_text {text : String} (h : Text.trim text ≠ "") (script : List Reading) :
    session.singleRound (some text) script =
      ⟨(session.round (Text.trim text) script).events,
        .ok (session.round (Text.trim text) script).result,
        (session.round (Text.trim text) script).rest⟩ := by
  have hturn : session.singleTurn (some text) =
      (session.start (Text.trim text)).embed (.number (Text.trim text))
        (conclude (Text.trim text)) := by
    simp [singleTurn, startSingle, h]
  rw [singleRound, hturn, (session.embeds_single _).play, play_conclude, ← evaluate]
  rfl

theorem singleRound_blank {text : String} (h : Text.trim text = "") (script : List Reading) :
    session.singleRound (some text) script = ⟨[emptyInput], .ok false, script⟩ := by
  have hturn : session.singleTurn (some text) = ⟨[emptyInput], .done (.ok false)⟩ := by
    simp [singleTurn, startSingle, h]
  rw [singleRound, hturn, Dialogue.play_eq_prepend, Dialogue.play_done]
  rfl

theorem singleRound_none_nil :
    session.singleRound none [] =
      ⟨[.prompted expressionPrompt, emptyInput], .ok false, []⟩ :=
  rfl

/-- A text that is read is treated like one that is given. -/
theorem singleRound_none_line (text : String) (script : List Reading) :
    session.singleRound none (.line text :: script) =
      (session.singleRound (some text) script).prepend [.prompted expressionPrompt] := by
  rw [singleRound, singleTurn, Dialogue.play_wait_cons]
  rfl

theorem singleRound_none_failed (message : String) (script : List Reading) :
    session.singleRound none (.failed message :: script) =
      ⟨[.prompted expressionPrompt], .error (.ofMessage message), script⟩ := by
  rw [singleRound, singleTurn, Dialogue.play_wait_cons, singleDialogue, Dialogue.play_done]
  rfl

end Session

/-! ### What a round depends on -/

namespace Played

variable {α : Type} (played : Played α) (notes : List Styled) (color : Bool)

theorem output_prepend_noted :
    (played.prepend (notes.map .noted)).output color = played.output color := by
  simp [output, prepend, List.filterMap_map, Function.comp_def]

theorem prompts_prepend_noted :
    (played.prepend (notes.map .noted)).prompts color = played.prompts color := by
  simp [prompts, prepend, List.filterMap_map, Function.comp_def, Event.prompt?]

end Played

namespace Session

/-- But for the notes, a round is a matter of the definitions and of the lines to come. -/
theorem exists_evaluate_eq_prepend (session : Session) (text : String) (script : List Reading) :
    ∃ notes : List Styled, session.evaluate text script =
      (evaluate ⟨session.defines, false⟩ text script).prepend (notes.map .noted) := by
  cases hread : Expr.ofText text with
  | error error =>
      rw [evaluate_of_error hread, evaluate_of_error hread]
      exact ⟨[], rfl⟩
  | ok tree =>
      obtain ⟨notes, hnotes⟩ := session.exists_notes tree
      rw [evaluate_of_ok hread, evaluate_of_ok hread, hnotes]
      exact ⟨notes, rfl⟩

theorem exists_round_eq_prepend (session : Session) (text : String) (script : List Reading) :
    ∃ notes : List Styled, session.round text script =
      (round ⟨session.defines, false⟩ text script).prepend (notes.map .noted) := by
  obtain ⟨notes, hnotes⟩ := session.exists_evaluate_eq_prepend text script
  refine ⟨notes, ?_⟩
  rw [round_eq, round_eq, hnotes]
  simp [Played.prepend]

section

variable {session other : Session}

theorem result_evaluate_eq (h : session.defines = other.defines) (text : String)
    (script : List Reading) :
    (session.evaluate text script).result = (other.evaluate text script).result := by
  obtain ⟨notes, hnotes⟩ := session.exists_evaluate_eq_prepend text script
  obtain ⟨others, hothers⟩ := other.exists_evaluate_eq_prepend text script
  rw [hnotes, hothers, h]
  rfl

/-- With the same definitions the same is written and asked for, and the same lines are left. -/
theorem round_alike (h : session.defines = other.defines) (text : String)
    (script : List Reading) :
    (∀ color, (session.round text script).output color = (other.round text script).output color ∧
        (session.round text script).prompts color = (other.round text script).prompts color) ∧
      (session.round text script).rest = (other.round text script).rest ∧
      (session.round text script).result = (other.round text script).result := by
  obtain ⟨notes, hnotes⟩ := session.exists_round_eq_prepend text script
  obtain ⟨others, hothers⟩ := other.exists_round_eq_prepend text script
  rw [hnotes, hothers, h]
  refine ⟨fun color => ⟨?_, ?_⟩, rfl, rfl⟩
  · rw [Played.output_prepend_noted, Played.output_prepend_noted]
  · rw [Played.prompts_prepend_noted, Played.prompts_prepend_noted]

end

end Session

namespace Conversation

/-- Whenever a conversation asks for its next line and gets one that no command takes, what is
written and asked for until the next prompt, which lines are used up, and what the round comes to,
be it a value or a fault, is the same as in a single round over that line, on any session with the
same definitions and with the same lines to come. What was entered, answered, shown and run before
makes no difference to it. -/
theorem run_round (conversation : Conversation) (fresh : Session) {used : List Reading}
    {context : CommandContext} {line text : String} (unread : List Reading)
    (hprompt : (conversation.dialogue.after conversation.begin used).next = .wait (.line context))
    (htext : Text.trim line = text) (hne : text ≠ "")
    (hdecline : (conversation.registry.execute text context).1 = .decline)
    (hdefines : fresh.defines = conversation.session.defines) :
    conversation.run (used ++ .line line :: unread) =
        (conversation.dialogue.play
          ⟨[], .wait (.line (conversation.registry.execute text context).2)⟩
          (conversation.session.round text unread).rest).prepend
            ((conversation.dialogue.after conversation.begin used).events ++
              [.prompted linePrompt, .remembered text] ++
              (conversation.session.round text unread).events) ∧
      (∀ color,
        (conversation.session.round text unread).output color =
            (fresh.singleRound (some line) unread).output color ∧
          (conversation.session.round text unread).prompts color =
            (fresh.singleRound (some line) unread).prompts color) ∧
      (conversation.session.round text unread).rest =
        (fresh.singleRound (some line) unread).rest ∧
      (fresh.singleRound (some line) unread).result =
        .ok (conversation.session.round text unread).result ∧
      (conversation.session.evaluate text unread).result = (fresh.evaluate text unread).result := by
  subst htext
  have hrun : conversation.registry.execute (Text.trim line) context =
      (.decline, (conversation.registry.execute (Text.trim line) context).2) := by
    rw [← hdecline]
  obtain ⟨hshown, hrest, hresult⟩ :=
    Session.round_alike hdefines.symm (Text.trim line) unread
  rw [fresh.singleRound_text hne]
  refine ⟨?_, hshown, hrest, congrArg Except.ok hresult.symm,
    Session.result_evaluate_eq hdefines.symm _ _⟩
  rw [run, Dialogue.play_append_of_after _ hprompt, play_round conversation hne hrun,
    Played.prepend_prepend, List.append_assoc]

def asksForLine (turn : Turn Waiting (Except Fault Unit)) : Bool :=
  match turn.next with
  | .wait (.line _) => true
  | _ => false

def telling : Conversation :=
  ofSession ⟨[("k", 4)], true⟩

/-- What a variable was answered in one round, which ended with an error, is not what it is in the
next one, with a command between the two. -/
theorem run_round_telling :
    ∃ context,
      (telling.dialogue.after telling.begin ([" 1 / x", "abc", "0", "vars"].map .line)).next =
        .wait (.line context) ∧
      Text.trim "x/k " = "x/k" ∧ (Registry.standard.execute "x/k" context).1 = .decline ∧
      (∀ color,
        (telling.session.round "x/k" [.line "8", .line "quit"]).output color =
            ((Session.mk [("k", 4)] false).singleRound (some "x/k ")
              [.line "8", .line "quit"]).output color ∧
          (telling.session.round "x/k" [.line "8", .line "quit"]).prompts color =
            ((Session.mk [("k", 4)] false).singleRound (some "x/k ")
              [.line "8", .line "quit"]).prompts color) ∧
      (telling.session.round "x/k" [.line "8", .line "quit"]).rest =
        ((Session.mk [("k", 4)] false).singleRound (some "x/k ")
          [.line "8", .line "quit"]).rest := by
  have hasks : asksForLine
      (telling.dialogue.after telling.begin ([" 1 / x", "abc", "0", "vars"].map .line)) = true := by
    decide +kernel
  unfold asksForLine at hasks
  split at hasks
  · rename_i context hprompt
    have htext : Text.trim "x/k " = "x/k" := by decide +kernel
    have hdecline : (Registry.standard.execute "x/k" context).1 = .decline := rfl
    obtain ⟨-, hshown, hrest, -⟩ := run_round telling ⟨[("k", 4)], false⟩
      [.line "8", .line "quit"] hprompt htext (by decide) hdecline rfl
    exact ⟨context, hprompt, htext, hdecline, hshown, hrest⟩
  · cases hasks

end Conversation

end Secant
