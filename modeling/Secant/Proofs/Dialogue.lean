import Secant.Dialogue

/-!
Dialogues as they are played. What happens before a line is asked for stands in front of everything
that happens later. A dialogue that is embedded in another one is played as it is by itself, up to
its result, and the other one goes on from there with what is left of the script.
-/

namespace Secant

open Text (Styled)

variable {α β σ τ : Type}

namespace Event

@[simp] theorem written?_prompted (prompt : Styled) : (prompted prompt).written? = none := rfl

@[simp] theorem written?_wrote (text : Styled) : (wrote text).written? = some text := rfl

@[simp] theorem written?_noted (text : Styled) : (noted text).written? = none := rfl

@[simp] theorem written?_remembered (line : String) : (remembered line).written? = none := rfl

@[simp] theorem remembered?_prompted (prompt : Styled) : (prompted prompt).remembered? = none := rfl

@[simp] theorem remembered?_wrote (text : Styled) : (wrote text).remembered? = none := rfl

@[simp] theorem remembered?_noted (text : Styled) : (noted text).remembered? = none := rfl

@[simp] theorem remembered?_remembered (line : String) :
    (remembered line).remembered? = some line := rfl

end Event

def Played.prepend (events : List Event) (played : Played α) : Played α :=
  { played with events := events ++ played.events }

@[simp] theorem Played.prepend_nil (played : Played α) : played.prepend [] = played := rfl

@[simp] theorem Played.prepend_prepend (events others : List Event) (played : Played α) :
    (played.prepend others).prepend events = played.prepend (events ++ others) := by
  simp [prepend]

def Next.Has (waits : σ → Prop) (ends : α → Prop) : Next σ α → Prop
  | .wait state => waits state
  | .done result => ends result

namespace Turn

def Has (happens : Event → Prop) (waits : σ → Prop) (ends : α → Prop) (turn : Turn σ α) : Prop :=
  (∀ event ∈ turn.events, happens event) ∧ turn.next.Has waits ends

theorem Has.of_events {happens : Event → Prop} {turn : Turn σ α}
    (h : ∀ event ∈ turn.events, happens event) :
    turn.Has happens (fun _ => True) (fun _ => True) := by
  obtain ⟨events, next⟩ := turn
  cases next <;> exact ⟨h, trivial⟩

/-- In an embedded turn the same happens, and what is asked for the sequel. -/
theorem Has.embed {happens : Event → Prop} {waits : σ → Prop} {waits' : τ → Prop}
    {ends : α → Prop} {ends' : β → Prop} {turn : Turn σ α} (h : turn.Has happens waits ends)
    {wait : σ → τ} {sequel : α → Turn τ β} (hwait : ∀ state, waits state → waits' (wait state))
    (hsequel : ∀ result, ends result → (sequel result).Has happens waits' ends') :
    (turn.embed wait sequel).Has happens waits' ends' := by
  obtain ⟨events, next⟩ := turn
  obtain ⟨hevents, hnext⟩ := h
  cases next with
  | wait state => exact ⟨hevents, hwait state hnext⟩
  | done result =>
      obtain ⟨hlater, hend⟩ := hsequel result hnext
      exact ⟨List.forall_mem_append.2 ⟨hevents, hlater⟩, hend⟩

end Turn

namespace Dialogue

theorem play_eq_prepend (dialogue : Dialogue σ α) (events : List Event) (next : Next σ α)
    (script : List Reading) :
    dialogue.play ⟨events, next⟩ script = (dialogue.play ⟨[], next⟩ script).prepend events := by
  cases next with
  | done result => simp [play, Played.prepend]
  | wait state => cases script <;> simp [play, Played.prepend]

theorem play_done (dialogue : Dialogue σ α) (result : α) (script : List Reading) :
    dialogue.play ⟨[], .done result⟩ script = ⟨[], result, script⟩ := by
  simp [play]

theorem play_wait_nil (dialogue : Dialogue σ α) (state : σ) :
    dialogue.play ⟨[], .wait state⟩ [] =
      ⟨.prompted (dialogue.prompt state) :: (dialogue.close state).1, (dialogue.close state).2,
        []⟩ := by
  simp [play]

theorem play_wait_cons (dialogue : Dialogue σ α) (state : σ) (reading : Reading)
    (script : List Reading) :
    dialogue.play ⟨[], .wait state⟩ (reading :: script) =
      (dialogue.play (dialogue.reply state reading) script).prepend
        [.prompted (dialogue.prompt state)] := by
  simp [play, Played.prepend]

theorem rest_play_nil (dialogue : Dialogue σ α) (turn : Turn σ α) :
    (dialogue.play turn []).rest = [] := by
  obtain ⟨events, next⟩ := turn
  cases next <;> rfl

/-- What holds of everything that happens holds if it holds of every turn, as long as the states and
the readings are what it takes. So does what holds of all results. -/
structure Preserves (dialogue : Dialogue σ α) (happens : Event → Prop) (reads : Reading → Prop)
    (waits : σ → Prop) (ends : α → Prop) : Prop where
  prompt : ∀ state, waits state → happens (.prompted (dialogue.prompt state))
  reply : ∀ state reading, waits state → reads reading →
    (dialogue.reply state reading).Has happens waits ends
  close : ∀ state, waits state →
    (∀ event ∈ (dialogue.close state).1, happens event) ∧ ends (dialogue.close state).2

theorem Preserves.play {dialogue : Dialogue σ α} {happens : Event → Prop} {reads : Reading → Prop}
    {waits : σ → Prop} {ends : α → Prop} (h : dialogue.Preserves happens reads waits ends)
    {turn : Turn σ α} (hturn : turn.Has happens waits ends) {script : List Reading}
    (hscript : ∀ reading ∈ script, reads reading) :
    (∀ event ∈ (dialogue.play turn script).events, happens event) ∧
      ends (dialogue.play turn script).result ∧
      ∀ reading ∈ (dialogue.play turn script).rest, reads reading := by
  induction script generalizing turn with
  | nil =>
      obtain ⟨events, next⟩ := turn
      cases next with
      | done result => exact ⟨hturn.1, hturn.2, hscript⟩
      | wait state =>
          obtain ⟨hclose, hends⟩ := h.close state hturn.2
          rw [play_eq_prepend, play_wait_nil]
          exact ⟨List.forall_mem_append.2
            ⟨hturn.1, List.forall_mem_cons.2 ⟨h.prompt state hturn.2, hclose⟩⟩, hends, hscript⟩
  | cons reading script ih =>
      obtain ⟨hreading, hscript'⟩ := List.forall_mem_cons.1 hscript
      obtain ⟨events, next⟩ := turn
      cases next with
      | done result => exact ⟨hturn.1, hturn.2, hscript⟩
      | wait state =>
          obtain ⟨hevents, hends, hrest⟩ := ih (h.reply state reading hturn.2 hreading) hscript'
          rw [play_eq_prepend, play_wait_cons]
          exact ⟨List.forall_mem_append.2
            ⟨hturn.1, List.forall_mem_cons.2 ⟨h.prompt state hturn.2, hevents⟩⟩, hends, hrest⟩

theorem forall_mem_play (dialogue : Dialogue σ α) {P : Event → Prop}
    (hprompt : ∀ state, P (.prompted (dialogue.prompt state)))
    (hreply : ∀ state reading, ∀ event ∈ (dialogue.reply state reading).events, P event)
    (hclose : ∀ state, ∀ event ∈ (dialogue.close state).1, P event) {turn : Turn σ α}
    (hturn : ∀ event ∈ turn.events, P event) (script : List Reading) :
    ∀ event ∈ (dialogue.play turn script).events, P event := by
  have hpreserves : dialogue.Preserves P (fun _ => True) (fun _ => True) (fun _ => True) :=
    ⟨fun state _ => hprompt state, fun state reading _ _ => .of_events (hreply state reading),
      fun state _ => ⟨hclose state, trivial⟩⟩
  exact (hpreserves.play (.of_events hturn) fun _ _ => trivial).1

/-- What a dialogue has come to with these readings used up, unless it is at its end before that. -/
def after (dialogue : Dialogue σ α) : Turn σ α → List Reading → Turn σ α
  | ⟨events, .done result⟩, _ => ⟨events, .done result⟩
  | ⟨events, .wait state⟩, [] => ⟨events, .wait state⟩
  | ⟨events, .wait state⟩, reading :: used =>
      let later := dialogue.after (dialogue.reply state reading) used
      ⟨events ++ .prompted (dialogue.prompt state) :: later.events, later.next⟩

/-- A dialogue that waits for its next reading is played on from there. -/
theorem play_append_of_after (dialogue : Dialogue σ α) {turn : Turn σ α} {used : List Reading}
    {state : σ} (h : (dialogue.after turn used).next = .wait state) (unread : List Reading) :
    dialogue.play turn (used ++ unread) =
      (dialogue.play ⟨[], .wait state⟩ unread).prepend (dialogue.after turn used).events := by
  induction used generalizing turn with
  | nil =>
      obtain ⟨events, next⟩ := turn
      cases next with
      | done result => cases h
      | wait state =>
          cases h
          exact play_eq_prepend dialogue events _ unread
  | cons reading used ih =>
      obtain ⟨events, next⟩ := turn
      cases next with
      | done result => cases h
      | wait before =>
          rw [List.cons_append, play_eq_prepend, play_wait_cons, ih h]
          simp [after]

/-- The outer dialogue goes through the states of the inner one as that does by itself, and goes on
with the sequel of its result. -/
structure Embeds (inner : Dialogue σ α) (outer : Dialogue τ β) (wait : σ → τ)
    (sequel : α → Turn τ β) : Prop where
  prompt : ∀ state, outer.prompt (wait state) = inner.prompt state
  reply : ∀ state reading,
    outer.reply (wait state) reading = (inner.reply state reading).embed wait sequel
  close : ∀ state,
    outer.close (wait state) =
      ((inner.close state).1 ++ (outer.play (sequel (inner.close state).2) []).events,
        (outer.play (sequel (inner.close state).2) []).result)

theorem Embeds.play {inner : Dialogue σ α} {outer : Dialogue τ β} {wait : σ → τ}
    {sequel : α → Turn τ β} (h : Embeds inner outer wait sequel) (turn : Turn σ α)
    (script : List Reading) :
    outer.play (turn.embed wait sequel) script =
      (outer.play (sequel (inner.play turn script).result)
        (inner.play turn script).rest).prepend (inner.play turn script).events := by
  have hdone : ∀ events result script,
      outer.play (Turn.embed ⟨events, .done result⟩ wait sequel) script =
        (outer.play (sequel result) script).prepend events := by
    intro events result script
    rw [Turn.embed, play_eq_prepend, ← Played.prepend_prepend, ← play_eq_prepend]
  induction script generalizing turn with
  | nil =>
      obtain ⟨events, next⟩ := turn
      cases next with
      | done result => exact hdone events result []
      | wait state =>
          rw [play_eq_prepend inner, play_wait_nil, Turn.embed, play_eq_prepend, play_wait_nil,
            h.prompt, h.close]
          simp [Played.prepend, rest_play_nil]
  | cons reading script ih =>
      obtain ⟨events, next⟩ := turn
      cases next with
      | done result => exact hdone events result _
      | wait state =>
          rw [play_eq_prepend inner, play_wait_cons, Turn.embed, play_eq_prepend, play_wait_cons,
            h.prompt, h.reply, ih]
          simp [Played.prepend]

end Dialogue

end Secant
