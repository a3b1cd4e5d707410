import Secant.Proofs.Answers
import Secant.Proofs.Traits

/-!
What can be wrong with a round. By the time a tree is evaluated every free variable has its number,
from a definition or from an answer, and every call in it is that of a function, since it was read
from a text. So evaluation never meets a name that it does not know.
-/

namespace Secant

/-- The errors of an expression all of whose names are known. -/
def EvalError.NamesKnown : EvalError → Prop
  | undefinedVariable _ => False
  | unknownFunction _ => False
  | divisionByZero => True
  | domain _ _ => True
  | argumentCount _ _ _ => True
  | derivativeVariable => True

namespace Session

theorem eq_error_of_verdict {tree : Expr} {env : Environment} {fault : Fault}
    (h : verdict tree env = .error fault) :
    ∃ error, fault = .ofCalc (.eval error) ∧ tree.value .default env.lookup = .error error := by
  rw [verdict, (Expr.keeps_eval .default tree env).outcome_eq] at h
  cases hvalue : tree.value .default env.lookup with
  | ok x =>
      rw [hvalue] at h
      cases h
  | error error =>
      rw [hvalue] at h
      cases h
      exact ⟨error, rfl, rfl⟩

/-- Once the names that were open are bound, no free variable is missed. -/
theorem not_misses_of_answers {session : Session} {tree : Expr} {answers : List Answer}
    (hnames : session.asked tree = answers.map Answer.name) (name : String) :
    ¬Expr.Misses (tree, (Environment.ofList
      (session.defines ++ answers.map Answer.definition)).lookup) name := by
  rintro ⟨hfree, hnone⟩
  dsimp only at hnone
  rw [Environment.lookup_ofList, List.lookup_eq_none_iff] at hnone
  by_cases hdefined : ∃ x, (name, x) ∈ session.defines
  · obtain ⟨x, hmem⟩ := hdefined
    simpa using hnone (name, x) (by simp [hmem])
  · have hasked : name ∈ session.asked tree :=
      mem_asked_iff.2 ⟨hfree, fun x hmem => hdefined ⟨x, hmem⟩⟩
    rw [hnames] at hasked
    obtain ⟨answer, hmem, rfl⟩ := List.mem_map.1 hasked
    have hbound : answer.definition ∈ (session.defines ++ answers.map Answer.definition).reverse :=
      List.mem_reverse.2 (List.mem_append_right _ (List.mem_map_of_mem hmem))
    simpa [Answer.definition] using hnone answer.definition hbound

theorem namesKnown_of_answers {session : Session} {text : String} {tree : Expr}
    (hread : Expr.ofText text = .ok tree) {answers : List Answer}
    (hnames : session.asked tree = answers.map Answer.name) {error : EvalError}
    (hvalue : tree.value .default
      (Environment.ofList (session.defines ++ answers.map Answer.definition)).lookup =
        .error error) : error.NamesKnown := by
  cases error with
  | undefinedVariable name =>
      exact not_misses_of_answers hnames name (Expr.misses_of_undefinedVariable hvalue)
  | unknownFunction name => exact Expr.not_unknownFunction_of_ofText hread hvalue
  | _ => trivial

/-- A round fails for what is wrong with the text, for want of a number, or with an error of an
expression all of whose names are known. -/
theorem evaluate_fault {session : Session} {text : String} {script : List Reading} {fault : Fault}
    (h : (session.evaluate text script).result = .error fault) :
    (∃ error, Expr.ofText text = .error error ∧ fault = .ofCalc (.parse error)) ∨
      (∃ name message : String, .failed message ∈ script ∧
        fault = ⟨[s!"failed to read a value for '{name}'"], .other message⟩) ∨
      (∃ name : String,
        fault = .ofMessage s!"input ended before a value for '{name}' was entered") ∨
      ∃ error : EvalError, fault = .ofCalc (.eval error) ∧ error.NamesKnown := by
  cases hread : Expr.ofText text with
  | error error =>
      rw [evaluate_of_error hread] at h
      cases h
      exact .inl ⟨error, rfl, rfl⟩
  | ok tree =>
      rcases completes_or_breaksOff hread script with
        ⟨answers, rest, hnames, -, hplay⟩ |
          ⟨answers, name, later, rest, ended, -, hscript, hgives, hplay⟩
      · rw [hplay] at h
        obtain ⟨error, rfl, hvalue⟩ := eq_error_of_verdict h
        exact .inr (.inr (.inr ⟨error, rfl, namesKnown_of_answers hread hnames hvalue⟩))
      · rw [hplay] at h
        obtain ⟨passed, -, -, ⟨-, -, hresult⟩ | ⟨message, hrest, hresult⟩⟩ := hgives
        · cases h.symm.trans hresult
          exact .inr (.inr (.inl ⟨name, rfl⟩))
        · cases h.symm.trans hresult
          exact .inr (.inl ⟨name, message, by simp [hscript, hrest], rfl⟩)

/-- A quotient whose divisor is asked for and is zero. -/
theorem evaluate_fault_quotient :
    ∃ fault, (evaluate ⟨[], false⟩ "1/x" [.line "0"]).result = .error fault ∧
      ((∃ error, Expr.ofText "1/x" = .error error ∧ fault = .ofCalc (.parse error)) ∨
        (∃ name message : String, Reading.failed message ∈ [Reading.line "0"] ∧
          fault = ⟨[s!"failed to read a value for '{name}'"], .other message⟩) ∨
        (∃ name : String,
          fault = .ofMessage s!"input ended before a value for '{name}' was entered") ∨
        ∃ error : EvalError, fault = .ofCalc (.eval error) ∧ error.NamesKnown) := by
  have herror : (evaluate ⟨[], false⟩ "1/x" [.line "0"]).result.isOk = false := by decide +kernel
  cases hresult : (evaluate ⟨[], false⟩ "1/x" [.line "0"]).result with
  | ok x =>
      rw [hresult] at herror
      cases herror
  | error fault => exact ⟨fault, rfl, evaluate_fault hresult⟩

end Session

end Secant
