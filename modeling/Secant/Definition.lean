import Secant.Decimal.Numeral
import Secant.Text.Blank

/-!
Numbers and definitions as people type them: a comma may stand for the point, and blanks around a
number or a name do not count.
-/

namespace Secant

inductive NumberInput
  | blank
  | invalid
  | number (value : Float)

def NumberInput.ofText (text : String) : NumberInput :=
  let normalized := (Text.trimChars text.toList).map fun c => if c = ',' then '.' else c
  if normalized.isEmpty then .blank
  else
    match Decimal.number? (String.ofList normalized) with
    | some value => .number value
    | none => .invalid

theorem NumberInput.ofText_eq_blank_iff {text : String} :
    ofText text = .blank ↔ Text.trim text = "" := by
  rw [Text.trim, String.ofList_eq_empty_iff, ofText]
  simp only [List.isEmpty_iff, List.map_eq_nil_iff]
  split
  · simp [*]
  · split <;> simp [*]

abbrev Definition :=
  String × Float

inductive DefinitionError
  | noEqualsSign (text : String)
  | noName (text : String)
  | notANumber (value : String)
  | noValue (name : String)
deriving DecidableEq, Repr

def DefinitionError.message : DefinitionError → String
  | noEqualsSign text => s!"expected NAME=VALUE, got '{text}'"
  | noName text => s!"missing variable name in '{text}'"
  | notANumber value => s!"'{value}' is not a number"
  | noValue name => s!"missing value for '{name}'"

namespace Definition

/-- Reads a definition. The name ends at the first equals sign. -/
def ofText (text : String) : Except DefinitionError Definition :=
  match text.toList.dropWhile (· ≠ '=') with
  | [] => .error (.noEqualsSign text)
  | _ :: value =>
      let name := Text.trim (String.ofList (text.toList.takeWhile (· ≠ '=')))
      if name = "" then .error (.noName text)
      else
        match NumberInput.ofText (String.ofList value) with
        | .number number => .ok (name, number)
        | .invalid => .error (.notANumber (Text.trim (String.ofList value)))
        | .blank => .error (.noValue name)

end Definition

end Secant
