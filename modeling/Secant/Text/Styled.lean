/-!
Text in colours. What is said and how it is coloured are one value, and whether the colours are
shown is decided when it is turned into characters: with colours every styled piece stands between
an opening code and a reset, without them nothing is added.
-/

namespace Secant.Text

inductive Hue
  | red
  | green
  | yellow
  | cyan
  | brightRed
  | brightGreen
  | brightMagenta
  | brightCyan
deriving DecidableEq, Repr

def Hue.code : Hue → String
  | red => "31"
  | green => "32"
  | yellow => "33"
  | cyan => "36"
  | brightRed => "91"
  | brightGreen => "92"
  | brightMagenta => "95"
  | brightCyan => "96"

inductive Style
  | plain
  | bold
  | dimmed
  | hue (hue : Hue)
  | boldHue (hue : Hue)
  | heading
deriving DecidableEq, Repr

def Style.opening? : Style → Option String
  | plain => none
  | bold => some "\x1b[1m"
  | dimmed => some "\x1b[2m"
  | hue h => some s!"\x1b[{h.code}m"
  | boldHue h => some s!"\x1b[1;{h.code}m"
  | heading => some "\x1b[1m\x1b[4m"

def reset : String :=
  "\x1b[0m"

/-- Opens a style anew behind each reset that the styled text holds itself. -/
def reopen (opening : List Char) : List Char → List Char
  | '\x1b' :: '[' :: '0' :: 'm' :: cs =>
      '\x1b' :: '[' :: '0' :: 'm' :: opening ++ reopen opening cs
  | c :: cs => c :: reopen opening cs
  | [] => []

structure Piece where
  style : Style
  text : String
deriving DecidableEq, Repr

abbrev Styled :=
  List Piece

def Piece.render (color : Bool) (piece : Piece) : String :=
  match piece.style.opening? with
  | some opening =>
      if color then
        opening ++ String.ofList (reopen opening.toList piece.text.toList) ++ reset
      else piece.text
  | none => piece.text

@[simp] theorem Piece.render_false (piece : Piece) : piece.render false = piece.text := by
  unfold Piece.render
  split <;> rfl

namespace Styled

def render (color : Bool) (text : Styled) : String :=
  String.join (text.map (·.render color))

def plain (text : String) : Styled :=
  [⟨.plain, text⟩]

def bold (text : String) : Styled :=
  [⟨.bold, text⟩]

def dimmed (text : String) : Styled :=
  [⟨.dimmed, text⟩]

def hue (hue : Hue) (text : String) : Styled :=
  [⟨.hue hue, text⟩]

def boldHue (hue : Hue) (text : String) : Styled :=
  [⟨.boldHue hue, text⟩]

def heading (text : String) : Styled :=
  [⟨.heading, text⟩]

@[simp] theorem render_append (color : Bool) (text other : Styled) :
    render color (text ++ other) = text.render color ++ other.render color := by
  simp [render]

/-- Texts on lines of their own, with no end to the last line. -/
def lines (texts : List Styled) : Styled :=
  List.intercalate (plain "\n") texts

theorem render_lines (color : Bool) (texts : List Styled) :
    (lines texts).render color = "\n".intercalate (texts.map (·.render color)) := by
  induction texts with
  | nil => rfl
  | cons text rest ih =>
      cases rest with
      | nil => simp [lines]
      | cons next rest =>
          have hbreak : (plain "\n").render color = "\n" := by cases color <;> rfl
          have hlines : lines (text :: next :: rest) =
              text ++ plain "\n" ++ lines (next :: rest) := by
            simp [lines, List.intercalate]
          rw [hlines, render_append, render_append, hbreak, ih]
          simp only [List.map_cons, String.intercalate_cons_cons, String.append_assoc]

end Styled

/-- A text filled up with blanks to a width in characters. -/
def padRight (width : Nat) (text : String) : String :=
  String.ofList (text.toList ++ List.replicate (width - text.length) ' ')

end Secant.Text
