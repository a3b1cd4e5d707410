import Secant.Text.Ranges

/-!
Blank characters, and texts without the blanks at their two ends.
-/

namespace Secant.Text

/-- The characters with the property White_Space. -/
def blankTable : Table where
  ranges :=
    [(0x9, 0xD), (0x20, 0x20), (0x85, 0x85), (0xA0, 0xA0), (0x1680, 0x1680), (0x2000, 0x200A),
     (0x2028, 0x2029), (0x202F, 0x202F), (0x205F, 0x205F), (0x3000, 0x3000)]
  ascending_ranges := by decide

def isBlank (c : Char) : Bool :=
  blankTable.covers c.toNat

def trimChars (cs : List Char) : List Char :=
  ((cs.dropWhile isBlank).reverse.dropWhile isBlank).reverse

def trim (text : String) : String :=
  String.ofList (trimChars text.toList)

theorem exists_trimChars (cs : List Char) :
    ∃ front back, cs = front ++ trimChars cs ++ back ∧ (∀ c ∈ front, isBlank c = true) ∧
      ∀ c ∈ back, isBlank c = true := by
  refine ⟨cs.takeWhile isBlank, ((cs.dropWhile isBlank).reverse.takeWhile isBlank).reverse, ?_,
    List.all_eq_true.1 List.all_takeWhile, ?_⟩
  · rw [trimChars, List.append_assoc, ← List.reverse_append, List.takeWhile_append_dropWhile,
      List.reverse_reverse, List.takeWhile_append_dropWhile]
  · intro c hmem
    exact List.all_eq_true.1 List.all_takeWhile c (List.mem_reverse.1 hmem)

theorem eq_false_of_head?_dropWhile {p : Char → Bool} {cs : List Char} {c : Char}
    (h : (cs.dropWhile p).head? = some c) : p c = false := by
  have hhead := List.head?_dropWhile_not p cs
  rw [h] at hhead
  simpa using hhead

theorem isBlank_of_getLast?_trimChars {cs : List Char} {c : Char}
    (h : (trimChars cs).getLast? = some c) : isBlank c = false := by
  rw [trimChars, List.getLast?_reverse] at h
  exact eq_false_of_head?_dropWhile h

theorem dropWhile_eq_self {cs : List Char} (h : ∀ c ∈ cs, isBlank c = false) :
    cs.dropWhile isBlank = cs := by
  cases cs with
  | nil => rfl
  | cons c cs => exact List.dropWhile_cons_of_neg (by simpa using h c List.mem_cons_self)

theorem trim_eq_self {text : String} (h : ∀ c ∈ text.toList, isBlank c = false) :
    trim text = text := by
  have hreverse : ∀ c ∈ text.toList.reverse, isBlank c = false := fun c hmem =>
    h c (List.mem_reverse.1 hmem)
  rw [trim, trimChars, dropWhile_eq_self h, dropWhile_eq_self hreverse, List.reverse_reverse,
    String.ofList_toList]

theorem isBlank_of_trimChars_eq_nil {cs : List Char} (h : trimChars cs = []) :
    ∀ c ∈ cs, isBlank c = true := by
  obtain ⟨front, back, hsplit, hfront, hback⟩ := exists_trimChars cs
  intro c hmem
  rw [hsplit, h, List.append_nil] at hmem
  exact (List.mem_append.1 hmem).elim (hfront c) (hback c)

/-- What stands at the end of a text without blanks at its ends is not all blank. -/
theorem trimChars_ne_nil {front behind : List Char}
    (h : trimChars (front ++ behind) = front ++ behind) (hne : behind ≠ []) :
    trimChars behind ≠ [] := by
  intro hnil
  have hlast := List.getLast?_eq_some_getLast hne
  have hblank := isBlank_of_trimChars_eq_nil hnil _ (List.mem_of_getLast? hlast)
  have hlastOfAll : (trimChars (front ++ behind)).getLast? = some (behind.getLast hne) := by
    rw [h, List.getLast?_append, hlast]
    rfl
  rw [isBlank_of_getLast?_trimChars hlastOfAll] at hblank
  cases hblank

theorem isBlank_of_isWhitespace {c : Char} (h : c.isWhitespace = true) : isBlank c = true := by
  simp [Char.isWhitespace] at h
  rcases h with ((h | h) | h) | h <;> subst h <;> decide

end Secant.Text
