/-!
Sets of names as lists in ascending order by code point, each name once.
-/

namespace Secant.Names

def insert (name : String) : List String → List String
  | [] => [name]
  | first :: rest =>
      if name < first then name :: first :: rest
      else if name = first then first :: rest
      else first :: insert name rest

def union (names others : List String) : List String :=
  names.foldr insert others

def erase (name : String) (names : List String) : List String :=
  names.filter (· ≠ name)

@[simp] theorem mem_insert {name other : String} {names : List String} :
    other ∈ insert name names ↔ other = name ∨ other ∈ names := by
  induction names with
  | nil => simp [insert]
  | cons first rest ih =>
      unfold insert
      split
      · simp
      · split
        · rename_i h
          simp [h]
        · simp only [List.mem_cons, ih]
          grind

@[simp] theorem mem_union {name : String} {names others : List String} :
    name ∈ union names others ↔ name ∈ names ∨ name ∈ others := by
  induction names with
  | nil => simp [union]
  | cons first rest ih =>
      simp only [union, List.foldr_cons] at ih ⊢
      simp [ih, or_assoc]

@[simp] theorem mem_erase {name other : String} {names : List String} :
    other ∈ erase name names ↔ other ∈ names ∧ other ≠ name := by
  simp [erase]

theorem pairwise_insert {name : String} {names : List String} (h : names.Pairwise (· < ·)) :
    (insert name names).Pairwise (· < ·) := by
  induction names with
  | nil => simp [insert]
  | cons first rest ih =>
      rw [List.pairwise_cons] at h
      unfold insert
      split
      · rename_i hlt
        refine List.pairwise_cons.2 ⟨?_, List.pairwise_cons.2 h⟩
        intro other hmem
        rcases List.mem_cons.1 hmem with rfl | hmem
        · exact hlt
        · exact String.lt_trans hlt (h.1 other hmem)
      · split
        · exact List.pairwise_cons.2 h
        · rename_i hlt hne
          refine List.pairwise_cons.2 ⟨?_, ih h.2⟩
          intro other hmem
          rcases mem_insert.1 hmem with rfl | hmem
          · have hle := String.not_lt.1 hlt
            by_cases hgt : first < other
            · exact hgt
            · exact absurd (String.le_antisymm (String.not_lt.1 hgt) hle) hne
          · exact h.1 other hmem

theorem pairwise_union {names others : List String} (h : others.Pairwise (· < ·)) :
    (union names others).Pairwise (· < ·) := by
  induction names with
  | nil => exact h
  | cons first rest ih => exact pairwise_insert ih

theorem pairwise_erase {name : String} {names : List String} (h : names.Pairwise (· < ·)) :
    (erase name names).Pairwise (· < ·) :=
  h.filter _

end Secant.Names
