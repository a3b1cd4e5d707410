/-!
Sets of characters given by closed ranges of code points, as the tables of character properties
list them. A table carries its order: its ranges are ascending and apart, so a search may stop at
the first range that begins above the code point it looks for.
-/

namespace Secant.Text

/-- The ranges `(first, last)` are ascending and apart. -/
def ascending : List (Nat × Nat) → Bool
  | [] => true
  | [(first, last)] => first ≤ last
  | (first, last) :: (next, stop) :: rest =>
      first ≤ last && last + 1 < next && ascending ((next, stop) :: rest)

def search : List (Nat × Nat) → Nat → Bool
  | [], _ => false
  | (first, last) :: rest, n => if n < first then false else n ≤ last || search rest n

structure Table where
  ranges : List (Nat × Nat)
  ascending_ranges : ascending ranges = true

def Table.covers (table : Table) (n : Nat) : Bool :=
  search table.ranges n

theorem ascending_of_cons {range : Nat × Nat} {rest : List (Nat × Nat)}
    (h : ascending (range :: rest) = true) : ascending rest = true := by
  cases rest with
  | nil => rfl
  | cons next rest =>
      simp only [ascending, Bool.and_eq_true] at h
      exact h.2

theorem first_le_last {range : Nat × Nat} {rest : List (Nat × Nat)}
    (h : ascending (range :: rest) = true) : range.1 ≤ range.2 := by
  cases rest with
  | nil => simpa [ascending] using h
  | cons next rest =>
      simp only [ascending, Bool.and_eq_true, decide_eq_true_eq] at h
      exact h.1.1

theorem last_lt_first {range : Nat × Nat} {rest : List (Nat × Nat)}
    (h : ascending (range :: rest) = true) : ∀ next ∈ rest, range.2 < next.1 := by
  induction rest generalizing range with
  | nil => simp
  | cons next rest ih =>
      have hnext := first_le_last (ascending_of_cons h)
      have hrest := ih (ascending_of_cons h)
      simp only [ascending, Bool.and_eq_true, decide_eq_true_eq] at h
      refine List.forall_mem_cons.2 ⟨by omega, fun later hmem => ?_⟩
      have hlater := hrest later hmem
      omega

theorem search_iff {ranges : List (Nat × Nat)} (h : ascending ranges = true) {n : Nat} :
    search ranges n = true ↔ ∃ range ∈ ranges, range.1 ≤ n ∧ n ≤ range.2 := by
  induction ranges with
  | nil => simp [search]
  | cons range rest ih =>
      obtain ⟨first, last⟩ := range
      have hvalid : first ≤ last := first_le_last h
      have hbehind : ∀ range ∈ rest, last < range.1 := last_lt_first h
      simp only [List.mem_cons, exists_eq_or_imp, ← ih (ascending_of_cons h), search]
      split
      · -- The search has passed the place: all that is behind begins above `last`.
        rename_i hlt
        have hnone : search rest n ≠ true := by
          rw [Ne, ih (ascending_of_cons h)]
          rintro ⟨range, hmem, hlow, -⟩
          have := hbehind range hmem
          omega
        simp only [hnone, or_false, Bool.false_eq_true, false_iff]
        omega
      · simp only [Bool.or_eq_true, decide_eq_true_eq]
        have hle : first ≤ n := by omega
        simp [hle]

/-- A table covers what is in one of its ranges, wherever that range stands. -/
theorem Table.covers_iff (table : Table) {n : Nat} :
    table.covers n = true ↔ ∃ range ∈ table.ranges, range.1 ≤ n ∧ n ≤ range.2 :=
  search_iff table.ascending_ranges

end Secant.Text
