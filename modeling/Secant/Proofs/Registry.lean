import Mathlib.Data.List.Nodup
import Secant.Command

/-!
Which command a line runs. Commands may be registered in any number and order; they are held against
a line by the bytes of their names, the longest name first, and those with names of one length in
the order in which they were registered. A line begins with only one text of each length, so two
commands of one length that match it have the same name. Thus the command that is run has the
longest name of those that match and is the first one of that name, and where no name is registered
twice the order of the registrations makes no difference.
-/

namespace Secant

/-! ### What stands at the front of a line -/

theorem eq_of_toList_eq_append {name other : String} {more : List Char}
    (h : other.toList = name.toList ++ more) (hsize : name.utf8ByteSize = other.utf8ByteSize) :
    name = other := by
  have hother : other = name ++ String.ofList more := by
    rw [← String.toList_inj, h, String.toList_append, String.toList_ofList]
  have hmore : (String.ofList more).utf8ByteSize = 0 := by
    rw [hother, String.utf8ByteSize_append] at hsize
    omega
  rw [hother, String.utf8ByteSize_eq_zero_iff.1 hmore, String.append_empty]

theorem eq_of_append_eq {name other rest rest' : String} (h : name ++ rest = other ++ rest')
    (hsize : name.utf8ByteSize = other.utf8ByteSize) : name = other := by
  have hlists := congrArg String.toList h
  rw [String.toList_append, String.toList_append] at hlists
  rcases List.append_eq_append_iff.1 hlists with ⟨more, hmore, -⟩ | ⟨more, hmore, -⟩
  · exact eq_of_toList_eq_append hmore hsize
  · exact (eq_of_toList_eq_append hmore hsize.symm).symm

namespace Command

variable {command other : Command} {line : String}

def width (command : Command) : Nat :=
  command.name.utf8ByteSize

/-- The line is the name of the command, or, if the command takes arguments, begins with the name
and a blank behind it. -/
def Matches (command : Command) (line : String) : Prop :=
  line = command.name ∨
    command.takesArguments = true ∧ ∃ rest, line = command.name ++ " " ++ rest

theorem exists_append_of_prefix {front : List Char} (h : front <+: line.toList) :
    ∃ rest, line = String.ofList front ++ rest := by
  obtain ⟨rest, hrest⟩ := h
  refine ⟨String.ofList rest, ?_⟩
  rw [← String.ofList_append, hrest, String.ofList_toList]

theorem matchesLine_iff : command.matchesLine line = true ↔ command.Matches line := by
  rw [matchesLine, Matches, Bool.or_eq_true, Bool.and_eq_true, beq_iff_eq,
    List.isPrefixOf_iff_prefix]
  refine or_congr_right (and_congr_right fun _ => ⟨fun h => ?_, ?_⟩)
  · obtain ⟨rest, hrest⟩ := exists_append_of_prefix h
    refine ⟨rest, ?_⟩
    rw [hrest, String.ofList_append, String.ofList_toList]
  · rintro ⟨rest, rfl⟩
    simp

/-- What a command is given is what stands behind its name, without the blanks at the ends. -/
theorem Matches.exists_rest (h : command.Matches line) :
    ∃ rest, line = command.name ++ rest ∧ command.arguments line = Text.trim rest := by
  have hrest : ∃ rest, line = command.name ++ rest := by
    rcases h with rfl | ⟨-, rest, rfl⟩
    · exact ⟨"", String.append_empty.symm⟩
    · exact ⟨" " ++ rest, String.append_assoc⟩
  obtain ⟨rest, rfl⟩ := hrest
  refine ⟨rest, rfl, ?_⟩
  rw [arguments, String.toList_append, ← String.length_toList, List.drop_left, String.ofList_toList]

theorem Matches.name_eq (h : command.Matches line) (hother : other.Matches line)
    (hwidth : command.width = other.width) : command.name = other.name := by
  obtain ⟨rest, hrest, -⟩ := h.exists_rest
  obtain ⟨rest', hrest', -⟩ := hother.exists_rest
  exact eq_of_append_eq (hrest.symm.trans hrest') hwidth

end Command

namespace Registry

/-! ### The order of the commands -/

def ofList (commands : List Command) : Registry :=
  commands.foldl register empty

theorem perm_insert (command : Command) (commands : List Command) :
    (insert command commands).Perm (command :: commands) := by
  induction commands with
  | nil => exact .refl _
  | cons first rest ih =>
      unfold insert
      split
      · exact .refl _
      · exact (ih.cons first).trans (.swap command first rest)

/-- A new command comes behind those whose names are as long as its own. -/
theorem filter_insert (command : Command) {commands : List Command}
    (h : commands.Pairwise fun a b => b.width ≤ a.width) (n : Nat) :
    (insert command commands).filter (·.width = n) =
      commands.filter (·.width = n) ++ [command].filter (·.width = n) := by
  induction commands with
  | nil => rfl
  | cons first rest ih =>
      obtain ⟨hfirst, hrest⟩ := List.pairwise_cons.1 h
      unfold insert
      split
      · rename_i hlt
        -- From here on all names are shorter than the new one.
        have hnone : command.width = n → (first :: rest).filter (·.width = n) = [] := by
          rintro rfl
          refine List.filter_eq_nil_iff.2 fun other hmem => ?_
          have hle : other.width ≤ first.width := by
            rcases List.mem_cons.1 hmem with rfl | hmem
            · exact Nat.le_refl _
            · exact hfirst other hmem
          have hlt : first.width < command.width := hlt
          simp only [decide_eq_true_eq]
          omega
        by_cases hn : command.width = n
        · rw [List.filter_cons_of_pos (by simpa using hn), hnone hn]
          simp [hn]
        · simp [hn]
      · rw [List.filter_cons, List.filter_cons, ih hrest]
        split <;> rfl

theorem perm_foldl_register (registry : Registry) (commands : List Command) :
    (commands.foldl register registry).commands.Perm (registry.commands ++ commands) := by
  induction commands generalizing registry with
  | nil => simp
  | cons command rest ih =>
      refine (ih (registry.register command)).trans ?_
      exact ((perm_insert command registry.commands).append_right rest).trans
        List.perm_middle.symm

theorem filter_foldl_register (registry : Registry) (commands : List Command) (n : Nat) :
    (commands.foldl register registry).commands.filter (·.width = n) =
      registry.commands.filter (·.width = n) ++ commands.filter (·.width = n) := by
  induction commands generalizing registry with
  | nil => simp
  | cons command rest ih =>
      rw [List.foldl_cons, ih, register, filter_insert command registry.descending,
        List.append_assoc, ← List.filter_append, List.singleton_append]

theorem perm_ofList (commands : List Command) : (ofList commands).commands.Perm commands :=
  perm_foldl_register empty commands

theorem filter_ofList (commands : List Command) (n : Nat) :
    (ofList commands).commands.filter (·.width = n) = commands.filter (·.width = n) :=
  filter_foldl_register empty commands n

/-! ### The command that is run -/

/-- Of the commands that the line matches this one has the longest name, and it is the first of them
that has this name. -/
structure Chooses (commands : List Command) (line : String) (command : Command) : Prop where
  isMatch : command.Matches line
  longest : ∀ other ∈ commands, other.Matches line → other.width ≤ command.width
  first : ∃ before after, commands = before ++ command :: after ∧
    ∀ other ∈ before, other.Matches line → other.name ≠ command.name

theorem Chooses.mem {commands : List Command} {line : String} {command : Command}
    (h : Chooses commands line command) : command ∈ commands := by
  obtain ⟨before, after, rfl, -⟩ := h.first
  simp

theorem chooses_of_find? {commands : List Command} {line : String} {command : Command}
    (h : (ofList commands).commands.find? (·.matchesLine line) = some command) :
    Chooses commands line command := by
  obtain ⟨hmatches, front, back, hsplit, hfront⟩ := List.find?_eq_some_iff_append.1 h
  have hnot : ∀ other ∈ front, ¬other.Matches line := fun other hmem hother => by
    simpa [Command.matchesLine_iff.2 hother] using hfront other hmem
  refine ⟨Command.matchesLine_iff.1 hmatches, fun other hmem hother => ?_, ?_⟩
  · -- Behind the first match no name is longer, and before it there is no match.
    have hdescending := (ofList commands).descending
    rw [hsplit] at hdescending
    have hback := (List.pairwise_cons.1 (List.pairwise_append.1 hdescending).2.1).1
    rw [← (perm_ofList commands).mem_iff, hsplit, List.mem_append, List.mem_cons] at hmem
    rcases hmem with hmem | rfl | hmem
    · exact absurd hother (hnot other hmem)
    · exact Nat.le_refl _
    · exact hback other hmem
  · -- Those with names of this length stand in the registry as they were registered.
    have hsame := filter_ofList commands command.width
    rw [hsplit, List.filter_append, List.filter_cons_of_pos (by simp)] at hsame
    obtain ⟨before, rest, rfl, hbefore, hrest⟩ := List.filter_eq_append_iff.1 hsame.symm
    obtain ⟨between, after, rfl, hbetween, -, -⟩ := List.filter_eq_cons_iff.1 hrest
    refine ⟨before ++ between, after, (List.append_assoc _ _ _).symm, ?_⟩
    intro other hmem hother hname
    have hwidth : other.width = command.width := congrArg String.utf8ByteSize hname
    rcases List.mem_append.1 hmem with hmem | hmem
    · have hfiltered : other ∈ front.filter (·.width = command.width) := by
        rw [← hbefore]
        exact List.mem_filter.2 ⟨hmem, by simpa using hwidth⟩
      exact hnot other (List.mem_filter.1 hfiltered).1 hother
    · exact hbetween other hmem (by simpa using hwidth)

/-- A line runs the command that is chosen for it, or, if it matches none, is no command. -/
theorem execute_ofList_cases (commands : List Command) (line : String) (context : CommandContext) :
    (∃ command rest, Chooses commands line command ∧ line = command.name ++ rest ∧
        (ofList commands).execute line context = command.run (Text.trim rest) context) ∨
      ((∀ command ∈ commands, ¬command.Matches line) ∧
        (ofList commands).execute line context = (.decline, context)) := by
  unfold execute
  split
  · rename_i command hfind
    have hchooses := chooses_of_find? hfind
    obtain ⟨rest, hline, harguments⟩ := hchooses.isMatch.exists_rest
    exact .inl ⟨command, rest, hchooses, hline, by rw [harguments]⟩
  · rename_i hfind
    refine .inr ⟨fun command hmem hmatches => ?_, rfl⟩
    rw [← (perm_ofList commands).mem_iff] at hmem
    exact List.find?_eq_none.1 hfind command hmem (Command.matchesLine_iff.2 hmatches)

/-- Where no name is registered twice, there is only one command to choose, whatever the order. -/
theorem Chooses.eq {commands others : List Command} {line : String} {command other : Command}
    (h : Chooses commands line command) (h' : Chooses others line other)
    (hperm : commands.Perm others) (hnodup : (commands.map (·.name)).Nodup) : command = other := by
  have hmem := hperm.mem_iff.2 h'.mem
  have hle := h.longest other hmem h'.isMatch
  have hge := h'.longest command (hperm.mem_iff.1 h.mem) h.isMatch
  have hname := h.isMatch.name_eq h'.isMatch (Nat.le_antisymm hge hle)
  exact List.inj_on_of_nodup_map hnodup h.mem hmem hname

theorem execute_ofList_perm {commands others : List Command} (hperm : commands.Perm others)
    (hnodup : (commands.map (·.name)).Nodup) (line : String) (context : CommandContext) :
    (ofList commands).execute line context = (ofList others).execute line context := by
  rcases execute_ofList_cases commands line context with
    ⟨command, rest, hchooses, hline, hrun⟩ | ⟨hnone, hrun⟩
  · rcases execute_ofList_cases others line context with
      ⟨other, rest', hchooses', hline', hrun'⟩ | ⟨hnone', -⟩
    · obtain rfl := hchooses.eq hchooses' hperm hnodup
      obtain rfl : rest = rest' := (String.append_right_inj _).1 (hline.symm.trans hline')
      rw [hrun, hrun']
    · exact absurd hchooses.isMatch (hnone' command (hperm.mem_iff.1 hchooses.mem))
  · rcases execute_ofList_cases others line context with
      ⟨other, rest', hchooses', -, -⟩ | ⟨-, hrun'⟩
    · exact absurd hchooses'.isMatch (hnone other (hperm.mem_iff.2 hchooses'.mem))
    · rw [hrun, hrun']

/-- The commands are listed by the bytes of their names, the longest first, and those of one length
as they were registered. A line runs, with what stands behind the name in it, the command chosen for
it: of those that it matches one with the longest name, the first that has this name; and if it
matches none, it is declined and the context left as it was. Where no name is registered twice, this
is the same for every order of the registrations. -/
theorem execute_ofList (commands : List Command) :
    (∃ ordered : List Command, (ofList commands).names = ordered.map (·.name) ∧
        ordered.Perm commands ∧ (ordered.Pairwise fun a b => b.width ≤ a.width) ∧
          ∀ n, ordered.filter (·.width = n) = commands.filter (·.width = n)) ∧
      (∀ line context,
        (∃ command rest, Chooses commands line command ∧ line = command.name ++ rest ∧
            (ofList commands).execute line context = command.run (Text.trim rest) context) ∨
          ((∀ command ∈ commands, ¬command.Matches line) ∧
            (ofList commands).execute line context = (.decline, context))) ∧
      ∀ others : List Command, commands.Perm others → (commands.map (·.name)).Nodup →
        ∀ line context,
          (ofList commands).execute line context = (ofList others).execute line context :=
  ⟨⟨_, rfl, perm_ofList commands, (ofList commands).descending, filter_ofList commands⟩,
    execute_ofList_cases commands,
    fun _ hperm hnodup line context => execute_ofList_perm hperm hnodup line context⟩

def echoing (name : String) (takesArguments : Bool) : Command where
  name := name
  takesArguments := takesArguments
  run argument context := (.say (.plain s!"{name}[{argument}]"), context)

/-- The line matches two of the names, and the longer one ends with a blank. -/
theorem execute_ofList_echoing :
    [echoing "é" true, echoing "é " true, echoing "" true].Perm
        [echoing "" true, echoing "é " true, echoing "é" true] ∧
      ([echoing "é" true, echoing "é " true, echoing "" true].map (·.name)).Nodup ∧
      ∀ context, (ofList [echoing "" true, echoing "é " true, echoing "é" true]).execute
        "é  x " context = (.say (.plain "é [x]"), context) := by
  have hperm : [echoing "é" true, echoing "é " true, echoing "" true].Perm
      [echoing "" true, echoing "é " true, echoing "é" true] :=
    (List.reverse_perm [echoing "é" true, echoing "é " true, echoing "" true]).symm
  have hnodup : ([echoing "é" true, echoing "é " true, echoing "" true].map (·.name)).Nodup := by
    decide
  refine ⟨hperm, hnodup, fun context => ?_⟩
  rw [← (execute_ofList _).2.2 _ hperm hnodup]
  rfl

end Registry

end Secant
