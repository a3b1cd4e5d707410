import Secant.Options
import Secant.Proofs.Except
import Mathlib.Data.List.Nodup

/-!
All options can be written as arguments. Each flag has a word and some have a letter, letters may
share a dash, and a definition can be written in five ways, behind letters too. However these are
mixed, each definition is read with its own text, and what comes behind a double dash is the
expression.
-/

namespace Secant

theorem Definition.exists_cons_of_ofText {text : String} {definition : Definition}
    (h : Definition.ofText text = .ok definition) :
    ∃ first others, text.toList = first :: others ∧ first ≠ '=' := by
  rw [Definition.ofText] at h
  cases htext : text.toList with
  | nil => simp [htext] at h
  | cons first others =>
      refine ⟨first, others, rfl, ?_⟩
      rintro rfl
      have hname : Text.trim "" = "" := by decide
      simp [htext, hname] at h

namespace Options

/-! ### Writing arguments -/

def Flag.word : Flag → String
  | converse => "repl"
  | verbose => "verbose"
  | noColor => "no-color"
  | help => "help"
  | version => "version"

inductive Lettered
  | converse
  | verbose

def Lettered.letter : Lettered → Char
  | converse => 'r'
  | verbose => 'v'

def Lettered.flag : Lettered → Flag
  | converse => .converse
  | verbose => .verbose

/-- What is written together: a flag, flags behind one dash, or a definition, whose own letter may
stand behind those of flags. The text of a definition is an argument of its own, follows at once, or
follows an equals sign. -/
inductive Item
  | word (flag : Flag)
  | lettered (first : Lettered) (others : List Lettered)
  | apart (letters : List Lettered) (text : String)
  | joined (letters : List Lettered) (text : String)
  | equated (letters : List Lettered) (text : String)
  | wordApart (text : String)
  | wordEquated (text : String)

namespace Item

def dashed (letters : List Lettered) (behind : List Char) : String :=
  String.ofList ('-' :: (letters.map Lettered.letter ++ behind))

def arguments : Item → List String
  | word flag => ["--" ++ flag.word]
  | lettered first others => [dashed (first :: others) []]
  | apart letters text => [dashed letters ['D'], text]
  | joined letters text => [dashed letters ('D' :: text.toList)]
  | equated letters text => [dashed letters ('D' :: '=' :: text.toList)]
  | wordApart text => ["--define", text]
  | wordEquated text => ["--define=" ++ text]

def flags : Item → List Flag
  | word flag => [flag]
  | lettered first others => (first :: others).map Lettered.flag
  | apart letters _ | joined letters _ | equated letters _ => letters.map Lettered.flag
  | wordApart _ | wordEquated _ => []

def texts : Item → List String
  | word _ | lettered _ _ => []
  | apart _ text | joined _ text | equated _ text | wordApart text | wordEquated text => [text]

end Item

/-- The arguments behind all flags and definitions. -/
inductive Ending : Option String → List String → Prop
  | nothing : Ending .none []
  | escape (expression : Option String) : Ending expression ("--" :: expression.toList)

def flags (options : Options) : List Flag :=
  (if options.converse then [.converse] else []) ++ (if options.verbose then [.verbose] else []) ++
    if options.noColor then [.noColor] else []

/-- The texts of definitions, and arguments in which these stand in their order, each flag of the
options stands once, and the expression stands behind all of them. -/
inductive Written (options : Options) : List String → List String → Prop
  | intro {items : List Item} {ending : List String}
      (flags : (items.flatMap Item.flags).Perm options.flags)
      (ended : Ending options.expression ending) :
      Written options (items.flatMap Item.texts) (items.flatMap Item.arguments ++ ending)

theorem exists_written (options : Options) (texts : List String) :
    ∃ arguments, Written options texts arguments := by
  let items := options.flags.map Item.word ++ texts.map (Item.apart [])
  have hnone : texts.flatMap (fun _ => ([] : List Flag)) = [] := by simp
  have hflags : items.flatMap Item.flags = options.flags := by
    simp [items, List.flatMap_append, List.flatMap_map, Item.flags, hnone]
  have htexts : items.flatMap Item.texts = texts := by
    simp [items, List.flatMap_append, List.flatMap_map, Item.texts]
  have hwritten := Written.intro (.of_eq hflags) (.escape options.expression)
  rw [htexts] at hwritten
  exact ⟨_, hwritten⟩

/-! ### Flags and definitions so far -/

structure Raisable (flags : List Flag) : Prop where
  nodup : flags.Nodup
  noHelp : .help ∉ flags
  noVersion : .version ∉ flags

theorem Raisable.of_append {flags more : List Flag} (h : Raisable (flags ++ more)) :
    Raisable flags where
  nodup := List.Nodup.of_append_left h.nodup
  noHelp hmem := h.noHelp (List.mem_append_left more hmem)
  noVersion hmem := h.noVersion (List.mem_append_left more hmem)

theorem Raisable.of_perm {flags flags' : List Flag} (h : Raisable flags)
    (hperm : flags'.Perm flags) : Raisable flags' where
  nodup := hperm.nodup_iff.2 h.nodup
  noHelp := mt hperm.mem_iff.1 h.noHelp
  noVersion := mt hperm.mem_iff.1 h.noVersion

theorem raisable_flags (options : Options) : Raisable options.flags := by
  obtain ⟨_, _, converse, verbose, noColor⟩ := options
  cases converse <;> cases verbose <;> cases noColor <;> constructor <;> simp [flags]

def given (flags : List Flag) (defines : List Definition) : Options :=
  ⟨.none, defines, .converse ∈ flags, .verbose ∈ flags, .noColor ∈ flags⟩

theorem given_of_perm {options : Options} {flags : List Flag} (h : flags.Perm options.flags) :
    given flags options.defines = { options with expression := .none } := by
  obtain ⟨_, _, converse, verbose, noColor⟩ := options
  simp only [given, h.mem_iff]
  cases converse <;> cases verbose <;> cases noColor <;> rfl

theorem mapM_singleton_eq_ok_iff {text : String} {added : List Definition} :
    [text].mapM Definition.ofText = .ok added ↔
      ∃ definition, Definition.ofText text = .ok definition ∧ added = [definition] := by
  cases h : Definition.ofText text with
  | ok definition => simp [List.mapM_cons, h, eq_comm]
  | error error => simp [List.mapM_cons, h]

variable {flags : List Flag} {defines : List Definition}

theorem define_given {text : String} {definition : Definition}
    (h : Definition.ofText text = .ok definition) :
    (given flags defines).define text = .ok (given flags (defines ++ [definition])) := by
  rw [define, h]
  rfl

namespace Progress

variable {progress : Progress} {options : Options}

theorem raise_given {flag : Flag} (h : Raisable (flags ++ [flag])) :
    raise (given flags defines) flag = .ok (given (flags ++ [flag]) defines) := by
  have hnew : flag ∉ flags := by
    intro hmem
    exact List.disjoint_of_nodup_append h.nodup hmem (List.mem_singleton_self flag)
  have hlast : flag ∈ flags ++ [flag] := List.mem_append_right flags (List.mem_singleton_self flag)
  cases flag with
  | converse | verbose | noColor => simp [raise, given, once, hnew]
  | help => exact absurd hlast h.noHelp
  | version => exact absurd hlast h.noVersion

def settled (options : Options) : Progress :=
  ⟨options, .nothing, false⟩

/-- The options are those, once a definition that has come is read. -/
def ComesTo (progress : Progress) (options : Options) : Prop :=
  progress.settle = .ok (settled options)

theorem comesTo_settled (options : Options) : (settled options).ComesTo options :=
  rfl

theorem comesTo_unread {flags : List Flag} {defines : List Definition} {text : String}
    {definition : Definition} (h : Definition.ofText text = .ok definition) :
    (⟨given flags defines, .unread text, false⟩ : Progress).ComesTo
      (given flags (defines ++ [definition])) := by
  change (given flags defines).define text >>= _ = _
  rw [define_given h]
  rfl

namespace ComesTo

theorem eq_settled_or (h : progress.ComesTo options) :
    progress = settled options ∨
      ∃ before text, before.define text = .ok options ∧
        progress = ⟨before, .unread text, false⟩ := by
  obtain ⟨before, _ | _ | text, escaped⟩ := progress
  · cases h
    exact .inl rfl
  · cases h
  · obtain ⟨after, hdefine, h⟩ := bind_eq_ok_iff.1 h
    cases h
    exact .inr ⟨before, text, hdefine, rfl⟩

theorem escaped (h : progress.ComesTo options) : progress.escaped = false := by
  obtain rfl | ⟨before, text, -, rfl⟩ := h.eq_settled_or <;> rfl

theorem expression (h : progress.ComesTo options) :
    progress.options.expression = options.expression := by
  obtain rfl | ⟨before, text, hdefine, rfl⟩ := h.eq_settled_or
  · rfl
  · rw [define] at hdefine
    split at hdefine
    · cases hdefine
      rfl
    · cases hdefine

theorem settle_escaped (h : progress.ComesTo options) :
    ({ progress with escaped := true } : Progress).settle = .ok ⟨options, .nothing, true⟩ := by
  obtain rfl | ⟨before, text, hdefine, rfl⟩ := h.eq_settled_or
  · rfl
  · exact bind_eq_ok_iff.2 ⟨options, hdefine, rfl⟩

theorem take_escaped (h : progress.ComesTo options) (hnone : options.expression = .none)
    (text : String) :
    ({ progress with escaped := true } : Progress).take text =
      .ok ⟨{ options with expression := some text }, .nothing, true⟩ := by
  rw [take, if_pos rfl, takeExpression]
  split
  · rename_i heq
    rw [h.expression.trans hnone] at heq
    cases heq
  · exact bind_eq_ok_iff.2 ⟨_, h.settle_escaped, rfl⟩

section

variable (h : progress.ComesTo (given flags defines))

include h

theorem takeFlag {flag : Flag} (hraise : Raisable (flags ++ [flag])) :
    progress.takeFlag flag = .ok (settled (given (flags ++ [flag]) defines)) := by
  rw [Progress.takeFlag, h]
  change raise (given flags defines) flag >>= _ = _
  rw [raise_given hraise]
  rfl

theorem takeDefinition {text : String} {definition : Definition}
    (htext : Definition.ofText text = .ok definition) :
    progress.takeDefinition text = .ok (settled (given flags (defines ++ [definition]))) := by
  rw [Progress.takeDefinition, h]
  change (given flags defines).define text >>= _ = _
  rw [define_given htext]
  rfl

theorem announce : progress.announce = .ok ⟨given flags defines, .toCome, false⟩ := by
  rw [Progress.announce, h]
  rfl

/-- Letters raise their flags, and the letters behind them are taken from there. -/
theorem takeLetters {letters : List Lettered}
    (hraise : Raisable (flags ++ letters.map Lettered.flag)) :
    ∃ next : Progress, next.ComesTo (given (flags ++ letters.map Lettered.flag) defines) ∧
      ∀ behind, progress.takeLetters (letters.map Lettered.letter ++ behind) =
        next.takeLetters behind := by
  induction letters generalizing progress flags with
  | nil => exact ⟨progress, by simpa using h, fun behind => rfl⟩
  | cons letter letters ih =>
      -- The first letter settles what was announced, so all others start from settled progress.
      rw [List.map_cons, List.append_cons] at hraise
      obtain ⟨next, hnext, htake⟩ := ih (comesTo_settled _) hraise
      refine ⟨next, by rwa [List.map_cons, List.append_cons], fun behind => ?_⟩
      have hfirst : progress.takeLetters
            (letter.letter :: (letters.map Lettered.letter ++ behind)) =
          progress.takeFlag letter.flag >>= fun progress =>
            progress.takeLetters (letters.map Lettered.letter ++ behind) := by
        cases letter <;> rfl
      rw [List.map_cons, List.cons_append, hfirst, h.takeFlag hraise.of_append]
      exact htake behind

end

end ComesTo

/-! ### Arguments, one after the other -/

theorem take_word (h : progress.escaped = false) (flag : Flag) :
    progress.take ("--" ++ flag.word) = progress.takeFlag flag := by
  rw [take, h, if_neg Bool.false_ne_true]
  cases flag <;> rfl

theorem take_letters (h : progress.escaped = false) {first : Char} (hfirst : first ≠ '-')
    (others : List Char) :
    progress.take (String.ofList ('-' :: first :: others)) =
      progress.takeLetters (first :: others) := by
  rw [take, h, if_neg Bool.false_ne_true, String.toList_ofList]
  split
  · rename_i heq
    simp [hfirst] at heq
  · rename_i heq
    simp [hfirst] at heq
  · rename_i heq
    cases heq
    rfl
  · rename_i _ _ hnot
    exact absurd rfl (hnot first others)

theorem take_dashed (h : progress.escaped = false) (letters : List Lettered) (behind : List Char) :
    progress.take (Item.dashed letters ('D' :: behind)) =
      progress.takeLetters (letters.map Lettered.letter ++ 'D' :: behind) := by
  cases letters with
  | nil => exact take_letters h (by decide) behind
  | cons letter letters => exact take_letters h (by cases letter <;> decide) _

theorem take_announced (options : Options) {text : String} (h : text.toList.head? ≠ some '-') :
    (⟨options, .toCome, false⟩ : Progress).take text = .ok ⟨options, .unread text, false⟩ := by
  rw [take, if_neg Bool.false_ne_true]
  split
  · rename_i heq
    simp [heq] at h
  · rename_i heq
    simp [heq] at h
  · rename_i heq
    simp [heq] at h
  · rfl

/-- A definition directly behind its letter does not begin with an equals sign, so none is
dropped. -/
theorem takeLetters_define {text : String} {definition : Definition}
    (h : Definition.ofText text = .ok definition) :
    progress.takeLetters ('D' :: text.toList) = progress.takeDefinition text := by
  obtain ⟨first, others, heq, hfirst⟩ := Definition.exists_cons_of_ofText h
  rw [heq, takeLetters, ← heq, String.ofList_toList]
  · simp
  · rintro value hvalue
    exact hfirst (List.cons.inj hvalue).1

theorem take_define_word (h : progress.escaped = false) :
    progress.take "--define" = progress.announce := by
  rw [take, h, if_neg Bool.false_ne_true]
  rfl

theorem take_define_equals (h : progress.escaped = false) (text : String) :
    progress.take ("--define=" ++ text) = progress.takeDefinition text := by
  rw [take, h, if_neg Bool.false_ne_true, String.toList_append]
  change progress.takeDefinition (String.ofList text.toList) = _
  rw [String.ofList_toList]

namespace ComesTo

variable (h : progress.ComesTo (given flags defines))

include h

theorem take_dashed {letters : List Lettered}
    (hraise : Raisable (flags ++ letters.map Lettered.flag)) :
    ∃ next : Progress, next.ComesTo (given (flags ++ letters.map Lettered.flag) defines) ∧
      ∀ behind, progress.take (Item.dashed letters ('D' :: behind)) =
        next.takeLetters ('D' :: behind) := by
  obtain ⟨next, hnext, htake⟩ := h.takeLetters hraise
  exact ⟨next, hnext, fun behind => (Progress.take_dashed h.escaped letters behind).trans (htake _)⟩

theorem take_apart {text : String} {definition : Definition}
    (htext : Definition.ofText text = .ok definition) (hplain : text.toList.head? ≠ some '-') :
    ∃ next : Progress, next.ComesTo (given flags (defines ++ [definition])) ∧
      progress.announce >>= (take · text) = .ok next := by
  -- The text is not read here, but with the next argument or at the end.
  refine ⟨_, comesTo_unread htext, ?_⟩
  rw [h.announce]
  exact take_announced _ hplain

/-- One item more, its flags raised and its text read. -/
theorem take_item {item : Item} (hraise : Raisable (flags ++ item.flags))
    {added : List Definition} (htexts : item.texts.mapM Definition.ofText = .ok added)
    (hplain : ∀ text ∈ item.texts, text.toList.head? ≠ some '-') :
    ∃ next : Progress, next.ComesTo (given (flags ++ item.flags) (defines ++ added)) ∧
      item.arguments.foldlM take progress = .ok next := by
  cases item with
  | word flag =>
      obtain rfl : added = [] := (Except.ok.inj htexts).symm
      refine ⟨_, by rw [List.append_nil]; exact comesTo_settled _, ?_⟩
      simp only [Item.arguments, List.foldlM_cons, List.foldlM_nil, bind_pure]
      rw [take_word h.escaped, h.takeFlag hraise]
      rfl
  | lettered first others =>
      obtain rfl : added = [] := (Except.ok.inj htexts).symm
      obtain ⟨next, hnext, htake⟩ := h.takeLetters hraise
      refine ⟨next, by rwa [List.append_nil], ?_⟩
      simp only [Item.arguments, List.foldlM_cons, List.foldlM_nil, bind_pure]
      have hfirst : first.letter ≠ '-' := by cases first <;> decide
      exact (take_letters h.escaped hfirst _).trans (htake [])
  | apart letters text =>
      obtain ⟨definition, htext, rfl⟩ := mapM_singleton_eq_ok_iff.1 htexts
      obtain ⟨next, hnext, htake⟩ := h.take_dashed hraise
      obtain ⟨last, hlast, happart⟩ := hnext.take_apart htext (hplain _ (List.mem_singleton_self _))
      refine ⟨last, hlast, ?_⟩
      simp only [Item.arguments, List.foldlM_cons, List.foldlM_nil, bind_pure, htake]
      exact happart
  | joined letters text =>
      obtain ⟨definition, htext, rfl⟩ := mapM_singleton_eq_ok_iff.1 htexts
      obtain ⟨next, hnext, htake⟩ := h.take_dashed hraise
      refine ⟨_, comesTo_settled _, ?_⟩
      simp only [Item.arguments, List.foldlM_cons, List.foldlM_nil, bind_pure, htake]
      exact (takeLetters_define htext).trans (hnext.takeDefinition htext)
  | equated letters text =>
      obtain ⟨definition, htext, rfl⟩ := mapM_singleton_eq_ok_iff.1 htexts
      obtain ⟨next, hnext, htake⟩ := h.take_dashed hraise
      refine ⟨_, comesTo_settled _, ?_⟩
      simp only [Item.arguments, List.foldlM_cons, List.foldlM_nil, bind_pure, htake]
      -- The equals sign is dropped, and what is left is the text.
      change next.takeDefinition (String.ofList text.toList) = _
      rw [String.ofList_toList]
      exact hnext.takeDefinition htext
  | wordApart text =>
      obtain ⟨definition, htext, rfl⟩ := mapM_singleton_eq_ok_iff.1 htexts
      obtain ⟨last, hlast, happart⟩ := h.take_apart htext (hplain _ (List.mem_singleton_self _))
      refine ⟨last, by rwa [Item.flags, List.append_nil], ?_⟩
      simp only [Item.arguments, List.foldlM_cons, List.foldlM_nil, bind_pure]
      rwa [take_define_word h.escaped]
  | wordEquated text =>
      obtain ⟨definition, htext, rfl⟩ := mapM_singleton_eq_ok_iff.1 htexts
      refine ⟨_, by rw [Item.flags, List.append_nil]; exact comesTo_settled _, ?_⟩
      simp only [Item.arguments, List.foldlM_cons, List.foldlM_nil, bind_pure]
      rw [take_define_equals h.escaped, h.takeDefinition htext]

theorem take_items {items : List Item}
    (hraise : Raisable (flags ++ items.flatMap Item.flags)) {added : List Definition}
    (htexts : (items.flatMap Item.texts).mapM Definition.ofText = .ok added)
    (hplain : ∀ text ∈ items.flatMap Item.texts, text.toList.head? ≠ some '-') :
    ∃ next : Progress,
      next.ComesTo (given (flags ++ items.flatMap Item.flags) (defines ++ added)) ∧
      (items.flatMap Item.arguments).foldlM take progress = .ok next := by
  induction items generalizing progress flags defines added with
  | nil =>
      cases htexts
      exact ⟨progress, by simpa using h, rfl⟩
  | cons item items ih =>
      rw [List.flatMap_cons, List.mapM_append, bind_eq_ok_iff] at htexts
      obtain ⟨first, hfirst, htexts⟩ := htexts
      obtain ⟨others, hothers, heq⟩ := bind_eq_ok_iff.1 htexts
      cases heq
      simp only [List.flatMap_cons, List.forall_mem_append, ← List.append_assoc] at hplain hraise ⊢
      obtain ⟨next, hnext, htake⟩ := h.take_item hraise.of_append hfirst hplain.1
      obtain ⟨last, hlast, htakes⟩ := ih hnext hraise hothers hplain.2
      refine ⟨last, hlast, ?_⟩
      rw [List.foldlM_append, htake]
      exact htakes

end ComesTo

theorem ComesTo.take_ending {ending : List String}
    (h : progress.ComesTo { options with expression := .none })
    (hending : Ending options.expression ending) :
    ∃ last : Progress, ending.foldlM take progress >>= settle = .ok last ∧
      last.options = options := by
  obtain ⟨expression, _, _, _, _⟩ := options
  cases hending with
  | nothing => exact ⟨_, h, rfl⟩
  | escape =>
      have hescape : progress.take "--" = .ok { progress with escaped := true } := by
        simp [take, h.escaped]
      rw [List.foldlM_cons, hescape]
      cases expression with
      | none => exact ⟨_, h.settle_escaped, rfl⟩
      | some text =>
          refine ⟨⟨⟨some text, _, _, _, _⟩, .nothing, true⟩, ?_, rfl⟩
          have htake := h.take_escaped rfl text
          change [text].foldlM take _ >>= _ = _
          rw [List.foldlM_cons, htake]
          rfl

end Progress

/-- All options are accepted as they were meant, in whichever way they are written. A definition in
an argument of its own must not look like a flag. -/
theorem ofArguments_of_written {options : Options} {texts : List String}
    (htexts : texts.mapM Definition.ofText = .ok options.defines)
    (hplain : ∀ text ∈ texts, text.toList.head? ≠ some '-')
    (hconverse : options.converse = true → options.expression = .none) :
    (∃ arguments, Written options texts arguments) ∧
      ∀ arguments, Written options texts arguments → ofArguments arguments = .ok options := by
  refine ⟨exists_written options texts, ?_⟩
  intro arguments hwritten
  obtain @⟨items, ending, hflags, hending⟩ := hwritten
  obtain ⟨next, hnext, htake⟩ := (Progress.comesTo_settled (given [] [])).take_items
    ((raisable_flags options).of_perm hflags) htexts hplain
  rw [List.nil_append, List.nil_append, given_of_perm hflags] at hnext
  obtain ⟨last, hlast, hoptions⟩ := hnext.take_ending hending
  have hread : (items.flatMap Item.arguments ++ ending).foldlM Progress.take .start >>=
      Progress.settle = .ok last := by
    rw [List.foldlM_append, bind_assoc]
    exact bind_eq_ok_iff.2 ⟨next, htake, hlast⟩
  obtain ⟨progress, hprogress, hsettle⟩ := bind_eq_ok_iff.1 hread
  rw [ofArguments, hprogress]
  change progress.settle >>= _ = _
  rw [hsettle]
  change (if last.options.converse ∧ last.options.expression.isSome then _ else _) = _
  -- What was read are the options, and the one thing refused at the very end is ruled out.
  rw [hoptions, if_neg]
  · rfl
  · rintro ⟨hconverses, hsome⟩
    rw [hconverse hconverses] at hsome
    cases hsome

theorem ofArguments_of_written_mixed :
    ofArguments ["-vDx=1", "--no-color", "-D", "y=2,5", "--define=z=0", "--", "--repl"] =
      .ok ⟨some "--repl", [("x", Decimal.toFloat ⟨1, 0⟩), ("y", Decimal.toFloat ⟨25, -1⟩),
        ("z", Decimal.toFloat ⟨0, 0⟩)], false, true, true⟩ := by
  let items : List Item :=
    [.joined [.verbose] "x=1", .word .noColor, .apart [] "y=2,5", .wordEquated "z=0"]
  have hflags : (items.flatMap Item.flags).Perm [.verbose, .noColor] := by decide
  refine (ofArguments_of_written ?_ ?_ ?_).2 _
    (@Written.intro _ items _ hflags (.escape _))
  · rfl
  · decide
  · decide

end Options

end Secant
