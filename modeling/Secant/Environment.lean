import Secant.EvalError

/-!
Environments: finitely many names, each bound to a number. The bindings are held in ascending order
of their names, so that an environment is the same thing as its look-up: two environments that
answer every look-up alike are equal.
-/

namespace Secant

structure Environment where
  bindings : List (String × Float)
  ascending : bindings.Pairwise (fun a b => a.1 < b.1)

namespace Environment

def insertBinding (name : String) (value : Float) :
    List (String × Float) → List (String × Float)
  | [] => [(name, value)]
  | first :: rest =>
      if name < first.1 then (name, value) :: first :: rest
      else if name = first.1 then (name, value) :: rest
      else first :: insertBinding name value rest

theorem mem_of_mem_insertBinding {name : String} {value : Float} {b : String × Float}
    {bindings : List (String × Float)} (h : b ∈ insertBinding name value bindings) :
    b = (name, value) ∨ b ∈ bindings := by
  induction bindings with
  | nil => simpa [insertBinding] using h
  | cons first rest ih =>
      unfold insertBinding at h
      split at h
      · exact List.mem_cons.1 h
      · split at h
        · exact (List.mem_cons.1 h).imp_right (List.mem_cons_of_mem _)
        · rcases List.mem_cons.1 h with rfl | h
          · exact .inr List.mem_cons_self
          · exact (ih h).imp_right (List.mem_cons_of_mem _)

theorem ascending_insertBinding {name : String} {value : Float} {bindings : List (String × Float)}
    (h : bindings.Pairwise (fun a b => a.1 < b.1)) :
    (insertBinding name value bindings).Pairwise (fun a b => a.1 < b.1) := by
  induction bindings with
  | nil => simp [insertBinding]
  | cons first rest ih =>
      obtain ⟨hfirst, hrest⟩ := List.pairwise_cons.1 h
      unfold insertBinding
      split
      · rename_i hlt
        refine List.pairwise_cons.2 ⟨?_, h⟩
        intro b hmem
        rcases List.mem_cons.1 hmem with rfl | hmem
        · exact hlt
        · exact String.lt_trans hlt (hfirst b hmem)
      · split
        · rename_i heq
          exact List.pairwise_cons.2 ⟨fun b hmem => heq ▸ hfirst b hmem, hrest⟩
        · rename_i hlt hne
          refine List.pairwise_cons.2 ⟨?_, ih hrest⟩
          intro b hmem
          rcases mem_of_mem_insertBinding hmem with rfl | hmem
          · by_cases hgt : first.1 < name
            · exact hgt
            · exact absurd (String.le_antisymm (String.not_lt.1 hgt) (String.not_lt.1 hlt)) hne
          · exact hfirst b hmem

def empty : Environment :=
  ⟨[], .nil⟩

def define (env : Environment) (name : String) (value : Float) : Environment :=
  ⟨insertBinding name value env.bindings, ascending_insertBinding env.ascending⟩

def remove (env : Environment) (name : String) : Environment :=
  ⟨env.bindings.filter fun b => b.1 ≠ name, env.ascending.filter _⟩

def lookup (env : Environment) (name : String) : Option Float :=
  (env.bindings.find? fun b => b.1 == name).map (·.2)

def get (env : Environment) (name : String) : Except EvalError Float :=
  match env.lookup name with
  | some value => .ok value
  | none => .error (.undefinedVariable name)

def isDefined (env : Environment) (name : String) : Bool :=
  (env.lookup name).isSome

def names (env : Environment) : List String :=
  env.bindings.map (·.1)

def size (env : Environment) : Nat :=
  env.bindings.length

def isEmpty (env : Environment) : Bool :=
  env.bindings.isEmpty

/-- Of several bindings of one name the last counts. -/
def ofList (bindings : List (String × Float)) : Environment :=
  bindings.foldl (fun env b => env.define b.1 b.2) empty

/-- Binds a name as an earlier look-up found it. -/
def restore (env : Environment) (name : String) : Option Float → Environment
  | some value => env.define name value
  | none => env.remove name

@[ext] theorem ext_bindings {env other : Environment} (h : env.bindings = other.bindings) :
    env = other := by
  cases env
  cases other
  cases h
  rfl

theorem mem_bindings_iff (env : Environment) (name : String) (value : Float) :
    (name, value) ∈ env.bindings ↔ env.lookup name = some value := by
  obtain ⟨bindings, hbindings⟩ := env
  simp only [lookup]
  induction bindings with
  | nil => simp
  | cons first rest ih =>
      obtain ⟨hfirst, hrest⟩ := List.pairwise_cons.1 hbindings
      have ih := ih hrest
      by_cases h : first.1 = name
      · have hnot : (name, value) ∉ rest := fun hmem =>
          absurd (h ▸ hfirst _ hmem) (String.lt_irrefl _)
        simp only [List.mem_cons, hnot, or_false, List.find?_cons, h, beq_self_eq_true,
          Option.map_some, Option.some.injEq]
        exact ⟨fun heq => by rw [← heq], fun heq => by rw [← heq, ← h]⟩
      · have hne : (name, value) ≠ first := fun heq => h (by rw [← heq])
        simp [hne, ih, h]

theorem ext_lookup {env other : Environment} (h : ∀ name, env.lookup name = other.lookup name) :
    env = other := by
  have nodup (e : Environment) : e.bindings.Nodup :=
    List.Pairwise.imp (fun {a b} (hlt : a.1 < b.1) (heq : a = b) =>
      String.lt_irrefl b.1 (heq ▸ hlt)) e.ascending
  have perm : env.bindings.Perm other.bindings :=
    (List.perm_ext_iff_of_nodup (nodup env) (nodup other)).2 fun b =>
      ((env.mem_bindings_iff b.1 b.2).trans (by rw [h])).trans
        (other.mem_bindings_iff b.1 b.2).symm
  apply ext_bindings
  apply perm.eq_of_pairwise ?_ env.ascending other.ascending
  intro a b _ _ hab hba
  exact absurd hba (String.lt_asymm hab)

@[simp] theorem lookup_empty (name : String) : empty.lookup name = none := rfl

@[simp] theorem lookup_define (env : Environment) (name other : String) (value : Float) :
    (env.define name value).lookup other =
      if other = name then some value else env.lookup other := by
  obtain ⟨bindings, hbindings⟩ := env
  simp only [define, lookup]
  induction bindings with
  | nil => by_cases h : other = name <;> simp [insertBinding, h, Ne.symm]
  | cons first rest ih =>
      have hfirst := (List.pairwise_cons.1 hbindings).1
      have ih := ih (List.pairwise_cons.1 hbindings).2
      unfold insertBinding
      split
      · by_cases h : other = name
        · simp [h]
        · simp [h, Ne.symm h]
      · split
        · by_cases h : other = name
          · simp [h]
          · grind
        · by_cases h : first.1 = other
          · grind
          · grind

@[simp] theorem lookup_remove (env : Environment) (name other : String) :
    (env.remove name).lookup other = if other = name then none else env.lookup other := by
  obtain ⟨bindings, hbindings⟩ := env
  simp only [remove, lookup]
  induction bindings with
  | nil => simp
  | cons first rest ih =>
      have ih := ih (List.pairwise_cons.1 hbindings).2
      grind

@[simp] theorem lookup_restore (env : Environment) (name other : String) (previous : Option Float) :
    (env.restore name previous).lookup other =
      if other = name then previous else env.lookup other := by
  cases previous <;> simp [restore]

theorem ofList_append (bindings others : List (String × Float)) :
    ofList (bindings ++ others) =
      others.foldl (fun env b => env.define b.1 b.2) (ofList bindings) :=
  List.foldl_append

theorem lookup_foldl_define (env : Environment) (bindings : List (String × Float)) (name : String) :
    (bindings.foldl (fun env b => env.define b.1 b.2) env).lookup name =
      (bindings.reverse.lookup name).or (env.lookup name) := by
  induction bindings generalizing env with
  | nil => rfl
  | cons first rest ih =>
      obtain ⟨key, value⟩ := first
      rw [List.foldl_cons, ih, List.reverse_cons, List.lookup_append, Option.or_assoc]
      congr 1
      by_cases h : name = key
      · simp [h]
      · have hbeq : (name == key) = false := beq_eq_false_iff_ne.2 h
        rw [lookup_define, if_neg h, List.lookup_cons, hbeq]
        rfl

/-- The last binding of a name is the first from behind. -/
theorem lookup_ofList (bindings : List (String × Float)) (name : String) :
    (ofList bindings).lookup name = bindings.reverse.lookup name := by
  rw [ofList, lookup_foldl_define, lookup_empty, Option.or_none]

end Environment

end Secant
