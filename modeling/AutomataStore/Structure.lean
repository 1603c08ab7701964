import AutomataStore.Grammar.Rules

/-
  Structures.

  What can be kept in a file: an automaton, a dependency
  graph, a grammar, or a chooser over such structures, of
  which only the selected one is kept.

  Key definitions include:
    * `StructureKind`
    * `Structure`, `Structure.kind`
    * `Structure.resolve?`
    * `Chooser`, `Chooser.select`, `Chooser.selectAll`

  Correctness is proven by:
    * `Structure.inductionOnLists`
    * `Structure.inductionOnOptions`
-/

------------------------------------------------------------
-- Kinds
------------------------------------------------------------

namespace AutomataStore

inductive StructureKind where
  | automaton (kind : TransitionKind)
  | grammar
  | chooser
deriving DecidableEq, Inhabited, Repr

/- A kind as it is shown. -/
def StructureKind.display : StructureKind → String
  | .automaton kind => kind.tag ++ " automaton"
  | .grammar => "grammar"
  | .chooser => "chooser"

------------------------------------------------------------
-- Structures
------------------------------------------------------------

/-
  A chooser holds its options and the place of the selected
  one, which may lie past the end.
-/
inductive Structure where
  | automaton (a : Automaton)
  | dependencyGraph (g : DependencyGraph)
  | grammar (g : Grammar)
  | chooser (options : List Structure) (selected : UInt64)
deriving Inhabited

namespace Structure

/-
  A property of lists of structures holds of all when each
  kind of first member keeps it, a chooser also from its own
  options.
-/
@[elab_as_elim]
theorem inductionOnLists
    {motive : List Structure → Prop}
    (nil : motive [])
    (automaton :
      ∀ a rest, motive rest → motive (.automaton a :: rest))
    (dependencyGraph :
      ∀ g rest,
        motive rest → motive (.dependencyGraph g :: rest))
    (grammar :
      ∀ g rest, motive rest → motive (.grammar g :: rest))
    (chooser :
      ∀ options selected rest,
        motive options → motive rest →
          motive (.chooser options selected :: rest)) :
    ∀ l, motive l
  | [] => nil
  | .automaton a :: rest =>
      automaton a rest
        (inductionOnLists nil automaton dependencyGraph
          grammar chooser rest)
  | .dependencyGraph g :: rest =>
      dependencyGraph g rest
        (inductionOnLists nil automaton dependencyGraph
          grammar chooser rest)
  | .grammar g :: rest =>
      grammar g rest
        (inductionOnLists nil automaton dependencyGraph
          grammar chooser rest)
  | .chooser options selected :: rest =>
      chooser options selected rest
        (inductionOnLists nil automaton dependencyGraph
          grammar chooser options)
        (inductionOnLists nil automaton dependencyGraph
          grammar chooser rest)

/- Whether two lists of structures are the same. -/
def sameList : List Structure → List Structure → Bool
  | [], [] => true
  | .automaton a :: rest, .automaton a' :: rest' =>
      a == a' && sameList rest rest'
  | .dependencyGraph g :: rest,
    .dependencyGraph g' :: rest' =>
      g == g' && sameList rest rest'
  | .grammar g :: rest, .grammar g' :: rest' =>
      g == g' && sameList rest rest'
  | .chooser options selected :: rest,
    .chooser options' selected' :: rest' =>
      sameList options options' && selected == selected' &&
        sameList rest rest'
  | _, _ => false

/- The comparison of lists decides equality. -/
theorem sameList_iff
    (l m : List Structure) :
    sameList l m = true ↔ l = m := by
  induction l using inductionOnLists generalizing m with
  | nil =>
      cases m with
      | nil => simp [sameList]
      | cons s m => cases s <;> simp [sameList]
  | automaton a rest ih =>
      cases m with
      | nil => simp [sameList]
      | cons s m => cases s <;> simp [sameList, ih]
  | dependencyGraph g rest ih =>
      cases m with
      | nil => simp [sameList]
      | cons s m => cases s <;> simp [sameList, ih]
  | grammar g rest ih =>
      cases m with
      | nil => simp [sameList]
      | cons s m => cases s <;> simp [sameList, ih]
  | chooser options selected rest ihOptions ihRest =>
      cases m with
      | nil => simp [sameList]
      | cons s m =>
          cases s <;> simp [sameList, ihOptions, ihRest]

instance : DecidableEq Structure := fun s t =>
  decidable_of_iff (sameList [s] [t] = true) (by
    rw [sameList_iff]
    simp)

/- An automaton, as a graph if its kind is dependency. -/
def ofAutomaton (a : Automaton) : Structure :=
  if h : a.kind = .dependency then
    .dependencyGraph ⟨a, h⟩
  else
    .automaton a

/- The kind of a structure. -/
def kind : Structure → StructureKind
  | .automaton a => .automaton a.kind
  | .dependencyGraph _ => .automaton .dependency
  | .grammar _ => .grammar
  | .chooser _ _ => .chooser

/- The structure selected at a place of a list. -/
def resolveAt? : List Structure → Nat → Option Structure
  | [], _ => none
  | .chooser options selected :: _, 0 =>
      resolveAt? options selected.toNat
  | .automaton a :: _, 0 => some (.automaton a)
  | .dependencyGraph g :: _, 0 => some (.dependencyGraph g)
  | .grammar g :: _, 0 => some (.grammar g)
  | _ :: rest, n + 1 => resolveAt? rest n

/-
  The structure that is kept in a file: a chooser stands for
  its selected option, through choosers inside choosers.
-/
def resolve? (s : Structure) : Option Structure :=
  resolveAt? [s] 0

/-
  Whether a structure is an automaton of kind dependency
  outside a dependency graph.  It has no form in a file.
-/
def isBareDependency : Structure → Bool
  | .automaton a => a.kind = .dependency
  | _ => false

/- The automaton of a structure that has one. -/
def automaton? : Structure → Option Automaton
  | .automaton a => some a
  | .dependencyGraph g => some g.automaton
  | _ => none

/- The grammar of a structure that is one. -/
def grammar? : Structure → Option Grammar
  | .grammar g => some g
  | _ => none

end Structure

------------------------------------------------------------
-- Choosers
------------------------------------------------------------

/- Alternative structures with one of them selected. -/
structure Chooser where
  options : List Structure
  selected : UInt64
deriving DecidableEq, Inhabited

namespace Chooser

/- A chooser with its first option selected. -/
def ofOptions (options : List Structure) : Chooser :=
  ⟨options, 0⟩

/- A chooser as a structure. -/
def toStructure (c : Chooser) : Structure :=
  .chooser c.options c.selected

/- Select another option, if there is one at the place. -/
def select? (c : Chooser) (i : UInt64) : Option Chooser :=
  if i.toNat < c.options.length then
    some { c with selected := i }
  else
    none

/-
  Whether there is an option at a place, and the chooser
  after selecting it.
-/
def select (c : Chooser) (i : UInt64) : Bool × Chooser :=
  match c.select? i with
  | some selected => (true, selected)
  | none => (false, c)

/- A chooser after selections one after the other. -/
def selectAll (c : Chooser) (l : List UInt64) : Chooser :=
  l.foldl (fun c i => (c.select i).2) c

/- The selected option, if there is one at its place. -/
def current? (c : Chooser) : Option Structure :=
  c.options[c.selected.toNat]?

end Chooser

namespace Structure

/- Whether a structure is a chooser. -/
def IsChooser (s : Structure) : Prop :=
  ∃ c : Chooser, s = c.toStructure

/-
  A property of structures holds of all when it holds of
  those that are no choosers, and of a chooser if it holds of
  its options.
-/
@[elab_as_elim]
theorem inductionOnOptions
    {motive : Structure → Prop}
    (settled : ∀ s, ¬ s.IsChooser → motive s)
    (chooser :
      ∀ c : Chooser, (∀ s ∈ c.options, motive s) →
        motive c.toStructure)
    (s : Structure) :
    motive s := by
  have hLists : ∀ l : List Structure, ∀ s ∈ l, motive s := by
    intro l
    induction l using inductionOnLists with
    | nil => simp
    | automaton a rest ih =>
        refine List.forall_mem_cons.mpr ⟨settled _ ?_, ih⟩
        rintro ⟨c, hEq⟩
        cases hEq
    | dependencyGraph g rest ih =>
        refine List.forall_mem_cons.mpr ⟨settled _ ?_, ih⟩
        rintro ⟨c, hEq⟩
        cases hEq
    | grammar g rest ih =>
        refine List.forall_mem_cons.mpr ⟨settled _ ?_, ih⟩
        rintro ⟨c, hEq⟩
        cases hEq
    | chooser options selected rest ihOptions ihRest =>
        exact List.forall_mem_cons.mpr
          ⟨chooser ⟨options, selected⟩ ihOptions, ihRest⟩
  exact hLists [s] s List.mem_cons_self

end Structure

end AutomataStore
