import AutomataStore.Grammar.Production
import AutomataStore.Machine.DependencyGraph

/-
  Grammars and their dependency graphs.

  A grammar is a list of productions in order of application.
  Its dependency graph has one state for each variable and an
  edge from `A` to `B` when a production whose left side is
  `A` alone mentions `B` on its right side.

  Key definitions include:
    * `Grammar`
    * `Grammar.variables`, `Grammar.terminals`
    * `Grammar.start?`
    * `Grammar.dependencyGraph`
-/

------------------------------------------------------------
-- Grammars
------------------------------------------------------------

namespace AutomataStore

structure Grammar where
  productions : List Production := []
deriving DecidableEq, Inhabited, Repr

/- The only character of a text that has just one. -/
def soleChar? (s : String) : Option Char :=
  match s.toList with
  | [c] => some c
  | _ => none

namespace Grammar

/- Add a production after the others. -/
def add (g : Grammar) (p : Production) : Grammar :=
  ⟨g.productions ++ [p]⟩

/- Remove the first production equal to a given one. -/
def remove? (g : Grammar) (p : Production) : Option Grammar :=
  if p ∈ g.productions then
    some ⟨g.productions.erase p⟩
  else
    none

/- Add productions after the others. -/
def extend (g : Grammar) (ps : List Production) : Grammar :=
  ⟨g.productions ++ ps⟩

/- Change the production at a place, if there is one. -/
def modifyAt?
    (g : Grammar)
    (n : Nat)
    (f : Production → Production) : Option Grammar :=
  if n < g.productions.length then
    some ⟨g.productions.modify n f⟩
  else
    none

/- The productions with a left side, in order. -/
def withLeft (g : Grammar) (left : String) : List Production :=
  g.productions.filter fun p => p.left = left

/-
  The start variable: the left side of the first production,
  when it is one variable.
-/
def start? (g : Grammar) (k : Classifier) : Option Char :=
  match g.productions with
  | [] => none
  | p :: _ => (soleChar? p.left).filter k.isVariable

/- Each variable once, in the order they first occur in. -/
def «variables» (g : Grammar) (k : Classifier) : List Char :=
  firstSeen (g.productions.flatMap fun p => p.variables k)

/- Each terminal once, in the order they first occur in. -/
def terminals (g : Grammar) (k : Classifier) : List Char :=
  firstSeen (g.productions.flatMap fun p => p.terminals k)

/- A grammar as it is shown, one production on each line. -/
def display (g : Grammar) : String :=
  String.join (g.productions.map fun p => p.display ++ "\n")

------------------------------------------------------------
-- Dependency Graphs
------------------------------------------------------------

/- Link a state to a variable, unless an edge does already. -/
def linkTo
    (i : StateId)
    (g : DependencyGraph)
    (v : Char) : Except EditFault DependencyGraph :=
  match g.stateOf? v with
  | none => .ok g
  | some j =>
      if g.automaton.between i j = [] then
        g.addDependency i j
      else
        .ok g

/- Add the edges that a production gives. -/
def linkProduction
    (k : Classifier)
    (g : DependencyGraph)
    (p : Production) : Except EditFault DependencyGraph :=
  match (soleChar? p.left).bind g.stateOf? with
  | none => .ok g
  | some i => (p.variablesRight k).foldlM (linkTo i) g

/- The dependency graph of a grammar. -/
def dependencyGraph
    (g : Grammar)
    (k : Classifier) : Except EditFault DependencyGraph := do
  let start ← (g.variables k).foldlM
    (fun d v => (d.addVariable v).map Prod.snd)
    DependencyGraph.empty
  g.productions.foldlM (linkProduction k) start

end Grammar

end AutomataStore
