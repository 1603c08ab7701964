import AutomataStore.Document.Tree
import AutomataStore.Storage.Problem

/-
  Automata in documents.

  A document lists states, with an id, a name and marks, then
  transitions, which refer to states by id.  On reading, the
  elements may stand at any depth and in any order; states
  are read before transitions.

  Key definitions include:
    * `MachineForm.document`
    * `MachineForm.read`
-/

------------------------------------------------------------
-- Writing
------------------------------------------------------------

namespace AutomataStore

namespace MachineForm

/- The element of a state of an automaton. -/
def stateElement (a : Automaton) (s : State) : Element :=
  let label : List Node :=
    match s.label with
    | none => []
    | some text => [(Element.withText "label" text).toNode]
  let initial : List Node :=
    if a.initial = some s.id then
      [Element.toNode { tag := "initial" }]
    else
      []
  let final : List Node :=
    if s.id ∈ a.finals then
      [Element.toNode { tag := "final" }]
    else
      []
  { tag := "state"
    attributes :=
      [⟨"id", s.id.decimal⟩, ⟨"name", s.name⟩]
    children := label ++ initial ++ final }

/- The elements of a label. -/
def labelElements : TransitionLabel → List Element
  | .finite read => [.withText "read" read]
  | .mealy read output =>
      [.withText "read" read, .withText "transout" output]
  | .moore read => [.withText "read" read]
  | .dependency => []

/- The element of a transition. -/
def transitionElement (t : Transition) : Element :=
  { tag := "transition"
    children :=
      (Element.withText "from" t.source.decimal ::
        Element.withText "to" t.target.decimal ::
        labelElements t.label).map Element.toNode }

/- A list of elements under a heading, if there are any. -/
def listed (heading : String) (es : List Element) : List Node :=
  if es = [] then
    []
  else
    .comment heading :: es.map Element.toNode

/- The document of an automaton. -/
def document (a : Automaton) : Document :=
  ⟨{ tag := a.kind.tag
     children :=
       listed "The list of states."
           (a.states.map (stateElement a)) ++
         listed "The list of transitions."
           (a.transitions.map transitionElement) }⟩

------------------------------------------------------------
-- Reading
------------------------------------------------------------

/- The id that a text refers to; blanks around it are left out. -/
def readReference
    (field : String)
    (text : Option String) : Traced StateId := do
  match text with
  | none =>
      .notify (.missingReference field)
      .fail (.missingReference field)
  | some s =>
      match Numeral.readWord (Text.trim s) with
      | some n => return ⟨n⟩
      | none =>
          .notify (.badReference field s)
          .fail (.badReference field s)

/- The text of the first child with a tag, if there is one. -/
def childText? (e : Element) (tag : String) : Option String :=
  (e.child? tag).map Element.text

/- The state that an element declares. -/
def readState (e : Element) : Traced State := do
  let i ← readReference "id" (e.attribute? "id")
  return {
    id := i
    name := (e.attribute? "name").getD i.display
    label := childText? e "label" }

/- Mark a state as initial, unless there is an initial one. -/
def markInitial
    (a : Automaton)
    (i : StateId) : Traced Automaton :=
  match a.initial with
  | none => .ofEdit (a.setInitial (some i))
  | some first => do
      .notify (.secondInitial first i)
      return a

/- Add the state that an element declares, with its marks. -/
def takeState
    (a : Automaton)
    (e : Element) : Traced Automaton := do
  let s ← readState e
  let a ← .ofEdit (a.insertState s)
  let a ←
    if (e.child? "initial").isSome then
      markInitial a s.id
    else
      pure a
  if (e.child? "final").isSome then
    .ofEdit (a.addFinal s.id)
  else
    return a

/- The label that an element gives a transition of a kind. -/
def readLabel
    (k : TransitionKind)
    (e : Element) : TransitionLabel :=
  .ofKind k
    ((childText? e "read").getD "")
    ((childText? e "transout").getD "")

/- Add the transition that an element declares. -/
def takeTransition
    (a : Automaton)
    (e : Element) : Traced Automaton := do
  let i ← readReference "from" (childText? e "from")
  let j ← readReference "to" (childText? e "to")
  .ofEdit (a.addTransition ⟨i, j, readLabel a.kind e⟩)

/- The automaton of a kind that a document holds. -/
def read (k : TransitionKind) (d : Document) :
    Traced Automaton := do
  let a ← (d.root.descendantsByTag "state").foldlM
    takeState { kind := k }
  (d.root.descendantsByTag "transition").foldlM
    takeTransition a

end MachineForm

end AutomataStore
