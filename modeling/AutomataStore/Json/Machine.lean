import AutomataStore.Json.Shape
import AutomataStore.Machine.DependencyGraph

/-
  Automata as JSON.

  What is read is not checked any further: ids may repeat and
  transitions may lead nowhere.  Only a dependency graph has
  to be of its kind.

  Key definitions include:
    * `TransitionLabel.toJson`, `TransitionLabel.ofJson?`
    * `Automaton.toJson`, `Automaton.ofJson?`
    * `DependencyGraph.toJson`, `DependencyGraph.ofJson?`
-/

------------------------------------------------------------
-- Ids and Labels
------------------------------------------------------------

namespace AutomataStore

/- An id is its number. -/
def StateId.toJson (i : StateId) : Json :=
  .nat i.key

def StateId.ofJson? (j : Json) : Option StateId :=
  j.word32?.map StateId.mk

namespace TransitionKind

/- The name of a kind. -/
def name : TransitionKind → String
  | .finite => "Finite"
  | .mealy => "Mealy"
  | .moore => "Moore"
  | .dependency => "Dependency"

/- The kind with a name. -/
def ofName? (s : String) : Option TransitionKind :=
  all.find? fun k => k.name = s

def toJson (k : TransitionKind) : Json :=
  .text k.name

def ofJson? (j : Json) : Option TransitionKind := do
  let (name, payload) ← j.variant?
  if Json.isUnit payload then ofName? name else none

end TransitionKind

namespace TransitionLabel

def toJson : TransitionLabel → Json
  | .finite read =>
      .ofVariant "Finite" (.object [("read", .text read)])
  | .mealy read output =>
      .ofVariant "Mealy" (.object
        [("read", .text read), ("output", .text output)])
  | .moore read =>
      .ofVariant "Moore" (.object [("read", .text read)])
  | .dependency => .text "Dependency"

/- The text field of a label's payload, which is an object. -/
def textField?
    (payload : Option Json)
    (key : String) : Option String :=
  match payload with
  | some (.object fields) =>
      (Json.field? fields key).bind Json.text?
  | _ => none

def ofJson? (j : Json) : Option TransitionLabel := do
  let (name, payload) ← j.variant?
  match ← TransitionKind.ofName? name with
  | .finite => return .finite (← textField? payload "read")
  | .mealy =>
      return .mealy (← textField? payload "read")
        (← textField? payload "output")
  | .moore => return .moore (← textField? payload "read")
  | .dependency =>
      if Json.isUnit payload then some .dependency else none

end TransitionLabel

------------------------------------------------------------
-- States and Transitions
------------------------------------------------------------

namespace State

def toJson (s : State) : Json :=
  .object
    [("id", s.id.toJson),
     ("name", .text s.name),
     ("label", .optional s.label)]

def ofJson? (j : Json) : Option State := do
  match ← j.record? ["id", "name", "label"] with
  | [some i, some name, label] =>
      return {
        id := ← StateId.ofJson? i
        name := ← name.text?
        label := ← Json.nullable? Json.text? label }
  | _ => none

end State

namespace Transition

def toJson (t : Transition) : Json :=
  .object
    [("from", t.source.toJson),
     ("to", t.target.toJson),
     ("label", t.label.toJson)]

def ofJson? (j : Json) : Option Transition := do
  match ← j.record? ["from", "to", "label"] with
  | [some source, some target, some label] =>
      return {
        source := ← StateId.ofJson? source
        target := ← StateId.ofJson? target
        label := ← TransitionLabel.ofJson? label }
  | _ => none

end Transition

------------------------------------------------------------
-- Automata
------------------------------------------------------------

/- A set of ids is the list of its members. -/
def StateSet.toJson (s : StateSet) : Json :=
  .list (s.members.map StateId.toJson)

/- An id or null. -/
def StateId.optionToJson : Option StateId → Json
  | none => .null
  | some i => i.toJson

namespace Automaton

def toJson (a : Automaton) : Json :=
  .object
    [("kind", a.kind.toJson),
     ("states", .list (a.states.map State.toJson)),
     ("transitions",
       .list (a.transitions.map Transition.toJson)),
     ("initial", StateId.optionToJson a.initial),
     ("finals", a.finals.toJson)]

def ofJson? (j : Json) : Option Automaton := do
  let keys :=
    ["kind", "states", "transitions", "initial", "finals"]
  match ← j.record? keys with
  | [some kind, some states, some transitions, initial,
     some finals] =>
      return {
        kind := ← TransitionKind.ofJson? kind
        states := ← states.list? State.ofJson?
        transitions := ← transitions.list? Transition.ofJson?
        initial := ← Json.nullable? StateId.ofJson? initial
        finals :=
          .ofList (← finals.list? StateId.ofJson?) }
  | _ => none

end Automaton

namespace DependencyGraph

def toJson (g : DependencyGraph) : Json :=
  g.automaton.toJson

def ofJson? (j : Json) : Option DependencyGraph := do
  match ofAutomaton (← Automaton.ofJson? j) with
  | .ok g => some g
  | .error _ => none

end DependencyGraph

end AutomataStore
