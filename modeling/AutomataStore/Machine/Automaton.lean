import AutomataStore.Machine.Label
import AutomataStore.Machine.StateSet

/-
  Automata.

  An automaton is a directed multigraph: states in order of
  insertion, transitions of one kind, an initial state and
  final states.  `Automaton` is the plain data, which a file
  may hold in any condition; `WellFormed` says what every
  automaton built by the operations satisfies.

  Key definitions include:
    * `State`, `Transition`, `Automaton`
    * `Automaton.WellFormed`
    * `Automaton.freshId?`
    * `Automaton.addState` and the other operations
-/

------------------------------------------------------------
-- States and Transitions
------------------------------------------------------------

namespace AutomataStore

structure State where
  id : StateId
  name : String
  label : Option String := none
deriving DecidableEq, Inhabited, Repr

/- A state with its default name and no label. -/
def State.ofId (i : StateId) : State :=
  { id := i, name := i.display }

structure Transition where
  source : StateId
  target : StateId
  label : TransitionLabel
deriving DecidableEq, Inhabited, Repr

namespace Transition

/- The kind of automaton a transition belongs to. -/
def kind (t : Transition) : TransitionKind :=
  t.label.kind

/- A transition touches the states at its two ends. -/
def touches (t : Transition) (i : StateId) : Bool :=
  t.source = i || t.target = i

end Transition

------------------------------------------------------------
-- Automata
------------------------------------------------------------

structure Automaton where
  kind : TransitionKind
  states : List State := []
  transitions : List Transition := []
  initial : Option StateId := none
  finals : StateSet := .empty
deriving DecidableEq, Inhabited

/- Why an operation on an automaton is refused. -/
inductive EditFault where
  | unknownState (id : StateId)
  | wrongKind (expected found : TransitionKind)
  | duplicateState (id : StateId)
  | noFreeId
deriving DecidableEq, Repr

/- The text of a refusal. -/
def EditFault.message : EditFault → String
  | .unknownState i =>
      s!"State {i.display} is not part of this automaton"
  | .wrongKind expected found =>
      s!"Transition of kind {found.tag} cannot be added " ++
        s!"to a {expected.tag} automaton"
  | .duplicateState i => s!"State {i.display} already exists"
  | .noFreeId => "No free state id left"

namespace Automaton

/- The ids of the states, in order of insertion. -/
def ids (a : Automaton) : List StateId :=
  a.states.map State.id

/- The first state with an id. -/
def state? (a : Automaton) (i : StateId) : Option State :=
  a.states.find? fun s => s.id = i

/- Whether some state has an id. -/
def hasState (a : Automaton) (i : StateId) : Bool :=
  a.states.any fun s => s.id = i

/- The transitions from one state to another. -/
def between
    (a : Automaton)
    (i j : StateId) : List Transition :=
  a.transitions.filter fun t => t.source = i && t.target = j

/- The transitions that leave a state. -/
def leaving (a : Automaton) (i : StateId) : List Transition :=
  a.transitions.filter fun t => t.source = i

/- The transitions that enter a state. -/
def entering (a : Automaton) (i : StateId) : List Transition :=
  a.transitions.filter fun t => t.target = i

/-
  What every built automaton satisfies: no id occurs twice,
  transitions join states and are of the automaton's kind,
  and the initial and the final states are states.
-/
structure WellFormed (a : Automaton) : Prop where
  nodup_ids : a.ids.Nodup
  source_mem : ∀ t ∈ a.transitions, t.source ∈ a.ids
  target_mem : ∀ t ∈ a.transitions, t.target ∈ a.ids
  kind_eq : ∀ t ∈ a.transitions, t.kind = a.kind
  initial_mem : ∀ i, a.initial = some i → i ∈ a.ids
  finals_mem : ∀ i ∈ a.finals.members, i ∈ a.ids

/- An id occurs among the ids exactly when a state has it. -/
theorem hasState_iff
    (a : Automaton)
    (i : StateId) :
    a.hasState i = true ↔ i ∈ a.ids := by
  simp [hasState, ids]

------------------------------------------------------------
-- Free Ids
------------------------------------------------------------

/-
  The first number from `n` on that an increasing list leaves
  out while it counts up from `n`.
-/
def firstGap? (n : Nat) : List StateId → Option Nat
  | [] => none
  | i :: l =>
      if i.key = n then firstGap? (n + 1) l else some n

/- The greatest number of an id in a list. -/
def maxKey? (l : List StateId) : Option Nat :=
  (l.map StateId.key).max?

/-
  A free id: one past the greatest, or the smallest one when
  the greatest is the last there is.
-/
def freshId? (a : Automaton) : Option StateId :=
  match maxKey? a.ids with
  | none => some ⟨0⟩
  | some n =>
      if n + 1 < Numeral.limit then
        some ⟨UInt32.ofNat (n + 1)⟩
      else
        (firstGap? 0 (StateSet.ofList a.ids).members).map
          fun n => ⟨UInt32.ofNat n⟩

------------------------------------------------------------
-- Operations
------------------------------------------------------------

/- Refuse an id that no state has. -/
def require
    (a : Automaton)
    (i : StateId) : Except EditFault Unit :=
  if a.hasState i then .ok () else .error (.unknownState i)

/- Add a state with a free id and its default name. -/
def addState
    (a : Automaton) : Except EditFault (StateId × Automaton) :=
  match a.freshId? with
  | none => .error .noFreeId
  | some i =>
      .ok (i, { a with states := a.states ++ [.ofId i] })

/- Add a state whose id no other state has. -/
def insertState
    (a : Automaton)
    (s : State) : Except EditFault Automaton :=
  if a.hasState s.id then
    .error (.duplicateState s.id)
  else
    .ok { a with states := a.states ++ [s] }

/-
  Remove the first state with an id, together with every
  transition that touches it and its initial and final marks.
-/
def removeState?
    (a : Automaton)
    (i : StateId) : Option (State × Automaton) :=
  match a.state? i with
  | none => none
  | some s =>
      some (s,
        { a with
          states := a.states.eraseP fun s => s.id = i
          transitions :=
            a.transitions.filter fun t => !t.touches i
          initial :=
            if a.initial = some i then none else a.initial
          finals := a.finals.erase i })

/- Add a transition of the right kind between two states. -/
def addTransition
    (a : Automaton)
    (t : Transition) : Except EditFault Automaton :=
  if t.kind = a.kind then do
    a.require t.source
    a.require t.target
    return { a with transitions := a.transitions ++ [t] }
  else
    .error (.wrongKind a.kind t.kind)

/- Remove the first transition equal to a given one. -/
def removeTransition?
    (a : Automaton)
    (t : Transition) : Option Automaton :=
  if t ∈ a.transitions then
    some { a with transitions := a.transitions.erase t }
  else
    none

/- Choose the initial state, or none. -/
def setInitial
    (a : Automaton)
    (i : Option StateId) : Except EditFault Automaton := do
  match i with
  | none => pure ()
  | some i => a.require i
  return { a with initial := i }

/- Mark a state as final. -/
def addFinal
    (a : Automaton)
    (i : StateId) : Except EditFault Automaton := do
  a.require i
  return { a with finals := a.finals.insert i }

/- Take the final mark off a state that has it. -/
def removeFinal?
    (a : Automaton)
    (i : StateId) : Option Automaton :=
  if i ∈ a.finals then
    some { a with finals := a.finals.erase i }
  else
    none

/- Change the first state that has an id, if there is one. -/
def modifyFirst
    (i : StateId)
    (f : State → State) : List State → List State
  | [] => []
  | s :: l =>
      if s.id = i then f s :: l else s :: modifyFirst i f l

/- Give a state another name. -/
def rename?
    (a : Automaton)
    (i : StateId)
    (name : String) : Option Automaton :=
  if a.hasState i then
    some { a with
      states := modifyFirst i
        (fun s => { s with name := name }) a.states }
  else
    none

/- Give a state another label, or none. -/
def relabel?
    (a : Automaton)
    (i : StateId)
    (label : Option String) : Option Automaton :=
  if a.hasState i then
    some { a with
      states := modifyFirst i
        (fun s => { s with label := label }) a.states }
  else
    none

end Automaton

end AutomataStore
