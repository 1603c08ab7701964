import AutomataStore.Machine.DependencyGraph

/-
  Commands.

  A command changes an automaton in place, one write after
  the other.  It ends in an answer or in a refusal, and what
  it wrote before a refusal stays written.  Operations on
  automata and on dependency graphs are commands; a history
  carries them out one after the other.

  Key definitions include:
    * `Command`
    * `Operation`, `Operation.command`
    * `Automaton.operate`
    * `Automaton.afterAll`, `Automaton.answers`
    * `Automaton.performed`
-/

------------------------------------------------------------
-- Commands
------------------------------------------------------------

namespace AutomataStore

/-
  What is answered or refused, and the automaton that is left
  behind in either case.
-/
structure Command (α : Type) where
  act : Automaton → Except Refusal α × Automaton

namespace Command

variable {α β : Type}

/- Answer without a write. -/
def answer (x : α) : Command α :=
  ⟨fun a => (.ok x, a)⟩

/- Go on from an answer; a refusal ends everything. -/
def andThen
    (c : Command α)
    (f : α → Command β) : Command β :=
  ⟨fun a =>
    match c.act a with
    | (.ok x, b) => (f x).act b
    | (.error refusal, b) => (.error refusal, b)⟩

instance : Monad Command where
  pure := answer
  bind := andThen

/- Look at the automaton. -/
def look : Command Automaton :=
  ⟨fun a => (.ok a, a)⟩

/- Write to the automaton. -/
def write (f : Automaton → Automaton) : Command Unit :=
  ⟨fun a => (.ok (), f a)⟩

/- Refuse to go on. -/
def refuse (refusal : Refusal) : Command α :=
  ⟨fun a => (.error refusal, a)⟩

@[simp]
theorem act_pure
    (x : α)
    (a : Automaton) :
    (pure x : Command α).act a = (.ok x, a) :=
  rfl

@[simp]
theorem act_bind
    (c : Command α)
    (f : α → Command β)
    (a : Automaton) :
    (c >>= f).act a =
      match c.act a with
      | (.ok x, b) => (f x).act b
      | (.error refusal, b) => (.error refusal, b) :=
  rfl

@[simp]
theorem act_look
    (a : Automaton) :
    look.act a = (.ok a, a) :=
  rfl

@[simp]
theorem act_write
    (f : Automaton → Automaton)
    (a : Automaton) :
    (write f).act a = (.ok (), f a) :=
  rfl

@[simp]
theorem act_refuse
    (refusal : Refusal)
    (a : Automaton) :
    (refuse refusal : Command α).act a =
      (.error refusal, a) :=
  rfl

------------------------------------------------------------
-- Commands on Automata
------------------------------------------------------------

/- Refuse an id that no state has. -/
def require (i : StateId) : Command Unit := do
  let a ← look
  if a.hasState i then
    return ()
  else
    refuse (.fault (.unknownState i))

/- Put a state after the others. -/
def pushState (s : State) : Command Unit :=
  write fun a => { a with states := a.states ++ [s] }

/- Change the first state that has an id. -/
def changeState
    (i : StateId)
    (f : State → State) : Command Unit := do
  let a ← look
  if a.hasState i then
    write fun a =>
      { a with states := Automaton.modifyFirst i f a.states }
  else
    refuse .absent

/- Add a state with a free id and its default name. -/
def addState : Command StateId := do
  let a ← look
  match a.freshId? with
  | none => refuse (.fault .noFreeId)
  | some i =>
      pushState (.ofId i)
      return i

/- Add a state whose id no other state has. -/
def insertState (s : State) : Command StateId := do
  let a ← look
  if a.hasState s.id then
    refuse (.fault (.duplicateState s.id))
  else
    pushState s
    return s.id

/-
  Remove the first state with an id, then the transitions
  that touch it, then its initial and its final mark.
-/
def removeState (i : StateId) : Command State := do
  let a ← look
  match a.state? i with
  | none => refuse .absent
  | some s =>
      write fun a =>
        { a with states := a.states.eraseP fun s => s.id = i }
      write fun a =>
        { a with
          transitions :=
            a.transitions.filter fun t => !t.touches i }
      write fun a =>
        if a.initial = some i then
          { a with initial := none }
        else
          a
      write fun a => { a with finals := a.finals.erase i }
      return s

/- Add a transition of the right kind between two states. -/
def addTransition (t : Transition) : Command Unit := do
  let a ← look
  if t.kind = a.kind then
    require t.source
    require t.target
    write fun a =>
      { a with transitions := a.transitions ++ [t] }
  else
    refuse (.fault (.wrongKind a.kind t.kind))

/- Remove the first transition equal to a given one. -/
def removeTransition (t : Transition) : Command Unit := do
  let a ← look
  if t ∈ a.transitions then
    write fun a =>
      { a with transitions := a.transitions.erase t }
  else
    refuse .absent

/- Choose the initial state, or none. -/
def setInitial (i : Option StateId) : Command Unit := do
  match i with
  | none => pure ()
  | some i => require i
  write fun a => { a with initial := i }

/- Mark a state as final. -/
def addFinal (i : StateId) : Command Unit := do
  require i
  write fun a => { a with finals := a.finals.insert i }

/-
  Take the final mark off an id, and say afterwards whether
  there was one.
-/
def removeFinal (i : StateId) : Command Unit := do
  let a ← look
  write fun a => { a with finals := a.finals.erase i }
  if i ∈ a.finals then
    return ()
  else
    refuse .absent

------------------------------------------------------------
-- Commands on Dependency Graphs
------------------------------------------------------------

/-
  Find the state of a variable, or add one with its default
  name and give it the name of the variable.
-/
def addVariable (v : Char) : Command StateId := do
  let a ← look
  match a.states.find? fun s => s.name = String.singleton v with
  | some s => return s.id
  | none =>
      let i ← addState
      write fun a =>
        { a with
          states :=
            Automaton.modifyFirst i
              (fun s => { s with name := String.singleton v })
              a.states }
      return i

/- Add an edge between two states. -/
def addDependency (i j : StateId) : Command Unit :=
  addTransition ⟨i, j, .dependency⟩

end Command

------------------------------------------------------------
-- Operations
------------------------------------------------------------

/- The command of an edit. -/
def Edit.command : Edit → Command Reply
  | .addState => do
      let i ← Command.addState
      return .id i
  | .insertState s => do
      let i ← Command.insertState s
      return .id i
  | .removeState i => do
      let s ← Command.removeState i
      return .removed s
  | .addTransition t => do
      Command.addTransition t
      return .done
  | .removeTransition t => do
      Command.removeTransition t
      return .done
  | .setInitial i => do
      Command.setInitial i
      return .done
  | .addFinal i => do
      Command.addFinal i
      return .done
  | .removeFinal i => do
      Command.removeFinal i
      return .done
  | .rename i name => do
      Command.changeState i fun s => { s with name := name }
      return .done
  | .relabel i label => do
      Command.changeState i fun s => { s with label := label }
      return .done

/-
  One operation on an automaton, or on the automaton of a
  dependency graph.
-/
inductive Operation where
  | edit (e : Edit)
  | addVariable (v : Char)
  | addDependency (i j : StateId)
deriving DecidableEq, Repr

/- The command of an operation. -/
def Operation.command : Operation → Command Reply
  | .edit e => e.command
  | .addVariable v => do
      let i ← Command.addVariable v
      return .id i
  | .addDependency i j => do
      Command.addDependency i j
      return .done

------------------------------------------------------------
-- Histories
------------------------------------------------------------

namespace Automaton

/- Carry out one operation. -/
def operate
    (a : Automaton)
    (o : Operation) : Except Refusal Reply × Automaton :=
  o.command.act a

/- The automaton that a history of operations leaves. -/
def afterAll (a : Automaton) : List Operation → Automaton
  | [] => a
  | o :: os => (a.operate o).2.afterAll os

/- What the operations of a history answer. -/
def answers
    (a : Automaton) :
    List Operation → List (Except Refusal Reply)
  | [] => []
  | o :: os => (a.operate o).1 :: (a.operate o).2.answers os

/- The operations of a history that were not refused. -/
def performed
    (a : Automaton) : List Operation → List Operation
  | [] => []
  | o :: os =>
      if (a.operate o).1.isOk then
        o :: (a.operate o).2.performed os
      else
        (a.operate o).2.performed os

end Automaton

end AutomataStore
