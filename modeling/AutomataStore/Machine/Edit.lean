import AutomataStore.Machine.Automaton

/-
  Edits.

  An edit names one operation and its arguments.  It is
  performed with a reply, or refused and changes nothing.

  Key definitions include:
    * `Edit`
    * `Automaton.perform`
    * `Automaton.after`
-/

------------------------------------------------------------
-- Edits
------------------------------------------------------------

namespace AutomataStore

/- One operation on an automaton. -/
inductive Edit where
  | addState
  | insertState (s : State)
  | removeState (i : StateId)
  | addTransition (t : Transition)
  | removeTransition (t : Transition)
  | setInitial (i : Option StateId)
  | addFinal (i : StateId)
  | removeFinal (i : StateId)
  | rename (i : StateId) (name : String)
  | relabel (i : StateId) (label : Option String)
deriving DecidableEq, Repr

/- What a performed edit answers. -/
inductive Reply where
  | id (i : StateId)
  | removed (s : State)
  | done
deriving DecidableEq, Repr

/- Why an edit was not performed. -/
inductive Refusal where
  | fault (f : EditFault)
  | absent
deriving DecidableEq, Repr

namespace Automaton

/- Perform an edit whose operation answers nothing. -/
def answerDone :
    Except EditFault Automaton →
      Except Refusal (Reply × Automaton)
  | .ok a => .ok (.done, a)
  | .error f => .error (.fault f)

/- Perform an edit whose operation may find nothing. -/
def answerFound :
    Option Automaton → Except Refusal (Reply × Automaton)
  | some a => .ok (.done, a)
  | none => .error .absent

/- Perform an edit. -/
def perform
    (a : Automaton) :
    Edit → Except Refusal (Reply × Automaton)
  | .addState =>
      match a.addState with
      | .ok (i, a) => .ok (.id i, a)
      | .error f => .error (.fault f)
  | .insertState s =>
      match a.insertState s with
      | .ok a => .ok (.id s.id, a)
      | .error f => .error (.fault f)
  | .removeState i =>
      match a.removeState? i with
      | some (s, a) => .ok (.removed s, a)
      | none => .error .absent
  | .addTransition t => answerDone (a.addTransition t)
  | .removeTransition t => answerFound (a.removeTransition? t)
  | .setInitial i => answerDone (a.setInitial i)
  | .addFinal i => answerDone (a.addFinal i)
  | .removeFinal i => answerFound (a.removeFinal? i)
  | .rename i name => answerFound (a.rename? i name)
  | .relabel i label => answerFound (a.relabel? i label)

/- The automaton after an edit, which a refusal leaves as is. -/
def after (a : Automaton) (e : Edit) : Automaton :=
  match a.perform e with
  | .ok (_, a) => a
  | .error _ => a

end Automaton

end AutomataStore
