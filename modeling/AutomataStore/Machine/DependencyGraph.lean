import AutomataStore.Machine.Edit

/-
  Dependency graphs.

  A dependency graph is an automaton of kind dependency: its
  states stand for grammar variables, and a transition from
  `A` to `B` says that some production for `A` mentions `B`.

  Key definitions include:
    * `DependencyGraph`
    * `DependencyGraph.ofAutomaton`
    * `DependencyGraph.stateOf?`
    * `DependencyGraph.addVariable`

  Correctness is proven by:
    * `Automaton.kind_of_perform`
-/

------------------------------------------------------------
-- Edits Keep the Kind
------------------------------------------------------------

namespace AutomataStore

namespace Automaton

/- Adding a transition keeps the kind. -/
theorem kind_of_addTransition
    {a b : Automaton}
    {t : Transition}
    (h : a.addTransition t = .ok b) :
    b.kind = a.kind := by
  simp only [addTransition, require] at h
  repeat' split at h
  all_goals
    simp only [bind, Except.bind, pure, Except.pure,
      Except.ok.injEq, reduceCtorEq] at h
  subst h
  rfl

/- Choosing the initial state keeps the kind. -/
theorem kind_of_setInitial
    {a b : Automaton}
    {i : Option StateId}
    (h : a.setInitial i = .ok b) :
    b.kind = a.kind := by
  cases i with
  | none =>
      simp only [setInitial, pure, Except.pure,
        Except.ok.injEq] at h
      subst h
      rfl
  | some i =>
      simp only [setInitial, require] at h
      split at h
      all_goals
        simp only [bind, Except.bind, pure, Except.pure,
          Except.ok.injEq, reduceCtorEq] at h
      subst h
      rfl

/- Marking a state as final keeps the kind. -/
theorem kind_of_addFinal
    {a b : Automaton}
    {i : StateId}
    (h : a.addFinal i = .ok b) :
    b.kind = a.kind := by
  simp only [addFinal, require] at h
  split at h
  all_goals
    simp only [bind, Except.bind, pure, Except.pure,
      Except.ok.injEq, reduceCtorEq] at h
  subst h
  rfl

/- Every performed edit keeps the kind. -/
theorem kind_of_perform
    {a b : Automaton}
    {e : Edit}
    {r : Reply}
    (h : a.perform e = .ok (r, b)) :
    b.kind = a.kind := by
  have hDone :
      ∀ x : Except EditFault Automaton,
        answerDone x = .ok (r, b) → x = .ok b := by
    intro x hx
    cases x with
    | ok c =>
        simp only [answerDone, Except.ok.injEq,
          Prod.mk.injEq] at hx
        rw [hx.2]
    | error f => simp [answerDone] at hx
  have hFound :
      ∀ x : Option Automaton,
        answerFound x = .ok (r, b) → x = some b := by
    intro x hx
    cases x with
    | none => simp [answerFound] at hx
    | some c =>
        simp only [answerFound, Except.ok.injEq,
          Prod.mk.injEq] at hx
        rw [hx.2]
  cases e with
  | addState =>
      simp only [perform, addState] at h
      cases hFresh : a.freshId? with
      | none => simp [hFresh] at h
      | some i =>
          simp only [hFresh, Except.ok.injEq,
            Prod.mk.injEq] at h
          rw [← h.2]
  | insertState s =>
      simp only [perform, insertState] at h
      split at h
      · rename_i hIns
        split at hIns
        · cases hIns
        · simp only [Except.ok.injEq, Prod.mk.injEq] at h hIns
          rw [← h.2, ← hIns]
      · cases h
  | removeState i =>
      simp only [perform, removeState?] at h
      cases hState : a.state? i with
      | none => simp [hState] at h
      | some s =>
          simp only [hState, Except.ok.injEq,
            Prod.mk.injEq] at h
          rw [← h.2]
  | addTransition t =>
      exact kind_of_addTransition (hDone _ h)
  | removeTransition t =>
      have hSome := hFound _ h
      unfold removeTransition? at hSome
      split at hSome
      · simp only [Option.some.injEq] at hSome
        rw [← hSome]
      · cases hSome
  | setInitial i => exact kind_of_setInitial (hDone _ h)
  | addFinal i => exact kind_of_addFinal (hDone _ h)
  | removeFinal i =>
      have hSome := hFound _ h
      unfold removeFinal? at hSome
      split at hSome
      · simp only [Option.some.injEq] at hSome
        rw [← hSome]
      · cases hSome
  | rename i name =>
      have hSome := hFound _ h
      unfold rename? at hSome
      split at hSome
      · simp only [Option.some.injEq] at hSome
        rw [← hSome]
      · cases hSome
  | relabel i label =>
      have hSome := hFound _ h
      unfold relabel? at hSome
      split at hSome
      · simp only [Option.some.injEq] at hSome
        rw [← hSome]
      · cases hSome

end Automaton

------------------------------------------------------------
-- Dependency Graphs
------------------------------------------------------------

structure DependencyGraph where
  automaton : Automaton
  kind_eq : automaton.kind = .dependency

namespace DependencyGraph

instance : DecidableEq DependencyGraph := fun g h =>
  decidable_of_iff (g.automaton = h.automaton) (by
    cases g
    cases h
    simp)

/- The graph without states. -/
def empty : DependencyGraph :=
  ⟨{ kind := .dependency }, rfl⟩

instance : Inhabited DependencyGraph :=
  ⟨empty⟩

/- An automaton of kind dependency as a graph. -/
def ofAutomaton
    (a : Automaton) : Except EditFault DependencyGraph :=
  if h : a.kind = .dependency then
    .ok ⟨a, h⟩
  else
    .error (.wrongKind .dependency a.kind)

/- Perform an edit. -/
def perform
    (g : DependencyGraph)
    (e : Edit) : Except Refusal (Reply × DependencyGraph) :=
  match h : g.automaton.perform e with
  | .ok (r, a) =>
      .ok (r,
        ⟨a, (Automaton.kind_of_perform h).trans g.kind_eq⟩)
  | .error refusal => .error refusal

/- The first state whose whole name is the variable. -/
def stateOf?
    (g : DependencyGraph)
    (v : Char) : Option StateId :=
  (g.automaton.states.find? fun s =>
    s.name = String.singleton v).map State.id

/- Add a state named after a variable, unless there is one. -/
def addVariable
    (g : DependencyGraph)
    (v : Char) : Except EditFault (StateId × DependencyGraph) :=
  match g.stateOf? v with
  | some i => .ok (i, g)
  | none =>
      match g.automaton.freshId? with
      | none => .error .noFreeId
      | some i =>
          let s : State :=
            { id := i, name := String.singleton v }
          .ok (i,
            ⟨{ g.automaton with
                states := g.automaton.states ++ [s] },
              g.kind_eq⟩)

/- Add an edge between two states. -/
def addDependency
    (g : DependencyGraph)
    (i j : StateId) : Except EditFault DependencyGraph :=
  match h : g.automaton.addTransition ⟨i, j, .dependency⟩ with
  | .ok a =>
      .ok ⟨a, (Automaton.kind_of_addTransition h).trans
        g.kind_eq⟩
  | .error f => .error f

end DependencyGraph

end AutomataStore
