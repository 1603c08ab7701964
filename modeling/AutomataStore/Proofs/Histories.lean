import AutomataStore.Machine.Command
import AutomataStore.Proofs.AutomatonInvariant
import AutomataStore.Proofs.FreshIds

/-
  Histories of operations keep automata well formed, and what
  is refused might as well not have been asked for.

  A command of an operation does all of its writes or none:
  it reports what the operation gives.  Operations that are
  performed keep automata well formed.

  Key definitions include:
    * `Automaton.report`

  Main declarations:
    * `Automaton.operate_edit`
    * `Automaton.operate_addVariable`
    * `Automaton.wellFormed_of_perform`
    * `Automaton.exists_operate_eq_report`
    * `Automaton.invariant_of_history`
-/

------------------------------------------------------------
-- Reports
------------------------------------------------------------

namespace AutomataStore

/- A set without a member stays the same when it is erased. -/
theorem StateSet.erase_of_not_mem
    {i : StateId}
    {s : StateSet}
    (hi : i ∉ s) :
    s.erase i = s := by
  apply StateSet.ext
  intro j
  rw [StateSet.mem_erase_iff]
  constructor
  · exact fun h => h.1
  · intro hj
    exact ⟨hj, fun hij => hi (hij ▸ hj)⟩

namespace Automaton

variable {α : Type}

/-
  The answer and the automaton of a result that is either
  performed or refused; a refusal keeps the old automaton.
-/
def report
    (a : Automaton) :
    Except Refusal (α × Automaton) →
      Except Refusal α × Automaton
  | .ok (x, b) => (.ok x, b)
  | .error refusal => (.error refusal, a)

/- What is refused is reported with the old automaton. -/
theorem eq_of_report_refused
    {a : Automaton}
    {x : Except Refusal (α × Automaton)}
    {refusal : Refusal}
    (h : (a.report x).1 = .error refusal) :
    (a.report x).2 = a := by
  cases x with
  | ok y => cases h
  | error _ => rfl

end Automaton

------------------------------------------------------------
-- Commands Report Operations
------------------------------------------------------------

namespace Command

/- An id that is required of a state is left as it is. -/
theorem act_require
    (i : StateId)
    (a : Automaton) :
    (require i).act a =
      match a.require i with
      | .ok () => (.ok (), a)
      | .error f => (.error (.fault f), a) := by
  unfold require Automaton.require
  by_cases hi : a.hasState i <;> simp [hi]

/- The transition is added, or nothing is. -/
theorem act_addTransition
    (t : Transition)
    (a : Automaton) :
    (addTransition t).act a =
      match a.addTransition t with
      | .ok b => (.ok (), b)
      | .error f => (.error (.fault f), a) := by
  unfold addTransition Automaton.addTransition
  by_cases hKind : t.kind = a.kind
  · simp only [act_bind, act_look, if_pos hKind, act_require,
      act_write]
    cases a.require t.source with
    | error f => rfl
    | ok _ =>
        simp only
        cases a.require t.target <;> rfl
  · simp [hKind]

/- The initial state is chosen, or stays what it was. -/
theorem act_setInitial
    (i : Option StateId)
    (a : Automaton) :
    (setInitial i).act a =
      match a.setInitial i with
      | .ok b => (.ok (), b)
      | .error f => (.error (.fault f), a) := by
  unfold setInitial Automaton.setInitial
  cases i with
  | none => rfl
  | some i =>
      simp only [act_bind, act_require, act_write]
      cases a.require i <;> rfl

/- The state is marked as final, or no mark changes. -/
theorem act_addFinal
    (i : StateId)
    (a : Automaton) :
    (addFinal i).act a =
      match a.addFinal i with
      | .ok b => (.ok (), b)
      | .error f => (.error (.fault f), a) := by
  unfold addFinal Automaton.addFinal
  simp only [act_bind, act_require, act_write]
  cases a.require i <;> rfl

/- The state is removed with its marks, or nothing is. -/
theorem act_removeState
    (i : StateId)
    (a : Automaton) :
    (removeState i).act a =
      match a.removeState? i with
      | some (s, b) => (.ok s, b)
      | none => (.error .absent, a) := by
  unfold removeState Automaton.removeState?
  cases hState : a.state? i with
  | none => simp [hState]
  | some s =>
      by_cases hInitial : a.initial = some i <;>
        simp [hState, hInitial]

/- A final mark that is not there is not taken off. -/
theorem act_removeFinal
    (i : StateId)
    (a : Automaton) :
    (removeFinal i).act a =
      match a.removeFinal? i with
      | some b => (.ok (), b)
      | none => (.error .absent, a) := by
  unfold removeFinal Automaton.removeFinal?
  by_cases hi : i ∈ a.finals
  · simp [hi]
  · simp [hi, StateSet.erase_of_not_mem hi]

/- A new state is last, so that changing it changes no other. -/
theorem modifyFirst_append_of_not_mem
    {i : StateId}
    {l : List State}
    (hi : i ∉ l.map State.id)
    (f : State → State)
    {s : State}
    (hs : s.id = i) :
    Automaton.modifyFirst i f (l ++ [s]) = l ++ [f s] := by
  induction l with
  | nil => simp [Automaton.modifyFirst, hs]
  | cons r l ih =>
      simp only [List.map_cons, List.mem_cons, not_or] at hi
      have hr : ¬ r.id = i := fun h => hi.1 h.symm
      simp [Automaton.modifyFirst, hr, ih hi.2]

/- The state of a variable is found, or added by its name. -/
theorem act_addVariable
    (v : Char)
    (a : Automaton) :
    (addVariable v).act a =
      match a.states.find? fun s =>
          s.name = String.singleton v with
      | some s => (.ok s.id, a)
      | none =>
          match a.freshId? with
          | none => (.error (.fault .noFreeId), a)
          | some i =>
              (.ok i,
                { a with states :=
                  a.states ++
                    [⟨i, String.singleton v, none⟩] }) := by
  unfold addVariable addState pushState
  simp only [act_bind, act_look]
  cases a.states.find? fun s =>
      s.name = String.singleton v with
  | some s => rfl
  | none =>
      cases hFresh : a.freshId? with
      | none => simp [hFresh]
      | some i =>
          have hLast :=
            modifyFirst_append_of_not_mem
              (Automaton.not_mem_of_freshId? hFresh)
              (fun s => { s with name := String.singleton v })
              (s := State.ofId i) rfl
          simp only [act_bind, act_look, hFresh, act_write,
            act_pure, hLast]
          rfl

end Command

namespace Automaton

/- An edit answers that it is done with its result. -/
theorem eq_ok_of_answerDone
    {x : Except EditFault Automaton}
    {r : Reply}
    {b : Automaton}
    (h : answerDone x = .ok (r, b)) :
    x = .ok b := by
  cases x with
  | ok c =>
      cases h
      rfl
  | error f => cases h

/- An edit answers that it is done with what it finds. -/
theorem eq_some_of_answerFound
    {x : Option Automaton}
    {r : Reply}
    {b : Automaton}
    (h : answerFound x = .ok (r, b)) :
    x = some b := by
  cases x with
  | some c =>
      cases h
      rfl
  | none => cases h

/- An edit in place reports what the edit gives. -/
theorem operate_edit
    (a : Automaton)
    (e : Edit) :
    a.operate (.edit e) = a.report (a.perform e) := by
  unfold operate Operation.command Edit.command perform
  cases e with
  | addState =>
      simp only [Command.addState, Command.act_bind,
        Command.act_look, addState]
      cases a.freshId? <;> rfl
  | insertState s =>
      simp only [Command.insertState, Command.act_bind,
        Command.act_look, insertState]
      by_cases hs : a.hasState s.id
      · simp [hs, report]
      · simp [hs, report, Command.pushState]
  | removeState i =>
      simp only [Command.act_bind, Command.act_removeState]
      cases a.removeState? i <;> rfl
  | addTransition t =>
      simp only [Command.act_bind, Command.act_addTransition]
      cases a.addTransition t <;> rfl
  | removeTransition t =>
      simp only [Command.removeTransition, Command.act_bind,
        Command.act_look, removeTransition?]
      by_cases ht : t ∈ a.transitions <;>
        simp [ht, report, answerFound]
  | setInitial i =>
      simp only [Command.act_bind, Command.act_setInitial]
      cases a.setInitial i <;> rfl
  | addFinal i =>
      simp only [Command.act_bind, Command.act_addFinal]
      cases a.addFinal i <;> rfl
  | removeFinal i =>
      simp only [Command.act_bind, Command.act_removeFinal]
      cases a.removeFinal? i <;> rfl
  | rename i name =>
      simp only [Command.changeState, Command.act_bind,
        Command.act_look, rename?]
      by_cases hi : a.hasState i <;>
        simp [hi, report, answerFound]
  | relabel i label =>
      simp only [Command.changeState, Command.act_bind,
        Command.act_look, relabel?]
      by_cases hi : a.hasState i <;>
        simp [hi, report, answerFound]

/- An edit in place leaves the automaton after the edit. -/
theorem snd_operate_edit
    (a : Automaton)
    (e : Edit) :
    (a.operate (.edit e)).2 = a.after e := by
  rw [operate_edit, after]
  cases a.perform e <;> rfl

/- Adding a variable in place reports what a graph gives. -/
theorem operate_addVariable
    (g : DependencyGraph)
    (v : Char) :
    g.automaton.operate (.addVariable v) =
      g.automaton.report
        (match g.addVariable v with
          | .ok (i, h) => .ok (.id i, h.automaton)
          | .error f => .error (.fault f)) := by
  unfold operate Operation.command DependencyGraph.addVariable
    DependencyGraph.stateOf?
  simp only [Command.act_bind, Command.act_addVariable]
  cases g.automaton.states.find? fun s =>
      s.name = String.singleton v with
  | some s => rfl
  | none =>
      simp only [Option.map_none]
      cases g.automaton.freshId? <;> rfl

/- Adding an edge in place reports what a graph gives. -/
theorem operate_addDependency
    (g : DependencyGraph)
    (i j : StateId) :
    g.automaton.operate (.addDependency i j) =
      g.automaton.report
        (match g.addDependency i j with
          | .ok h => .ok (.done, h.automaton)
          | .error f => .error (.fault f)) := by
  have hEdge :
      (g.addDependency i j).map DependencyGraph.automaton =
        g.automaton.addTransition ⟨i, j, .dependency⟩ := by
    unfold DependencyGraph.addDependency
    split <;> rename_i hAdd <;> exact hAdd.symm
  unfold operate Operation.command Command.addDependency
  simp only [Command.act_bind, Command.act_addTransition,
    ← hEdge]
  cases g.addDependency i j <;> rfl

------------------------------------------------------------
-- Operations Keep the Invariant
------------------------------------------------------------

/- Every performed edit keeps automata well formed. -/
theorem wellFormed_of_perform
    {a b : Automaton}
    {e : Edit}
    {r : Reply}
    (ha : a.WellFormed)
    (h : a.perform e = .ok (r, b)) :
    b.WellFormed := by
  cases e with
  | addState =>
      simp only [perform] at h
      split at h
      · rename_i hAdd
        cases h
        exact wellFormed_addState ha hAdd
      · cases h
  | insertState s =>
      simp only [perform] at h
      split at h
      · rename_i hInsert
        cases h
        exact wellFormed_insertState ha hInsert
      · cases h
  | removeState i =>
      simp only [perform] at h
      split at h
      · rename_i hRemove
        cases h
        exact wellFormed_removeState ha hRemove
      · cases h
  | addTransition t =>
      exact wellFormed_addTransition ha
        (eq_ok_of_answerDone h)
  | removeTransition t =>
      exact wellFormed_removeTransition ha
        (eq_some_of_answerFound h)
  | setInitial i =>
      exact wellFormed_setInitial ha (eq_ok_of_answerDone h)
  | addFinal i =>
      exact wellFormed_addFinal ha (eq_ok_of_answerDone h)
  | removeFinal i =>
      exact wellFormed_removeFinal ha
        (eq_some_of_answerFound h)
  | rename i name =>
      exact wellFormed_rename ha (eq_some_of_answerFound h)
  | relabel i label =>
      exact wellFormed_relabel ha (eq_some_of_answerFound h)

/-
  An operation reports a result.  If it is performed, it keeps
  the kind and the invariant.
-/
theorem exists_operate_eq_report
    (a : Automaton)
    (o : Operation) :
    ∃ x,
      a.operate o = a.report x ∧
        ∀ r b, x = .ok (r, b) →
          b.kind = a.kind ∧
            (a.WellFormed → b.WellFormed) := by
  cases o with
  | edit e =>
      refine ⟨a.perform e, operate_edit a e, ?_⟩
      intro r b h
      exact ⟨kind_of_perform h,
        fun ha => wellFormed_of_perform ha h⟩
  | addDependency i j =>
      let e : Edit := .addTransition ⟨i, j, .dependency⟩
      refine ⟨a.perform e, operate_edit a e, ?_⟩
      intro r b h
      exact ⟨kind_of_perform h,
        fun ha => wellFormed_of_perform ha h⟩
  | addVariable v =>
      unfold operate Operation.command
      simp only [Command.act_bind, Command.act_addVariable]
      cases a.states.find? fun s =>
          s.name = String.singleton v with
      | some s =>
          refine ⟨.ok (.id s.id, a), rfl, ?_⟩
          intro r b h
          cases h
          exact ⟨rfl, id⟩
      | none =>
          cases hFresh : a.freshId? with
          | none =>
              exact ⟨.error (.fault .noFreeId), rfl, nofun⟩
          | some i =>
              let s : State := ⟨i, String.singleton v, none⟩
              refine
                ⟨.ok (.id i,
                  { a with states := a.states ++ [s] }),
                  rfl, ?_⟩
              intro r b h
              cases h
              refine ⟨rfl, fun ha => ?_⟩
              have hFree : s.id ∉ a.ids :=
                not_mem_of_freshId? hFresh
              exact wellFormed_insertState ha
                ((insertState_eq_ok_iff a _ s).mpr
                  ⟨hFree, rfl⟩)

/- A refused operation leaves the automaton as it was. -/
theorem operate_of_refused
    {a : Automaton}
    {o : Operation}
    {refusal : Refusal}
    (h : (a.operate o).1 = .error refusal) :
    (a.operate o).2 = a := by
  rcases exists_operate_eq_report a o with ⟨x, hReport, _⟩
  rw [hReport] at h ⊢
  exact eq_of_report_refused h

/- Every operation keeps the kind and the invariant. -/
theorem operate_keeps
    (a : Automaton)
    (o : Operation) :
    (a.operate o).2.kind = a.kind ∧
      (a.WellFormed → (a.operate o).2.WellFormed) := by
  rcases exists_operate_eq_report a o with
    ⟨x, hReport, hPerformed⟩
  rw [hReport]
  cases x with
  | ok y => exact hPerformed y.1 y.2 rfl
  | error refusal => exact ⟨rfl, id⟩

------------------------------------------------------------
-- Whole Histories
------------------------------------------------------------

/- A history keeps the kind and the invariant. -/
theorem afterAll_keeps
    (a : Automaton)
    (os : List Operation) :
    (a.afterAll os).kind = a.kind ∧
      (a.WellFormed → (a.afterAll os).WellFormed) := by
  induction os generalizing a with
  | nil => exact ⟨rfl, id⟩
  | cons o os ih =>
      have hStep := operate_keeps a o
      have hRest := ih (a.operate o).2
      exact ⟨hRest.1.trans hStep.1,
        fun ha => hRest.2 (hStep.2 ha)⟩

/-
  The performed operations alone leave the same automaton and
  give the answers that were no refusals.
-/
theorem afterAll_performed
    (a : Automaton)
    (os : List Operation) :
    a.afterAll (a.performed os) = a.afterAll os ∧
      a.answers (a.performed os) =
        (a.answers os).filter fun x => x.isOk := by
  induction os generalizing a with
  | nil => exact ⟨rfl, rfl⟩
  | cons o os ih =>
      cases hAnswer : (a.operate o).1 with
      | ok r =>
          have hRest := ih (a.operate o).2
          simp [performed, afterAll, answers, hAnswer,
            Except.isOk, Except.toBool, hRest]
      | error refusal =>
          have hRest := ih a
          simp [performed, afterAll, answers, hAnswer,
            operate_of_refused hAnswer, Except.isOk,
            Except.toBool, hRest]

/-
  Whatever operations are carried out from the automaton of a
  kind without states on, the automaton is of that kind and
  well formed.  An operation that is refused there leaves it
  exactly as it was, so that the performed operations alone
  lead to the same automaton with the same answers.
-/
theorem invariant_of_history
    (k : TransitionKind)
    (os : List Operation) :
    let start : Automaton := { kind := k }
    let a := start.afterAll os
    a.kind = k ∧
      a.WellFormed ∧
      (∀ o refusal,
        (a.operate o).1 = .error refusal →
          (a.operate o).2 = a) ∧
      start.afterAll (start.performed os) = a ∧
      start.answers (start.performed os) =
        (start.answers os).filter fun x => x.isOk := by
  intro start a
  have hKeeps := afterAll_keeps start os
  have hPerformed := afterAll_performed start os
  exact ⟨hKeeps.1, hKeeps.2 (wellFormed_empty k),
    fun _ _ h => operate_of_refused h, hPerformed⟩

end Automaton

end AutomataStore
