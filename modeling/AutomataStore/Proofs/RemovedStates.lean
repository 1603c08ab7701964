import AutomataStore.Proofs.Histories
import Mathlib.Data.List.Nodup

/-
  Removing a state takes away what has to do with it, and
  nothing else.

  What a removal leaves does not depend on the transitions at
  the state and on its final mark.  Operations that only
  change these are therefore undone when the state goes, and
  so is the insertion of the state itself.

  Key definitions include:
    * `Automaton.without`
    * `Automaton.Avoids`
    * `Operation.Concerns`

  Main declarations:
    * `Automaton.removeState?_of_mem`
    * `Automaton.removeState?_operate`
    * `Automaton.removeState?_afterAll`
    * `Automaton.removeState_of_member`
-/

------------------------------------------------------------
-- What a Removal Leaves
------------------------------------------------------------

namespace AutomataStore

namespace StateSet

/- An insertion is forgotten when the member is erased. -/
theorem erase_insert
    (i : StateId)
    (s : StateSet) :
    (s.insert i).erase i = s.erase i := by
  apply StateSet.ext
  intro j
  rw [mem_erase_iff, mem_erase_iff, mem_insert_iff]
  constructor
  · rintro ⟨rfl | hj, hNe⟩
    · exact absurd rfl hNe
    · exact ⟨hj, hNe⟩
  · rintro ⟨hj, hNe⟩
    exact ⟨Or.inr hj, hNe⟩

/- So is an erasure. -/
theorem erase_erase
    (i : StateId)
    (s : StateSet) :
    (s.erase i).erase i = s.erase i := by
  apply erase_of_not_mem
  rw [mem_erase_iff]
  exact fun h => h.2 rfl

end StateSet

namespace Automaton

/-
  An automaton less a state: the other states, the transitions
  between them and their marks, all in their order.
-/
def without (a : Automaton) (i : StateId) : Automaton where
  kind := a.kind
  states := a.states.filter fun s => s.id ≠ i
  transitions :=
    a.transitions.filter fun t =>
      t.source ≠ i ∧ t.target ≠ i
  initial := a.initial.filter fun j => j ≠ i
  finals := a.finals.erase i

/- An id that occurs nowhere in an automaton. -/
structure Avoids (a : Automaton) (i : StateId) : Prop where
  not_state : i ∉ a.ids
  not_endpoint :
    ∀ t ∈ a.transitions, t.source ≠ i ∧ t.target ≠ i
  not_initial : a.initial ≠ some i
  not_final : i ∉ a.finals

/- The id of a state that is left out occurs nowhere. -/
theorem avoids_without
    (a : Automaton)
    (i : StateId) :
    (a.without i).Avoids i where
  not_state := by
    simp [without, ids]
  not_endpoint := by
    intro t ht
    exact of_decide_eq_true (List.mem_filter.mp ht).2
  not_initial := by
    simp [without, Option.filter_eq_some_iff]
  not_final := by
    simp [without]

/- Leaving out what does not occur changes nothing. -/
theorem without_of_avoids
    {a : Automaton}
    {i : StateId}
    (h : a.Avoids i) :
    a.without i = a := by
  have hStates :
      a.states.filter (fun s => s.id ≠ i) = a.states := by
    rw [List.filter_eq_self]
    intro s hs
    apply decide_eq_true
    rintro rfl
    exact h.not_state (List.mem_map_of_mem hs)
  have hTransitions :
      a.transitions.filter
          (fun t => t.source ≠ i ∧ t.target ≠ i) =
        a.transitions := by
    rw [List.filter_eq_self]
    exact fun t ht => decide_eq_true (h.not_endpoint t ht)
  have hInitial :
      a.initial.filter (fun j => j ≠ i) = a.initial := by
    cases hStart : a.initial with
    | none => rfl
    | some j =>
        have hj : j ≠ i := by
          rintro rfl
          exact h.not_initial hStart
        simp [Option.filter, hj]
  unfold without
  rw [hStates, hTransitions, hInitial,
    StateSet.erase_of_not_mem h.not_final]

/- An id that is no state's occurs nowhere. -/
theorem avoids_of_not_mem
    {a : Automaton}
    (ha : a.WellFormed)
    {i : StateId}
    (hi : i ∉ a.ids) :
    a.Avoids i where
  not_state := hi
  not_endpoint := by
    intro t ht
    constructor
    · rintro rfl
      exact hi (ha.source_mem t ht)
    · rintro rfl
      exact hi (ha.target_mem t ht)
  not_initial := fun h => hi (ha.initial_mem i h)
  not_final := fun h => hi (ha.finals_mem i h)

------------------------------------------------------------
-- Removing a State
------------------------------------------------------------

/- Among distinct ids, a state is found under its own. -/
theorem state?_of_mem
    {a : Automaton}
    (hNodup : a.ids.Nodup)
    {s : State}
    (hs : s ∈ a.states) :
    a.state? s.id = some s := by
  rcases exists_state?_of_mem (List.mem_map_of_mem hs) with
    ⟨r, hFound⟩
  have hr : r ∈ a.states := List.mem_of_find?_eq_some hFound
  have hId : r.id = s.id := by
    simpa using List.find?_some hFound
  rw [hFound, List.inj_on_of_nodup_map hNodup hr hs hId]

/- Among distinct ids, the first state with one is the only. -/
theorem eraseP_eq_filter
    {l : List State}
    (hNodup : (l.map State.id).Nodup)
    (i : StateId) :
    l.eraseP (fun s => s.id = i) =
      l.filter fun s => s.id ≠ i := by
  induction l with
  | nil => rfl
  | cons s l ih =>
      rw [List.map_cons, List.nodup_cons] at hNodup
      by_cases hs : s.id = i
      · have hOthers :
            l.filter (fun s => s.id ≠ i) = l := by
          rw [List.filter_eq_self]
          intro r hr
          apply decide_eq_true
          intro hSame
          apply hNodup.1
          rw [hs, ← hSame]
          exact List.mem_map_of_mem hr
        rw [List.filter_cons_of_neg (by simp [hs]), hOthers]
        simp [hs]
      · rw [List.filter_cons_of_pos (by simp [hs]),
          ← ih hNodup.2]
        simp [hs]

/- Removing a state leaves the automaton less that state. -/
theorem removeState?_of_mem
    {a : Automaton}
    (ha : a.WellFormed)
    {s : State}
    (hs : s ∈ a.states) :
    a.removeState? s.id = some (s, a.without s.id) := by
  rw [removeState?_eq_some_iff]
  refine ⟨state?_of_mem ha.nodup_ids hs, ?_⟩
  have hTransitions :
      a.transitions.filter (fun t => !t.touches s.id) =
        a.transitions.filter
          fun t => t.source ≠ s.id ∧ t.target ≠ s.id := by
    apply List.filter_congr
    intro t _
    simp [Transition.touches]
  have hInitial :
      (if a.initial = some s.id then none else a.initial) =
        a.initial.filter fun j => j ≠ s.id := by
    cases a.initial with
    | none => rfl
    | some j =>
        by_cases hj : j = s.id <;> simp [Option.filter, hj]
  rw [without, eraseP_eq_filter ha.nodup_ids, hTransitions,
    hInitial]

/- A removal in place answers the state that was removed. -/
theorem operate_removeState
    {a b : Automaton}
    {i : StateId}
    {s : State}
    (h : a.removeState? i = some (s, b)) :
    a.operate (.edit (.removeState i)) =
      (.ok (.removed s), b) := by
  rw [operate_edit, perform, h]
  rfl

------------------------------------------------------------
-- Operations that Concern One State
------------------------------------------------------------

end Automaton

/-
  An operation concerns a state when it adds a transition that
  touches it or changes whether it is final.
-/
def Operation.Concerns (i : StateId) : Operation → Prop
  | .edit (.addTransition t) => t.touches i = true
  | .edit (.addFinal j) => j = i
  | .edit (.removeFinal j) => j = i
  | .addDependency j k => j = i ∨ k = i
  | _ => False

namespace Automaton

/-
  Automata that differ in the transitions at a state and in
  its final mark are the same once it is removed.
-/
theorem removeState?_congr
    (a : Automaton)
    {i : StateId}
    {transitions : List Transition}
    (hTransitions :
      transitions.filter (fun t => !t.touches i) =
        a.transitions.filter fun t => !t.touches i)
    {finals : StateSet}
    (hFinals : finals.erase i = a.finals.erase i) :
    removeState?
        { a with transitions := transitions, finals := finals }
        i =
      a.removeState? i := by
  simp only [removeState?, state?, hTransitions, hFinals]

/- A transition at a state goes when the state does. -/
theorem removeState?_of_addTransition
    {a b : Automaton}
    {i : StateId}
    {t : Transition}
    (ht : t.touches i = true)
    (h : a.addTransition t = .ok b) :
    b.removeState? i = a.removeState? i := by
  rcases (addTransition_eq_ok_iff a b t).mp h with
    ⟨_, _, _, rfl⟩
  apply removeState?_congr a _ rfl
  simp [ht]

/- The final mark of a state goes when the state does. -/
theorem removeState?_of_addFinal
    {a b : Automaton}
    {i : StateId}
    (h : a.addFinal i = .ok b) :
    b.removeState? i = a.removeState? i := by
  rcases (addFinal_eq_ok_iff a b i).mp h with ⟨_, rfl⟩
  exact removeState?_congr a rfl (StateSet.erase_insert i _)

/- It does not matter if the mark was taken off before. -/
theorem removeState?_of_removeFinal
    {a b : Automaton}
    {i : StateId}
    (h : a.removeFinal? i = some b) :
    b.removeState? i = a.removeState? i := by
  unfold removeFinal? at h
  split at h
  · cases h
    exact removeState?_congr a rfl (StateSet.erase_erase i _)
  · cases h

/- What an edit that concerns a state did goes with the state. -/
theorem removeState?_of_perform
    {a b : Automaton}
    {e : Edit}
    {r : Reply}
    {i : StateId}
    (he : (Operation.edit e).Concerns i)
    (h : a.perform e = .ok (r, b)) :
    b.removeState? i = a.removeState? i := by
  cases e with
  | addTransition t =>
      exact removeState?_of_addTransition he
        (eq_ok_of_answerDone h)
  | addFinal j =>
      cases he
      exact removeState?_of_addFinal (eq_ok_of_answerDone h)
  | removeFinal j =>
      cases he
      exact removeState?_of_removeFinal
        (eq_some_of_answerFound h)
  | _ => cases he

/- It makes no difference if the edit was refused. -/
theorem removeState?_after
    (a : Automaton)
    {e : Edit}
    {i : StateId}
    (he : (Operation.edit e).Concerns i) :
    (a.after e).removeState? i = a.removeState? i := by
  unfold after
  cases h : a.perform e with
  | error refusal => rfl
  | ok done => exact removeState?_of_perform he h

/- What any operation that concerns it did goes as well. -/
theorem removeState?_operate
    (a : Automaton)
    {o : Operation}
    {i : StateId}
    (ho : o.Concerns i) :
    (a.operate o).2.removeState? i = a.removeState? i := by
  cases o with
  | edit e =>
      rw [snd_operate_edit]
      exact removeState?_after a ho
  | addVariable v => cases ho
  | addDependency j k =>
      -- Adding an edge is adding its transition.
      have hEdge :
          a.operate (.addDependency j k) =
            a.operate
              (.edit (.addTransition ⟨j, k, .dependency⟩)) :=
        rfl
      rw [hEdge, snd_operate_edit]
      apply removeState?_after
      simpa [Operation.Concerns, Transition.touches] using ho

/- So does what a whole history of them did. -/
theorem removeState?_afterAll
    (a : Automaton)
    {os : List Operation}
    {i : StateId}
    (hos : ∀ o ∈ os, o.Concerns i) :
    (a.afterAll os).removeState? i = a.removeState? i := by
  induction os generalizing a with
  | nil => rfl
  | cons o os ih =>
      rw [List.forall_mem_cons] at hos
      rw [afterAll, ih _ hos.2, removeState?_operate a hos.1]

------------------------------------------------------------
-- Undoing an Insertion
------------------------------------------------------------

/- A state is inserted behind the others if its id is free. -/
theorem operate_insertState
    {a : Automaton}
    {s : State}
    (hs : s.id ∉ a.ids) :
    a.operate (.edit (.insertState s)) =
      (.ok (.id s.id),
        { a with states := a.states ++ [s] }) := by
  have hInsert :=
    (insertState_eq_ok_iff a _ s).mpr ⟨hs, rfl⟩
  rw [operate_edit, perform, hInsert]
  rfl

/- Leaving out a new state leaves what was there before. -/
theorem without_append_state
    {a : Automaton}
    (ha : a.WellFormed)
    {s : State}
    (hs : s.id ∉ a.ids) :
    without { a with states := a.states ++ [s] } s.id = a := by
  have hSame :
      without { a with states := a.states ++ [s] } s.id =
        a.without s.id := by
    simp [without]
  rw [hSame, without_of_avoids (avoids_of_not_mem ha hs)]

/-
  Removing a state of a well-formed automaton answers the
  state and leaves the automaton less that state, where its
  id occurs nowhere.  If a state with a free id is inserted,
  whatever transitions are then added at it and however its
  final mark is changed, removing it gives back the automaton
  as it was.
-/
theorem removeState_of_member
    (a : Automaton)
    (ha : a.WellFormed) :
    (∀ s ∈ a.states,
        a.operate (.edit (.removeState s.id)) =
            (.ok (.removed s), a.without s.id) ∧
          (a.without s.id).Avoids s.id) ∧
      ∀ s : State,
        s.id ∉ a.ids →
          ∀ os : List Operation,
            (∀ o ∈ os, o.Concerns s.id) →
              let inserted :=
                a.operate (.edit (.insertState s))
              inserted.1 = .ok (.id s.id) ∧
                (inserted.2.afterAll os).operate
                    (.edit (.removeState s.id)) =
                  (.ok (.removed s), a) := by
  constructor
  · intro s hs
    exact ⟨operate_removeState (removeState?_of_mem ha hs),
      a.avoids_without s.id⟩
  · intro s hs os hos
    have hInsert := operate_insertState hs
    simp only [hInsert, true_and]
    have hWellFormed :=
      wellFormed_insertState ha
        ((insertState_eq_ok_iff a _ s).mpr ⟨hs, rfl⟩)
    apply operate_removeState
    rw [removeState?_afterAll _ hos,
      removeState?_of_mem hWellFormed (s := s) (by simp),
      without_append_state ha hs]

/- A door whose first state is the initial one and final. -/
def door : Automaton where
  kind := .finite
  states := [.ofId ⟨2⟩, .ofId ⟨0⟩]
  transitions :=
    [⟨⟨2⟩, ⟨0⟩, .finite "open"⟩,
     ⟨⟨0⟩, ⟨0⟩, .finite "wait"⟩]
  initial := some ⟨2⟩
  finals := .ofList [⟨0⟩, ⟨2⟩]

/- The door loses its first state, and a third one again. -/
theorem removeState_of_member_door :
    door.WellFormed ∧
      State.ofId ⟨2⟩ ∈ door.states ∧
      door.operate (.edit (.removeState ⟨2⟩)) =
        (.ok (.removed (.ofId ⟨2⟩)),
          { kind := .finite
            states := [.ofId ⟨0⟩]
            transitions := [⟨⟨0⟩, ⟨0⟩, .finite "wait"⟩]
            finals := .ofList [⟨0⟩] }) ∧
      door.afterAll
          [.edit (.insertState (.ofId ⟨1⟩)),
           .edit (.addTransition ⟨⟨1⟩, ⟨2⟩, .finite "shut"⟩),
           .edit (.addFinal ⟨1⟩),
           .edit (.addTransition ⟨⟨1⟩, ⟨1⟩, .finite ""⟩),
           .edit (.removeState ⟨1⟩)] =
        door := by
  have hDoor : door.WellFormed := by decide
  have hMem : State.ofId ⟨2⟩ ∈ door.states := by decide
  have hLess :
      door.without ⟨2⟩ =
        { kind := .finite
          states := [.ofId ⟨0⟩]
          transitions := [⟨⟨0⟩, ⟨0⟩, .finite "wait"⟩]
          finals := .ofList [⟨0⟩] } := by
    decide
  have hConcerns :
      ∀ o ∈ [Operation.edit
            (.addTransition ⟨⟨1⟩, ⟨2⟩, .finite "shut"⟩),
          .edit (.addFinal ⟨1⟩),
          .edit (.addTransition ⟨⟨1⟩, ⟨1⟩, .finite ""⟩)],
        o.Concerns ⟨1⟩ := by
    simp [Operation.Concerns, Transition.touches]
  rcases removeState_of_member door hDoor with
    ⟨hRemoved, hUndone⟩
  refine ⟨hDoor, hMem, ?_, ?_⟩
  · rw [← hLess]
    exact (hRemoved _ hMem).1
  · exact congrArg Prod.snd
      (hUndone (.ofId ⟨1⟩) (by decide) _ hConcerns).2

end Automaton

end AutomataStore
