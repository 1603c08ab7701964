import AutomataStore.Machine.Automaton
import AutomataStore.Proofs.FreshIds

/-
  What operations on automata do, and that they keep automata
  well formed.

  Main declarations:
    * `Automaton.insertState_eq_ok_iff` and its siblings
    * `Automaton.wellFormed_iff`
    * `Automaton.wellFormed_insertState` and its siblings
    * `Automaton.wellFormed_removeState`
    * `Automaton.wellFormed_modifyFirst`
-/

------------------------------------------------------------
-- Performed Operations
------------------------------------------------------------

namespace AutomataStore

namespace Automaton

/- An id is required exactly of the states. -/
theorem require_eq_ok_iff
    (a : Automaton)
    (i : StateId) :
    a.require i = .ok () ↔ i ∈ a.ids := by
  rw [← hasState_iff, require]
  split <;> simp_all

/- An id that is no state's is refused with its name. -/
theorem require_eq_error
    {a : Automaton}
    {i : StateId}
    (hi : i ∉ a.ids) :
    a.require i = .error (.unknownState i) := by
  rw [← hasState_iff] at hi
  rw [require, if_neg hi]

/- A state is inserted exactly when its id is free. -/
theorem insertState_eq_ok_iff
    (a b : Automaton)
    (s : State) :
    a.insertState s = .ok b ↔
      s.id ∉ a.ids ∧
        b = { a with states := a.states ++ [s] } := by
  rw [← hasState_iff, insertState]
  split
  · rename_i hTaken
    simp [hTaken]
  · rename_i hFree
    simp [hFree, eq_comm]

/-
  A transition is added exactly when it is of the automaton's
  kind and joins two states.
-/
theorem addTransition_eq_ok_iff
    (a b : Automaton)
    (t : Transition) :
    a.addTransition t = .ok b ↔
      t.kind = a.kind ∧ t.source ∈ a.ids ∧
        t.target ∈ a.ids ∧
        b =
          { a with transitions := a.transitions ++ [t] } := by
  unfold addTransition
  split
  · rename_i hKind
    by_cases hSource : t.source ∈ a.ids
    · by_cases hTarget : t.target ∈ a.ids
      · simp only [(require_eq_ok_iff a _).mpr hSource,
          (require_eq_ok_iff a _).mpr hTarget, hKind,
          hSource, hTarget, true_and]
        change Except.ok _ = Except.ok b ↔ _
        rw [Except.ok.injEq, eq_comm]
      · simp only [(require_eq_ok_iff a _).mpr hSource,
          require_eq_error hTarget, hTarget, false_and,
          and_false, iff_false]
        exact nofun
    · simp only [require_eq_error hSource, hSource,
        false_and, and_false, iff_false]
      exact nofun
  · rename_i hKind
    simp [hKind]

/- A transition is refused by the state it does not start at. -/
theorem addTransition_of_source_not_mem
    {a : Automaton}
    {t : Transition}
    (hKind : t.kind = a.kind)
    (hSource : t.source ∉ a.ids) :
    a.addTransition t = .error (.unknownState t.source) := by
  rw [addTransition, if_pos hKind, require_eq_error hSource]
  rfl

/- If it starts at a state, then by the one it does not end at. -/
theorem addTransition_of_target_not_mem
    {a : Automaton}
    {t : Transition}
    (hKind : t.kind = a.kind)
    (hSource : t.source ∈ a.ids)
    (hTarget : t.target ∉ a.ids) :
    a.addTransition t = .error (.unknownState t.target) := by
  rw [addTransition, if_pos hKind,
    (require_eq_ok_iff a _).mpr hSource,
    require_eq_error hTarget]
  rfl

/- An initial state is chosen exactly from the states. -/
theorem setInitial_eq_ok_iff
    (a b : Automaton)
    (i : Option StateId) :
    a.setInitial i = .ok b ↔
      (∀ j, i = some j → j ∈ a.ids) ∧
        b = { a with initial := i } := by
  unfold setInitial
  cases i with
  | none =>
      change Except.ok _ = Except.ok b ↔ _
      simp [eq_comm]
  | some i =>
      by_cases hi : i ∈ a.ids
      · simp only [(require_eq_ok_iff a _).mpr hi]
        change Except.ok _ = Except.ok b ↔ _
        simp [hi, eq_comm]
      · simp only [require_eq_error hi]
        change Except.error _ = Except.ok b ↔ _
        simp [hi]

/- A state is marked as final exactly if it is one. -/
theorem addFinal_eq_ok_iff
    (a b : Automaton)
    (i : StateId) :
    a.addFinal i = .ok b ↔
      i ∈ a.ids ∧
        b = { a with finals := a.finals.insert i } := by
  unfold addFinal
  by_cases hi : i ∈ a.ids
  · simp only [(require_eq_ok_iff a _).mpr hi]
    change Except.ok _ = Except.ok b ↔ _
    simp [hi, eq_comm]
  · simp only [require_eq_error hi]
    change Except.error _ = Except.ok b ↔ _
    simp [hi]

/- Adding a state is inserting the one with the free id. -/
theorem insertState_of_addState
    {a b : Automaton}
    {i : StateId}
    (h : a.addState = .ok (i, b)) :
    a.insertState (.ofId i) = .ok b := by
  unfold addState at h
  cases hFresh : a.freshId? with
  | none => simp [hFresh] at h
  | some j =>
      simp only [hFresh, Except.ok.injEq, Prod.mk.injEq] at h
      obtain ⟨rfl, rfl⟩ := h
      rw [insertState_eq_ok_iff]
      exact ⟨not_mem_of_freshId? hFresh, rfl⟩

/-
  A state is removed exactly when there is one, and with it
  go the transitions that touch it and its marks.
-/
theorem removeState?_eq_some_iff
    (a b : Automaton)
    (i : StateId)
    (s : State) :
    a.removeState? i = some (s, b) ↔
      a.state? i = some s ∧
        b =
          { a with
            states := a.states.eraseP fun s => s.id = i
            transitions :=
              a.transitions.filter fun t => !t.touches i
            initial :=
              if a.initial = some i then none else a.initial
            finals := a.finals.erase i } := by
  unfold removeState?
  cases a.state? i with
  | none => simp
  | some r => simp [eq_comm]

/- Every id of a state finds one. -/
theorem exists_state?_of_mem
    {a : Automaton}
    {i : StateId}
    (hi : i ∈ a.ids) :
    ∃ s, a.state? i = some s := by
  rw [← Option.isSome_iff_exists, state?, List.find?_isSome]
  rcases List.mem_map.mp hi with ⟨s, hs, hId⟩
  exact ⟨s, hs, decide_eq_true hId⟩

------------------------------------------------------------
-- The Invariant
------------------------------------------------------------

/- The invariant in parts that can be checked one by one. -/
theorem wellFormed_iff
    (a : Automaton) :
    a.WellFormed ↔
      a.ids.Nodup ∧
        (∀ t ∈ a.transitions,
          t.source ∈ a.ids ∧ t.target ∈ a.ids ∧
            t.kind = a.kind) ∧
        (∀ i ∈ a.initial.toList, i ∈ a.ids) ∧
        ∀ i ∈ a.finals.members, i ∈ a.ids := by
  constructor
  · intro ha
    refine ⟨ha.nodup_ids, ?_, ?_, ha.finals_mem⟩
    · intro t ht
      exact ⟨ha.source_mem t ht, ha.target_mem t ht,
        ha.kind_eq t ht⟩
    · intro i hi
      exact ha.initial_mem i (Option.mem_toList.mp hi)
  · rintro ⟨hNodup, hAll, hInitial, hFinals⟩
    constructor
    · exact hNodup
    · exact fun t ht => (hAll t ht).1
    · exact fun t ht => (hAll t ht).2.1
    · exact fun t ht => (hAll t ht).2.2
    · exact fun i hi => hInitial i (Option.mem_toList.mpr hi)
    · exact hFinals

instance
    (a : Automaton) :
    Decidable a.WellFormed :=
  decidable_of_iff _ a.wellFormed_iff.symm

/- The automaton without states is well formed. -/
theorem wellFormed_empty
    (k : TransitionKind) :
    WellFormed { kind := k } where
  nodup_ids := List.nodup_nil
  source_mem := nofun
  target_mem := nofun
  kind_eq := nofun
  initial_mem := nofun
  finals_mem := nofun

/- Inserting a state keeps automata well formed. -/
theorem wellFormed_insertState
    {a b : Automaton}
    {s : State}
    (ha : a.WellFormed)
    (h : a.insertState s = .ok b) :
    b.WellFormed := by
  rcases (insertState_eq_ok_iff a b s).mp h with ⟨hs, rfl⟩
  have hIds :
      ids { a with states := a.states ++ [s] } =
        a.ids ++ [s.id] := by
    simp [ids]
  have hMem :
      ∀ i ∈ a.ids,
        i ∈ ids { a with states := a.states ++ [s] } := by
    intro i hi
    rw [hIds]
    exact List.mem_append_left _ hi
  constructor
  · rw [hIds, List.nodup_append]
    refine ⟨ha.nodup_ids, by simp, ?_⟩
    intro i hi j hj hij
    rw [List.mem_singleton.mp hj] at hij
    exact hs (hij ▸ hi)
  · exact fun t ht => hMem _ (ha.source_mem t ht)
  · exact fun t ht => hMem _ (ha.target_mem t ht)
  · exact ha.kind_eq
  · exact fun i hi => hMem _ (ha.initial_mem i hi)
  · exact fun i hi => hMem _ (ha.finals_mem i hi)

/- Adding a transition keeps automata well formed. -/
theorem wellFormed_addTransition
    {a b : Automaton}
    {t : Transition}
    (ha : a.WellFormed)
    (h : a.addTransition t = .ok b) :
    b.WellFormed := by
  rcases (addTransition_eq_ok_iff a b t).mp h with
    ⟨hKind, hSource, hTarget, rfl⟩
  have hAll :
      ∀ p : Transition → Prop,
        (∀ u ∈ a.transitions, p u) → p t →
          ∀ u ∈ a.transitions ++ [t], p u := by
    intro p ha ht u hu
    rcases List.mem_append.mp hu with hu | hu
    · exact ha u hu
    · rw [List.mem_singleton.mp hu]
      exact ht
  constructor
  · exact ha.nodup_ids
  · exact hAll _ ha.source_mem hSource
  · exact hAll _ ha.target_mem hTarget
  · exact hAll _ ha.kind_eq hKind
  · exact ha.initial_mem
  · exact ha.finals_mem

/- Choosing the initial state keeps automata well formed. -/
theorem wellFormed_setInitial
    {a b : Automaton}
    {i : Option StateId}
    (ha : a.WellFormed)
    (h : a.setInitial i = .ok b) :
    b.WellFormed := by
  rcases (setInitial_eq_ok_iff a b i).mp h with ⟨hi, rfl⟩
  constructor
  · exact ha.nodup_ids
  · exact ha.source_mem
  · exact ha.target_mem
  · exact ha.kind_eq
  · exact hi
  · exact ha.finals_mem

/- Marking a final state keeps automata well formed. -/
theorem wellFormed_addFinal
    {a b : Automaton}
    {i : StateId}
    (ha : a.WellFormed)
    (h : a.addFinal i = .ok b) :
    b.WellFormed := by
  rcases (addFinal_eq_ok_iff a b i).mp h with ⟨hi, rfl⟩
  constructor
  · exact ha.nodup_ids
  · exact ha.source_mem
  · exact ha.target_mem
  · exact ha.kind_eq
  · exact ha.initial_mem
  · intro j hj
    rcases (StateSet.mem_insert_iff j i a.finals).mp hj with
      rfl | hj
    · exact hi
    · exact ha.finals_mem j hj

/- Adding a fresh state keeps automata well formed. -/
theorem wellFormed_addState
    {a b : Automaton}
    {i : StateId}
    (ha : a.WellFormed)
    (h : a.addState = .ok (i, b)) :
    b.WellFormed :=
  wellFormed_insertState ha (insertState_of_addState h)

/- Removing the first state with an id removes the id once. -/
theorem ids_eraseP
    (a : Automaton)
    (i : StateId) :
    (a.states.eraseP fun s => s.id = i).map State.id =
      a.ids.erase i := by
  rw [List.erase_eq_eraseP', ids, List.eraseP_map]
  rfl

/- Removing a state keeps automata well formed. -/
theorem wellFormed_removeState
    {a b : Automaton}
    {i : StateId}
    {s : State}
    (ha : a.WellFormed)
    (h : a.removeState? i = some (s, b)) :
    b.WellFormed := by
  obtain ⟨_, rfl⟩ := (removeState?_eq_some_iff a b i s).mp h
  have hKept :
      ∀ j ∈ a.ids, j ≠ i →
        j ∈ (a.states.eraseP fun s => s.id = i).map
          State.id := by
    intro j hj hNe
    rw [ids_eraseP]
    exact (List.mem_erase_of_ne hNe).mpr hj
  have hApart :
      ∀ t ∈ a.transitions.filter (fun t => !t.touches i),
        t ∈ a.transitions ∧ t.source ≠ i ∧
          t.target ≠ i := by
    intro t ht
    simpa [Transition.touches] using ht
  constructor
  · change (List.map State.id _).Nodup
    rw [ids_eraseP]
    exact ha.nodup_ids.erase i
  · intro t ht
    have hAway := hApart t ht
    exact hKept _ (ha.source_mem t hAway.1) hAway.2.1
  · intro t ht
    have hAway := hApart t ht
    exact hKept _ (ha.target_mem t hAway.1) hAway.2.2
  · exact fun t ht => ha.kind_eq t (hApart t ht).1
  · intro j hj
    simp only at hj
    split at hj
    · cases hj
    · rename_i hInitial
      refine hKept j (ha.initial_mem j hj) ?_
      rintro rfl
      exact hInitial hj
  · intro j hj
    rcases (StateSet.mem_erase_iff j i a.finals).mp hj with
      ⟨hFinal, hNe⟩
    exact hKept j (ha.finals_mem j hFinal) hNe

/- Removing a transition keeps automata well formed. -/
theorem wellFormed_removeTransition
    {a b : Automaton}
    {t : Transition}
    (ha : a.WellFormed)
    (h : a.removeTransition? t = some b) :
    b.WellFormed := by
  unfold removeTransition? at h
  split at h
  · simp only [Option.some.injEq] at h
    subst h
    have hLeft :
        ∀ u ∈ a.transitions.erase t, u ∈ a.transitions :=
      fun u hu => List.mem_of_mem_erase hu
    constructor
    · exact ha.nodup_ids
    · exact fun u hu => ha.source_mem u (hLeft u hu)
    · exact fun u hu => ha.target_mem u (hLeft u hu)
    · exact fun u hu => ha.kind_eq u (hLeft u hu)
    · exact ha.initial_mem
    · exact ha.finals_mem
  · cases h

/- Taking off a final mark keeps automata well formed. -/
theorem wellFormed_removeFinal
    {a b : Automaton}
    {i : StateId}
    (ha : a.WellFormed)
    (h : a.removeFinal? i = some b) :
    b.WellFormed := by
  unfold removeFinal? at h
  split at h
  · simp only [Option.some.injEq] at h
    subst h
    constructor
    · exact ha.nodup_ids
    · exact ha.source_mem
    · exact ha.target_mem
    · exact ha.kind_eq
    · exact ha.initial_mem
    · intro j hj
      exact ha.finals_mem j
        ((StateSet.mem_erase_iff j i a.finals).mp hj).1
  · cases h

/- A change that keeps the id of a state keeps all ids. -/
theorem ids_modifyFirst
    {f : State → State}
    (hf : ∀ s, (f s).id = s.id)
    (i : StateId)
    (l : List State) :
    (modifyFirst i f l).map State.id = l.map State.id := by
  induction l with
  | nil => rfl
  | cons s l ih =>
      simp only [modifyFirst]
      split
      · simp [hf]
      · simp [ih]

/- Changing a state but not its id keeps the invariant. -/
theorem wellFormed_modifyFirst
    {a : Automaton}
    (ha : a.WellFormed)
    {f : State → State}
    (hf : ∀ s, (f s).id = s.id)
    (i : StateId) :
    WellFormed
      { a with states := modifyFirst i f a.states } := by
  have hIds :
      ids { a with states := modifyFirst i f a.states } =
        a.ids :=
    ids_modifyFirst hf i a.states
  constructor
  · rw [hIds]
    exact ha.nodup_ids
  · rw [hIds]
    exact ha.source_mem
  · rw [hIds]
    exact ha.target_mem
  · exact ha.kind_eq
  · rw [hIds]
    exact ha.initial_mem
  · rw [hIds]
    exact ha.finals_mem

/- Renaming a state keeps automata well formed. -/
theorem wellFormed_rename
    {a b : Automaton}
    {i : StateId}
    {name : String}
    (ha : a.WellFormed)
    (h : a.rename? i name = some b) :
    b.WellFormed := by
  unfold rename? at h
  split at h
  · simp only [Option.some.injEq] at h
    subst h
    apply wellFormed_modifyFirst ha
    exact fun _ => rfl
  · cases h

/- Relabelling a state keeps automata well formed. -/
theorem wellFormed_relabel
    {a b : Automaton}
    {i : StateId}
    {label : Option String}
    (ha : a.WellFormed)
    (h : a.relabel? i label = some b) :
    b.WellFormed := by
  unfold relabel? at h
  split at h
  · simp only [Option.some.injEq] at h
    subst h
    apply wellFormed_modifyFirst ha
    exact fun _ => rfl
  · cases h

end Automaton

end AutomataStore
