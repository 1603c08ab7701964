import AutomataStore.Proofs.AutomatonInvariant
import AutomataStore.Storage.Registry
import Mathlib.Data.List.Induction
import Mathlib.Data.List.Nodup

/-
  What a document declares is what is read from it.

  Elements declare states and transitions, wherever they
  stand in a document.  They are sound if every reference is
  an id, no state has the id of another one and transitions
  refer to states.  The states are read first, so that the
  first unsound state is found before any transition.

  Key definitions include:
    * `MachineForm.reference?`, `MachineForm.declared`
    * `MachineForm.StatesSound`, `MachineForm.Sound`
    * `MachineForm.stateFault?`, `MachineForm.transitionFault?`
    * `MachineForm.FirstFault`

  Main declarations:
    * `MachineForm.outcome_takeState_of_sound`
    * `MachineForm.outcome_takeTransition_of_sound`
    * `MachineForm.outcome_read_of_sound`
    * `MachineForm.outcome_read_of_firstFault`
    * `MachineForm.sound_or_firstFault`
    * `Form.read_of_declarations`
-/

------------------------------------------------------------
-- Loops
------------------------------------------------------------

namespace AutomataStore

/- A loop over two lists goes on from the end of the first. -/
theorem Traced.outcome_foldlM_append
    {α β : Type}
    (f : β → α → Traced β)
    (l m : List α)
    (b : β) :
    ((l ++ m).foldlM f b).outcome =
      (l.foldlM f b).outcome.bind fun c =>
        (m.foldlM f c).outcome := by
  induction l generalizing b with
  | nil => rfl
  | cons a l ih =>
      rw [List.cons_append, List.foldlM_cons,
        List.foldlM_cons, outcome_bind, outcome_bind]
      cases (f b a).outcome with
      | error p => rfl
      | ok c => exact ih c

/- A loop ends as its first step does if that is a problem. -/
theorem Traced.outcome_foldlM_of_error
    {α β : Type}
    {f : β → α → Traced β}
    {a : α}
    {b : β}
    {p : Problem}
    (h : (f b a).outcome = .error p)
    (l : List α) :
    ((a :: l).foldlM f b).outcome = .error p := by
  rw [List.foldlM_cons, outcome_bind, h]
  rfl

/- One more member is inserted last. -/
theorem StateSet.ofList_append_singleton
    (l : List StateId)
    (i : StateId) :
    ofList (l ++ [i]) = (ofList l).insert i := by
  simp [ofList, insertAll, List.foldl_append]

namespace MachineForm

------------------------------------------------------------
-- Declarations
------------------------------------------------------------

/-
  The id that a text refers to: there is a text, and it is
  the numeral of a number, apart from blanks around it.
-/
def reference? (text : Option String) : Option StateId :=
  text.bind fun s =>
    (Numeral.readWord (Text.trim s)).map StateId.mk

/- The id of a state element. -/
def stateId? (e : Element) : Option StateId :=
  reference? (e.attribute? "id")

/- The id at which a transition element starts. -/
def sourceId? (e : Element) : Option StateId :=
  reference? (childText? e "from")

/- The id at which a transition element ends. -/
def targetId? (e : Element) : Option StateId :=
  reference? (childText? e "to")

/- The ids of state elements, in order. -/
def idsOf (ss : List Element) : List StateId :=
  ss.filterMap stateId?

/-
  The state of a state element.  Its name is the default one
  and it has no label unless the element says so.
-/
def declaredState? (e : Element) : Option State :=
  (stateId? e).map fun i =>
    { id := i
      name := (e.attribute? "name").getD i.display
      label := childText? e "label" }

/-
  The transition of a transition element in an automaton of a
  kind.  Texts that its label lacks are empty.
-/
def declaredTransition?
    (k : TransitionKind)
    (e : Element) : Option Transition :=
  (sourceId? e).bind fun i =>
    (targetId? e).map fun j =>
      ⟨i, j,
        .ofKind k
          ((childText? e "read").getD "")
          ((childText? e "transout").getD "")⟩

/-
  The automaton of a kind that elements declare.  The first
  mark of an initial state counts, and every mark of a final
  one.
-/
def declared
    (k : TransitionKind)
    (ss ts : List Element) : Automaton where
  kind := k
  states := ss.filterMap declaredState?
  transitions := ts.filterMap (declaredTransition? k)
  initial :=
    (ss.find? fun e => (e.child? "initial").isSome).bind
      stateId?
  finals :=
    .ofList (idsOf
      (ss.filter fun e => (e.child? "final").isSome))

/- State elements are sound if all have ids, each its own. -/
structure StatesSound (ss : List Element) : Prop where
  exists_id : ∀ e ∈ ss, ∃ i, stateId? e = some i
  nodup_ids : (idsOf ss).Nodup

/-
  The elements of a document are sound if the states are and
  the transitions refer to states.
-/
structure Sound (ss ts : List Element) : Prop
    extends StatesSound ss where
  ends_mem :
    ∀ e ∈ ts,
      ∃ i ∈ idsOf ss, ∃ j ∈ idsOf ss,
        sourceId? e = some i ∧ targetId? e = some j

------------------------------------------------------------
-- Faults
------------------------------------------------------------

/- What is wrong with a reference in a field on its own. -/
def referenceFault?
    (field : String) : Option String → Option Problem
  | none => some (.missingReference field)
  | some s =>
      if reference? (some s) = none then
        some (.badReference field s)
      else
        none

/-
  What is wrong with a state element after others: its id is
  missing, is none, or is that of an earlier state.
-/
def stateFault?
    (earlier : List Element)
    (e : Element) : Option Problem :=
  (referenceFault? "id" (e.attribute? "id")).or
    (((stateId? e).filter fun i => i ∈ idsOf earlier).map
      fun i => .refused (.duplicateState i))

/- A reference to a state that no element declares. -/
def unknownFault?
    (ss : List Element)
    (i : Option StateId) : Option Problem :=
  (i.filter fun i => i ∉ idsOf ss).map
    fun i => .refused (.unknownState i)

/-
  What is wrong with a transition element: its references are
  looked at first, where it starts before where it ends, and
  then the states they refer to in the same order.
-/
def transitionFault?
    (ss : List Element)
    (e : Element) : Option Problem :=
  (referenceFault? "from" (childText? e "from")).or
    ((referenceFault? "to" (childText? e "to")).or
      ((unknownFault? ss (sourceId? e)).or
        (unknownFault? ss (targetId? e))))

/-
  The first thing that is wrong with the elements of a
  document: with a state after sound ones, or with a
  transition when all states and the transitions before it
  are sound.
-/
inductive FirstFault
    (ss ts : List Element)
    (p : Problem) : Prop where
  | state
      (before : List Element)
      (e : Element)
      (after : List Element)
      (split_eq : ss = before ++ e :: after)
      (sound : StatesSound before)
      (fault_eq : stateFault? before e = some p)
  | transition
      (before : List Element)
      (e : Element)
      (after : List Element)
      (split_eq : ts = before ++ e :: after)
      (sound : Sound ss before)
      (fault_eq : transitionFault? ss e = some p)

/- A reference has no fault exactly if it is an id. -/
theorem referenceFault?_eq_none_iff
    (field : String)
    (text : Option String) :
    referenceFault? field text = none ↔
      ∃ i, reference? text = some i := by
  rw [← Option.ne_none_iff_exists']
  cases text with
  | none => simp [referenceFault?, reference?]
  | some s => simp [referenceFault?]

/- An id that no state element has is unknown. -/
theorem unknownFault?_some
    (ss : List Element)
    (i : StateId) :
    unknownFault? ss (some i) =
      if i ∈ idsOf ss then
        none
      else
        some (.refused (.unknownState i)) := by
  by_cases hi : i ∈ idsOf ss <;>
    simp [unknownFault?, Option.filter, hi]

/- The fault of a reference names a state that is unknown. -/
theorem exists_of_unknownFault?_eq_some
    {ss : List Element}
    {reference : Option StateId}
    {p : Problem}
    (hp : unknownFault? ss reference = some p) :
    ∃ i, i ∉ idsOf ss ∧ p = .refused (.unknownState i) := by
  rcases Option.map_eq_some_iff.mp hp with ⟨i, hi, rfl⟩
  rcases (Option.filter_eq_some_iff ..).mp hi with ⟨-, hNew⟩
  exact ⟨i, of_decide_eq_true hNew, rfl⟩

/- One more state has its id after the others. -/
theorem idsOf_append_singleton
    (ss : List Element)
    {e : Element}
    {i : StateId}
    (hi : stateId? e = some i) :
    idsOf (ss ++ [e]) = idsOf ss ++ [i] := by
  simp [idsOf, hi]

/- A state is without fault if its id is a new one. -/
theorem stateFault?_eq_none_iff
    (ss : List Element)
    (e : Element) :
    stateFault? ss e = none ↔
      ∃ i, stateId? e = some i ∧ i ∉ idsOf ss := by
  rw [stateFault?, Option.or_eq_none_iff,
    referenceFault?_eq_none_iff, ← stateId?]
  constructor
  · rintro ⟨⟨i, hi⟩, hNew⟩
    refine ⟨i, hi, ?_⟩
    simpa [hi] using hNew
  · rintro ⟨i, hi, hNew⟩
    refine ⟨⟨i, hi⟩, ?_⟩
    simp [hi, hNew]

/- A state with an id is at fault only if it has an old one. -/
theorem stateFault?_of_eq_some
    (ss : List Element)
    {e : Element}
    {i : StateId}
    (hi : stateId? e = some i) :
    stateFault? ss e =
      if i ∈ idsOf ss then
        some (.refused (.duplicateState i))
      else
        none := by
  have hReference :
      referenceFault? "id" (e.attribute? "id") = none :=
    (referenceFault?_eq_none_iff ..).mpr ⟨i, hi⟩
  rw [stateFault?, hReference, Option.none_or, hi]
  by_cases hOld : i ∈ idsOf ss <;>
    simp [Option.filter, hOld]

/- States are sound if each is without fault after the others. -/
theorem statesSound_append_singleton_iff
    (ss : List Element)
    (e : Element) :
    StatesSound (ss ++ [e]) ↔
      StatesSound ss ∧ stateFault? ss e = none := by
  rw [stateFault?_eq_none_iff]
  constructor
  · rintro ⟨hIds, hNodup⟩
    rcases hIds e (by simp) with ⟨i, hi⟩
    rw [idsOf_append_singleton ss hi, ← List.concat_eq_append,
      List.nodup_concat] at hNodup
    exact
      ⟨⟨fun f hf => hIds f (List.mem_append_left _ hf),
          hNodup.2⟩,
        i, hi, hNodup.1⟩
  · rintro ⟨⟨hIds, hNodup⟩, i, hi, hNew⟩
    constructor
    · intro f hf
      rcases List.mem_append.mp hf with hf | hf
      · exact hIds f hf
      · rw [List.mem_singleton.mp hf]
        exact ⟨i, hi⟩
    · rw [idsOf_append_singleton ss hi,
        ← List.concat_eq_append, List.nodup_concat]
      exact ⟨hNew, hNodup⟩

/- A transition is without fault if it refers to states. -/
theorem transitionFault?_eq_none_iff
    (ss : List Element)
    (e : Element) :
    transitionFault? ss e = none ↔
      ∃ i ∈ idsOf ss, ∃ j ∈ idsOf ss,
        sourceId? e = some i ∧ targetId? e = some j := by
  simp only [transitionFault?, Option.or_eq_none_iff,
    referenceFault?_eq_none_iff]
  rw [← sourceId?, ← targetId?]
  constructor
  · rintro ⟨⟨i, hi⟩, ⟨j, hj⟩, hSource, hTarget⟩
    refine ⟨i, ?_, j, ?_, hi, hj⟩
    · simpa [hi, unknownFault?_some] using hSource
    · simpa [hj, unknownFault?_some] using hTarget
  · rintro ⟨i, hSource, j, hTarget, hi, hj⟩
    refine ⟨⟨i, hi⟩, ⟨j, hj⟩, ?_, ?_⟩
    · rw [hi, unknownFault?_some, if_pos hSource]
    · rw [hj, unknownFault?_some, if_pos hTarget]

/-
  A transition with two ids is at fault only for a state that
  is unknown.
-/
theorem transitionFault?_of_eq_some
    (ss : List Element)
    {e : Element}
    {i j : StateId}
    (hi : sourceId? e = some i)
    (hj : targetId? e = some j) :
    transitionFault? ss e =
      (unknownFault? ss (some i)).or
        (unknownFault? ss (some j)) := by
  have hFrom :
      referenceFault? "from" (childText? e "from") = none :=
    (referenceFault?_eq_none_iff ..).mpr ⟨i, hi⟩
  have hTo :
      referenceFault? "to" (childText? e "to") = none :=
    (referenceFault?_eq_none_iff ..).mpr ⟨j, hj⟩
  rw [transitionFault?, hFrom, hTo, Option.none_or,
    Option.none_or, hi, hj]

------------------------------------------------------------
-- Reading References
------------------------------------------------------------

/- An id is read from a text that refers to it. -/
theorem outcome_readReference_of_eq_some
    (field : String)
    {text : Option String}
    {i : StateId}
    (hi : reference? text = some i) :
    (readReference field text).outcome = .ok i := by
  rcases Option.bind_eq_some_iff.mp hi with ⟨s, rfl, hWord⟩
  rcases Option.map_eq_some_iff.mp hWord with ⟨n, hn, rfl⟩
  simp only [readReference, hn]
  rfl

/- The fault of a reference is what reading it ends in. -/
theorem outcome_readReference_of_fault
    {field : String}
    {text : Option String}
    {p : Problem}
    (hp : referenceFault? field text = some p) :
    (readReference field text).outcome = .error p := by
  cases text with
  | none =>
      cases hp
      rfl
  | some s =>
      simp only [referenceFault?] at hp
      split at hp
      · rename_i hNone
        cases hp
        simp only [reference?, Option.bind_some,
          Option.map_eq_none_iff] at hNone
        simp only [readReference, hNone]
        rfl
      · cases hp

------------------------------------------------------------
-- Reading States
------------------------------------------------------------

/- The steps in which a state is added with its marks. -/
theorem outcome_takeState_eq
    (a : Automaton)
    (e : Element) :
    (takeState a e).outcome =
      (readState e).outcome.bind fun s =>
        (Traced.ofEdit (a.insertState s)).outcome.bind fun b =>
          (if (e.child? "initial").isSome then
              markInitial b s.id
            else
              pure b).outcome.bind fun c =>
            (if (e.child? "final").isSome then
                Traced.ofEdit (c.addFinal s.id)
              else
                pure c).outcome := by
  unfold takeState
  simp only [Traced.outcome_bind]
  congr
  funext s
  congr
  funext b
  split <;> simp only [Traced.outcome_bind]

/- The ids of declared states are those of their elements. -/
theorem ids_declared
    (k : TransitionKind)
    (ss ts : List Element) :
    (declared k ss ts).ids = idsOf ss := by
  rw [Automaton.ids, declared, List.map_filterMap]
  apply List.filterMap_congr
  intro e _
  simp [declaredState?, Function.comp_def]

/- A declared state is read from its element. -/
theorem outcome_readState_of_declared
    {e : Element}
    {s : State}
    (hs : declaredState? e = some s) :
    (readState e).outcome = .ok s := by
  rcases Option.map_eq_some_iff.mp hs with ⟨i, hi, rfl⟩
  simp only [readState, Traced.outcome_bind,
    outcome_readReference_of_eq_some "id" hi]
  rfl

section OneMoreState

variable {k : TransitionKind}
variable {ss ts : List Element}
variable {e : Element}
variable {i : StateId}

/- The first mark of an initial state is kept. -/
theorem initial_declared_append
    (hss : StatesSound ss)
    (hi : stateId? e = some i) :
    (declared k (ss ++ [e]) ts).initial =
      (declared k ss ts).initial.or
        (if (e.child? "initial").isSome then some i
          else none) := by
  simp only [declared, List.find?_append]
  cases hFirst :
      ss.find? fun e => (e.child? "initial").isSome with
  | none =>
      by_cases hMark : (e.child? "initial").isSome <;>
        simp [hMark, hi]
  | some f =>
      rcases hss.exists_id f
        (List.mem_of_find?_eq_some hFirst) with ⟨j, hj⟩
      simp [hj]

/- A mark of a final state is added to those before. -/
theorem finals_declared_append
    (hi : stateId? e = some i) :
    (declared k (ss ++ [e]) ts).finals =
      if (e.child? "final").isSome then
        (declared k ss ts).finals.insert i
      else
        (declared k ss ts).finals := by
  simp only [declared, List.filter_append]
  by_cases hMark : (e.child? "final").isSome
  · rw [if_pos hMark, ← StateSet.ofList_append_singleton,
      ← idsOf_append_singleton _ hi]
    simp [hMark]
  · simp [hMark]

/-
  Marking one more state as initial, if its element says so,
  gives the initial state of all so far.
-/
theorem outcome_markInitial_declared
    (hss : StatesSound ss)
    (hi : stateId? e = some i)
    {b : Automaton}
    (hInitial : b.initial = (declared k ss ts).initial)
    (hMem : i ∈ b.ids) :
    (if (e.child? "initial").isSome then
        markInitial b i
      else
        pure b).outcome =
      .ok { b with
        initial := (declared k (ss ++ [e]) ts).initial } := by
  rw [initial_declared_append hss hi, ← hInitial]
  by_cases hMark : (e.child? "initial").isSome
  · rw [if_pos hMark, if_pos hMark]
    cases hFirst : b.initial with
    | none =>
        have hSet :
            b.setInitial (some i) =
              .ok { b with initial := some i } := by
          rw [Automaton.setInitial_eq_ok_iff]
          refine ⟨?_, rfl⟩
          rintro j ⟨⟩
          exact hMem
        simp only [markInitial, hFirst, hSet]
        rfl
    | some first =>
        simp only [markInitial, hFirst]
        rw [Option.some_or, ← hFirst]
        rfl
  · rw [if_neg hMark, if_neg hMark, Option.or_none]
    rfl

/-
  Marking one more state as final, if its element says so,
  gives the final states of all so far.
-/
theorem outcome_addFinal_declared
    (hi : stateId? e = some i)
    {b : Automaton}
    (hFinals : b.finals = (declared k ss ts).finals)
    (hMem : i ∈ b.ids) :
    (if (e.child? "final").isSome then
        Traced.ofEdit (b.addFinal i)
      else
        pure b).outcome =
      .ok { b with
        finals := (declared k (ss ++ [e]) ts).finals } := by
  rw [finals_declared_append hi, ← hFinals]
  by_cases hMark : (e.child? "final").isSome
  · have hAdd :
        b.addFinal i =
          .ok { b with finals := b.finals.insert i } := by
      rw [Automaton.addFinal_eq_ok_iff]
      exact ⟨hMem, rfl⟩
    rw [if_pos hMark, if_pos hMark, hAdd]
    rfl
  · rw [if_neg hMark, if_neg hMark]
    rfl

/- One more sound state is added to those before. -/
theorem outcome_takeState_of_sound
    (hss : StatesSound (ss ++ [e])) :
    (takeState (declared k ss []) e).outcome =
      .ok (declared k (ss ++ [e]) []) := by
  rw [statesSound_append_singleton_iff,
    stateFault?_eq_none_iff] at hss
  rcases hss with ⟨hss, i, hi, hNew⟩
  let s : State :=
    { id := i
      name := (e.attribute? "name").getD i.display
      label := childText? e "label" }
  have hState : declaredState? e = some s := by
    simp [declaredState?, hi, s]
  let inserted : Automaton :=
    { declared k ss [] with
      states := (declared k ss []).states ++ [s] }
  have hInserted :
      (Traced.ofEdit
          ((declared k ss []).insertState s)).outcome =
        .ok inserted := by
    have hInsert :
        (declared k ss []).insertState s = .ok inserted := by
      rw [Automaton.insertState_eq_ok_iff, ids_declared]
      exact ⟨hNew, rfl⟩
    rw [hInsert]
    rfl
  have hMem : i ∈ inserted.ids := by
    simp [inserted, Automaton.ids, s]
  let marked : Automaton :=
    { inserted with
      initial := (declared k (ss ++ [e]) []).initial }
  have hInitial :
      (if (e.child? "initial").isSome then
          markInitial inserted i
        else
          pure inserted).outcome = .ok marked :=
    outcome_markInitial_declared hss hi rfl hMem
  have hFinal :
      (if (e.child? "final").isSome then
          Traced.ofEdit (marked.addFinal i)
        else
          pure marked).outcome =
        .ok { marked with
          finals := (declared k (ss ++ [e]) []).finals } :=
    outcome_addFinal_declared hi rfl hMem
  have hStates :
      (declared k (ss ++ [e]) []).states = marked.states := by
    simp [declared, hState, marked, inserted]
  rw [outcome_takeState_eq,
    outcome_readState_of_declared hState, Except.bind,
    hInserted, Except.bind, hInitial, Except.bind, hFinal,
    ← hStates]
  rfl

/- A state with a fault ends the reading with it. -/
theorem outcome_takeState_of_fault
    {p : Problem}
    (hp : stateFault? ss e = some p) :
    (takeState (declared k ss ts) e).outcome = .error p := by
  rw [outcome_takeState_eq]
  cases hId : stateId? e with
  | none =>
      have hReference :
          referenceFault? "id" (e.attribute? "id") =
            some p := by
        simpa [stateFault?, hId] using hp
      simp only [readState, Traced.outcome_bind,
        outcome_readReference_of_fault hReference]
      rfl
  | some i =>
      have hState :
          declaredState? e =
            some
              { id := i
                name := (e.attribute? "name").getD i.display
                label := childText? e "label" } := by
        rw [declaredState?, hId]
        rfl
      rw [stateFault?_of_eq_some ss hId] at hp
      by_cases hOld : i ∈ idsOf ss
      · have hKnown : (declared k ss ts).hasState i = true := by
          rw [Automaton.hasState_iff, ids_declared]
          exact hOld
        rw [if_pos hOld] at hp
        cases hp
        rw [outcome_readState_of_declared hState, Except.bind,
          Automaton.insertState, if_pos hKnown]
        rfl
      · rw [if_neg hOld] at hp
        cases hp

end OneMoreState

------------------------------------------------------------
-- Reading Transitions
------------------------------------------------------------

section OneMoreTransition

variable {k : TransitionKind}
variable {ss ts : List Element}
variable {e : Element}

/- The label that is read is of the kind of the automaton. -/
theorem kind_readLabel
    (k : TransitionKind)
    (e : Element) :
    (readLabel k e).kind = k := by
  cases k <;> rfl

/- The steps in which a transition is added. -/
theorem outcome_takeTransition_of_eq_some
    (k : TransitionKind)
    (ss ts : List Element)
    {i j : StateId}
    (hi : sourceId? e = some i)
    (hj : targetId? e = some j) :
    (takeTransition (declared k ss ts) e).outcome =
      (Traced.ofEdit
        ((declared k ss ts).addTransition
          ⟨i, j, readLabel k e⟩)).outcome := by
  simp only [takeTransition, Traced.outcome_bind,
    outcome_readReference_of_eq_some _ hi,
    outcome_readReference_of_eq_some _ hj, Except.bind]
  rfl

/- One more sound transition is added to those before. -/
theorem outcome_takeTransition_of_sound
    (he : transitionFault? ss e = none) :
    (takeTransition (declared k ss ts) e).outcome =
      .ok (declared k ss (ts ++ [e])) := by
  rcases (transitionFault?_eq_none_iff ss e).mp he with
    ⟨i, hSource, j, hTarget, hi, hj⟩
  have hAdd :
      (declared k ss ts).addTransition
          ⟨i, j, readLabel k e⟩ =
        .ok (declared k ss (ts ++ [e])) := by
    rw [Automaton.addTransition_eq_ok_iff, ids_declared]
    refine ⟨kind_readLabel k e, hSource, hTarget, ?_⟩
    simp [declared, declaredTransition?, readLabel, hi, hj]
  rw [outcome_takeTransition_of_eq_some k ss ts hi hj, hAdd]
  rfl

/- A transition with a fault ends the reading with it. -/
theorem outcome_takeTransition_of_fault
    {p : Problem}
    (hp : transitionFault? ss e = some p) :
    (takeTransition (declared k ss ts) e).outcome =
      .error p := by
  have hIds := ids_declared k ss ts
  simp only [transitionFault?, Option.or_eq_some_iff,
    referenceFault?_eq_none_iff] at hp
  rcases hp with
    hp | ⟨⟨i, hi⟩, hp | ⟨⟨j, hj⟩, hp⟩⟩
  · simp only [takeTransition, Traced.outcome_bind,
      outcome_readReference_of_fault hp]
    rfl
  · simp only [takeTransition, Traced.outcome_bind,
      outcome_readReference_of_eq_some _ hi,
      outcome_readReference_of_fault hp]
    rfl
  -- Both references are ids, of which one is unknown.
  let t : Transition := ⟨i, j, readLabel k e⟩
  have hKind : t.kind = (declared k ss ts).kind :=
    kind_readLabel k e
  rw [sourceId?, hi, targetId?, hj, unknownFault?_some,
    unknownFault?_some] at hp
  rw [outcome_takeTransition_of_eq_some k ss ts hi hj]
  by_cases hSource : i ∈ idsOf ss
  · have hTarget : j ∉ idsOf ss := by
      intro hTarget
      simp [hSource, hTarget] at hp
    have hUnknown : Problem.refused (.unknownState j) = p := by
      simpa [hSource, hTarget] using hp
    rw [Automaton.addTransition_of_target_not_mem hKind
      (by rwa [hIds]) (by rwa [hIds]), ← hUnknown]
    rfl
  · have hUnknown : Problem.refused (.unknownState i) = p := by
      simpa [hSource] using hp
    rw [Automaton.addTransition_of_source_not_mem hKind
      (by rwa [hIds]), ← hUnknown]
    rfl

end OneMoreTransition

------------------------------------------------------------
-- Reading All
------------------------------------------------------------

section Everything

variable {k : TransitionKind}
variable {ss ts : List Element}
variable {p : Problem}

/- Sound states are all read. -/
theorem outcome_takeStates_of_sound
    (k : TransitionKind)
    (hss : StatesSound ss) :
    (ss.foldlM takeState { kind := k }).outcome =
      .ok (declared k ss []) := by
  -- What was read so far is what the elements before declare,
  -- so that each step adds the last element.
  induction ss using List.reverseRecOn with
  | nil => rfl
  | append_singleton ss e ih =>
      have hBefore :=
        ((statesSound_append_singleton_iff ss e).mp hss).1
      rw [Traced.outcome_foldlM_append, ih hBefore,
        Except.bind, List.foldlM_cons, Traced.outcome_bind,
        outcome_takeState_of_sound hss]
      rfl

/- One more transition is sound if it is without fault. -/
theorem sound_append_singleton_iff
    (ss ts : List Element)
    (e : Element) :
    Sound ss (ts ++ [e]) ↔
      Sound ss ts ∧ transitionFault? ss e = none := by
  rw [transitionFault?_eq_none_iff]
  constructor
  · rintro ⟨hss, hEnds⟩
    exact
      ⟨⟨hss, fun f hf => hEnds f (List.mem_append_left _ hf)⟩,
        hEnds e (by simp)⟩
  · rintro ⟨⟨hss, hEnds⟩, he⟩
    refine ⟨hss, fun f hf => ?_⟩
    rcases List.mem_append.mp hf with hf | hf
    · exact hEnds f hf
    · rw [List.mem_singleton.mp hf]
      exact he

/- Sound transitions are all read after the states. -/
theorem outcome_takeTransitions_of_sound
    (k : TransitionKind)
    (h : Sound ss ts) :
    (ts.foldlM takeTransition (declared k ss [])).outcome =
      .ok (declared k ss ts) := by
  induction ts using List.reverseRecOn with
  | nil => rfl
  | append_singleton ts e ih =>
      rcases (sound_append_singleton_iff ss ts e).mp h with
        ⟨hBefore, he⟩
      rw [Traced.outcome_foldlM_append, ih hBefore,
        Except.bind, List.foldlM_cons, Traced.outcome_bind,
        outcome_takeTransition_of_sound he]
      rfl

/- Sound elements are read as what they declare. -/
theorem outcome_read_of_sound
    {d : Document}
    (h :
      Sound (d.root.descendantsByTag "state")
        (d.root.descendantsByTag "transition")) :
    (read k d).outcome =
      .ok (declared k (d.root.descendantsByTag "state")
        (d.root.descendantsByTag "transition")) := by
  rw [read, Traced.outcome_bind,
    outcome_takeStates_of_sound k h.toStatesSound]
  exact outcome_takeTransitions_of_sound k h

/- The first fault of the elements ends the reading. -/
theorem outcome_read_of_firstFault
    {d : Document}
    (h :
      FirstFault (d.root.descendantsByTag "state")
        (d.root.descendantsByTag "transition") p) :
    (read k d).outcome = .error p := by
  rw [read, Traced.outcome_bind]
  rcases h with
    ⟨before, e, after, hSplit, hSound, hFault⟩ |
      ⟨before, e, after, hSplit, hSound, hFault⟩
  · have hEnd :
        (takeState (declared k before []) e).outcome =
          .error p :=
      outcome_takeState_of_fault hFault
    rw [hSplit, Traced.outcome_foldlM_append,
      outcome_takeStates_of_sound k hSound, Except.bind,
      Traced.outcome_foldlM_of_error hEnd]
    rfl
  · have hEnd :
        (takeTransition
            (declared k (d.root.descendantsByTag "state")
              before) e).outcome =
          .error p :=
      outcome_takeTransition_of_fault hFault
    rw [outcome_takeStates_of_sound k hSound.toStatesSound,
      Except.bind, hSplit, Traced.outcome_foldlM_append,
      outcome_takeTransitions_of_sound k hSound, Except.bind,
      Traced.outcome_foldlM_of_error hEnd]

/- States that are not sound have a first fault. -/
theorem exists_stateFault
    (h : ¬StatesSound ss) :
    ∃ before e after p,
      ss = before ++ e :: after ∧ StatesSound before ∧
        stateFault? before e = some p := by
  induction ss using List.reverseRecOn with
  | nil =>
      exact absurd ⟨nofun, List.nodup_nil⟩ h
  | append_singleton ss e ih =>
      by_cases hBefore : StatesSound ss
      · cases hFault : stateFault? ss e with
        | none =>
            exact absurd
              ((statesSound_append_singleton_iff ss e).mpr
                ⟨hBefore, hFault⟩) h
        | some p => exact ⟨ss, e, [], p, rfl, hBefore, hFault⟩
      · rcases ih hBefore with
          ⟨before, f, after, p, rfl, hSound, hFault⟩
        exact ⟨before, f, after ++ [e], p, by simp, hSound,
          hFault⟩

/- Transitions that are not sound have a first fault. -/
theorem exists_transitionFault
    (hss : StatesSound ss)
    (h : ¬Sound ss ts) :
    ∃ before e after p,
      ts = before ++ e :: after ∧ Sound ss before ∧
        transitionFault? ss e = some p := by
  induction ts using List.reverseRecOn with
  | nil => exact absurd ⟨hss, nofun⟩ h
  | append_singleton ts e ih =>
      by_cases hBefore : Sound ss ts
      · cases hFault : transitionFault? ss e with
        | none =>
            exact absurd
              ((sound_append_singleton_iff ss ts e).mpr
                ⟨hBefore, hFault⟩) h
        | some p => exact ⟨ts, e, [], p, rfl, hBefore, hFault⟩
      · rcases ih hBefore with
          ⟨before, f, after, p, rfl, hSound, hFault⟩
        exact ⟨before, f, after ++ [e], p, by simp, hSound,
          hFault⟩

/- Elements are sound or have a first fault. -/
theorem sound_or_firstFault
    (ss ts : List Element) :
    Sound ss ts ∨ ∃ p, FirstFault ss ts p := by
  by_cases h : Sound ss ts
  · exact Or.inl h
  · right
    by_cases hss : StatesSound ss
    · rcases exists_transitionFault hss h with
        ⟨before, e, after, p, hSplit, hSound, hFault⟩
      exact
        ⟨p, .transition before e after hSplit hSound hFault⟩
    · rcases exists_stateFault hss with
        ⟨before, e, after, p, hSplit, hSound, hFault⟩
      exact ⟨p, .state before e after hSplit hSound hFault⟩

/- What all members of a list give is not filtered. -/
theorem map_some_filterMap
    {α β : Type}
    {f : α → Option β}
    {l : List α}
    (h : ∀ a ∈ l, (f a).isSome) :
    (l.filterMap f).map some = l.map f := by
  rw [List.map_filterMap,
    List.filterMap_eq_map_iff_forall_eq_some]
  intro a ha
  rcases Option.isSome_iff_exists.mp (h a ha) with ⟨b, hb⟩
  rw [hb]
  rfl

/- Sound states are declared one by one, none is left out. -/
theorem map_some_states_declared
    (h : StatesSound ss)
    (k : TransitionKind)
    (ts : List Element) :
    (declared k ss ts).states.map some =
      ss.map declaredState? := by
  apply map_some_filterMap
  intro e he
  rcases h.exists_id e he with ⟨i, hi⟩
  rw [declaredState?, hi]
  rfl

/- Sound transitions are declared one by one. -/
theorem map_some_transitions_declared
    (h : Sound ss ts)
    (k : TransitionKind) :
    (declared k ss ts).transitions.map some =
      ts.map (declaredTransition? k) := by
  apply map_some_filterMap
  intro e he
  rcases h.ends_mem e he with ⟨i, -, j, -, hi, hj⟩
  rw [declaredTransition?, hi, hj]
  rfl

end Everything

end MachineForm

------------------------------------------------------------
-- The Form of Automata
------------------------------------------------------------

namespace Form

open MachineForm

/- A form reads the automaton of a document as a structure. -/
theorem outcome_read_eq_map
    (k : TransitionKind)
    (d : Document) :
    ((Form.automaton k).read d).outcome =
      (MachineForm.read k d).outcome.map .ofAutomaton := by
  simp only [read, Traced.outcome_bind]
  cases (MachineForm.read k d).outcome <;> rfl

/- A form reads the structure that sound elements declare. -/
theorem read_of_sound
    {k : TransitionKind}
    {d : Document}
    (h :
      Sound (d.root.descendantsByTag "state")
        (d.root.descendantsByTag "transition")) :
    ((Form.automaton k).read d).outcome =
      .ok (.ofAutomaton
        (declared k (d.root.descendantsByTag "state")
          (d.root.descendantsByTag "transition"))) := by
  rw [outcome_read_eq_map, outcome_read_of_sound h]
  rfl

/- A form refuses elements for their first fault. -/
theorem read_of_firstFault
    {k : TransitionKind}
    {d : Document}
    {p : Problem}
    (h :
      FirstFault (d.root.descendantsByTag "state")
        (d.root.descendantsByTag "transition") p) :
    ((Form.automaton k).read d).outcome = .error p := by
  rw [outcome_read_eq_map, outcome_read_of_firstFault h]
  rfl

/-
  An automaton is read exactly from documents whose elements
  are sound.  It is the one that they declare, with all of
  its states and transitions in their order.  Any other
  document is refused for its first fault.
-/
theorem read_of_declarations
    (k : TransitionKind)
    (d : Document) :
    let ss := d.root.descendantsByTag "state"
    let ts := d.root.descendantsByTag "transition"
    (∀ s,
      ((Form.automaton k).read d).outcome = .ok s ↔
        Sound ss ts ∧
          s = .ofAutomaton (declared k ss ts)) ∧
    (Sound ss ts →
      (declared k ss ts).states.map some =
          ss.map declaredState? ∧
        (declared k ss ts).transitions.map some =
          ts.map (declaredTransition? k)) ∧
    (∀ p,
      ((Form.automaton k).read d).outcome = .error p ↔
        FirstFault ss ts p) := by
  intro ss ts
  refine
    ⟨fun s => ⟨fun hOk => ?_, ?_⟩,
      fun h =>
        ⟨map_some_states_declared h.toStatesSound k ts,
          map_some_transitions_declared h k⟩,
      fun p => ⟨fun hError => ?_, read_of_firstFault⟩⟩
  · rcases sound_or_firstFault ss ts with h | ⟨p, hp⟩
    · rw [read_of_sound h] at hOk
      cases hOk
      exact ⟨h, rfl⟩
    · rw [read_of_firstFault hp] at hOk
      cases hOk
  · rintro ⟨h, rfl⟩
    exact read_of_sound h
  · rcases sound_or_firstFault ss ts with h | ⟨q, hq⟩
    · rw [read_of_sound h] at hError
      cases hError
    · rw [read_of_firstFault hq] at hError
      cases hError
      exact hq

/- A state without an id is found before any transition. -/
example :
    ((Form.automaton .finite).read
        ⟨{ tag := "fa"
           children :=
             [Element.toNode { tag := "transition" },
               Element.toNode { tag := "state" }] }⟩).outcome =
      .error (.missingReference "id") := by
  cbv

end Form

end AutomataStore
