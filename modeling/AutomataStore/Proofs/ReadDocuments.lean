import AutomataStore.Proofs.DeclaredAutomata
import AutomataStore.Proofs.FormDocuments

/-
  Automata and grammars are read back from their documents.

  The elements of an automaton's document are sound exactly
  if the automaton declares its states, and what they declare
  is the automaton as it is settled in the file.  So one that
  declares its states is read back as it is settled, and any
  other one is refused.

  Key definitions include:
    * `Automaton.Declared`, `Automaton.Fits`
    * `Automaton.settled`

  Main declarations:
    * `MachineForm.sound_elements_iff`
    * `MachineForm.declared_elements`
    * `MachineForm.read_document_of_declared`
    * `MachineForm.read_document_of_not_declared`
    * `MachineForm.read_document`
    * `GrammarForm.read_document`
-/

------------------------------------------------------------
-- References
------------------------------------------------------------

namespace AutomataStore

/- Trimming keeps a text without blanks. -/
theorem Text.trim_of_not_blank
    {s : String}
    (hs : ∀ c ∈ s.toList, isBlank c = false) :
    trim s = s := by
  have hDrop :
      ∀ cs : List Char,
        (∀ c ∈ cs, isBlank c = false) →
          cs.dropWhile isBlank = cs := by
    intro cs hcs
    cases cs with
    | nil => rfl
    | cons c cs => simp [hcs c (List.mem_cons_self ..)]
  have hReverse :
      ∀ c ∈ s.toList.reverse, isBlank c = false :=
    fun c hc => hs c (List.mem_reverse.mp hc)
  rw [trim, trimChars, hDrop _ hs, hDrop _ hReverse,
    List.reverse_reverse, String.ofList_toList]

/- Digits are not blank. -/
theorem Text.isBlank_of_isDigit
    {c : Char}
    (hc : c.isDigit = true) :
    isBlank c = false := by
  have hLow : 48 ≤ c.toNat ∧ c.toNat ≤ 57 := by
    simpa [Char.isDigit, UInt32.le_iff_toNat_le] using hc
  simp [isBlank, blankRanges]
  omega

------------------------------------------------------------
-- Settled Automata
------------------------------------------------------------

/-
  A label as a label of a kind: it reads and writes the same
  texts as far as the kind does, and empty ones in their place
  if it has none.
-/
def TransitionLabel.recast
    (k : TransitionKind)
    (l : TransitionLabel) : TransitionLabel :=
  .ofKind k (l.read?.getD "") (l.output?.getD "")

/- A label stays as it is exactly if it is of the kind. -/
theorem TransitionLabel.recast_eq_self_iff
    (k : TransitionKind)
    (l : TransitionLabel) :
    l.recast k = l ↔ l.kind = k := by
  cases l <;> cases k <;>
    simp [recast, ofKind, kind, read?, output?]

/- A transition with its label as a label of a kind. -/
def Transition.recast
    (k : TransitionKind)
    (t : Transition) : Transition :=
  { t with label := t.label.recast k }

/- A transition stays as it is exactly if it is of the kind. -/
theorem Transition.recast_eq_self_iff
    (k : TransitionKind)
    (t : Transition) :
    t.recast k = t ↔ t.kind = k := by
  rw [kind, ← TransitionLabel.recast_eq_self_iff]
  cases t
  simp [recast]

namespace Automaton

/-
  An automaton declares its states if no id occurs twice and
  its transitions join states.
-/
structure Declared (a : Automaton) : Prop where
  nodup_ids : a.ids.Nodup
  ends_mem :
    ∀ t ∈ a.transitions, t.source ∈ a.ids ∧ t.target ∈ a.ids

/-
  An automaton as it is settled in a file: marks on ids that
  no state has are left out, and labels are of the kind of
  the automaton.
-/
def settled (a : Automaton) : Automaton where
  kind := a.kind
  states := a.states
  transitions := a.transitions.map (Transition.recast a.kind)
  initial := a.initial.filter fun i => i ∈ a.ids
  finals :=
    .ofList (a.finals.members.filter fun i => i ∈ a.ids)

/-
  An automaton fits into a file if its labels are of its kind
  and its marks are on states.
-/
structure Fits (a : Automaton) : Prop where
  kind_eq : ∀ t ∈ a.transitions, t.kind = a.kind
  initial_mem : ∀ i, a.initial = some i → i ∈ a.ids
  finals_mem : ∀ i ∈ a.finals.members, i ∈ a.ids

/- An automaton stays as it is exactly if it fits. -/
theorem settled_eq_self_iff
    (a : Automaton) :
    a.settled = a ↔ a.Fits := by
  have hTransitions :
      a.settled.transitions = a.transitions ↔
        ∀ t ∈ a.transitions, t.kind = a.kind := by
    have hMap :
        a.transitions.map (Transition.recast a.kind) =
            a.transitions.map id ↔
          ∀ t ∈ a.transitions, t.recast a.kind = t :=
      List.map_eq_map_iff
    rw [List.map_id] at hMap
    simp only [Transition.recast_eq_self_iff] at hMap
    exact hMap
  have hInitial :
      a.settled.initial = a.initial ↔
        ∀ i, a.initial = some i → i ∈ a.ids := by
    cases h : a.initial with
    | none => simp [settled, h]
    | some i => simp [settled, h, Option.filter]
  have hFinals :
      a.settled.finals = a.finals ↔
        ∀ i ∈ a.finals.members, i ∈ a.ids := by
    constructor
    · intro hSame i hi
      have hKept : i ∈ a.settled.finals := by
        rw [hSame]
        exact hi
      simpa using
        (List.mem_filter.mp
          ((StateSet.mem_ofList_iff ..).mp hKept)).2
    · intro hMembers
      apply StateSet.ext
      intro i
      simp only [settled, StateSet.mem_ofList_iff,
        List.mem_filter, decide_eq_true_eq]
      exact ⟨And.left, fun hi => ⟨hi, hMembers i hi⟩⟩
  constructor
  · intro hSame
    exact
      ⟨hTransitions.mp (congrArg transitions hSame),
        hInitial.mp (congrArg initial hSame),
        hFinals.mp (congrArg finals hSame)⟩
  · intro hFits
    have hParts :
        a.settled =
          { a with
            transitions := a.settled.transitions
            initial := a.settled.initial
            finals := a.settled.finals } := rfl
    rw [hParts, hTransitions.mpr hFits.kind_eq,
      hInitial.mpr hFits.initial_mem,
      hFinals.mpr hFits.finals_mem]

/- Well-formed automata declare their states and fit. -/
theorem wellFormed_iff_declared
    (a : Automaton) :
    a.WellFormed ↔ a.Declared ∧ a.settled = a := by
  rw [settled_eq_self_iff]
  constructor
  · intro ha
    exact
      ⟨⟨ha.nodup_ids,
          fun t ht => ⟨ha.source_mem t ht, ha.target_mem t ht⟩⟩,
        ⟨ha.kind_eq, ha.initial_mem, ha.finals_mem⟩⟩
  · rintro ⟨hDeclared, hFits⟩
    exact {
      nodup_ids := hDeclared.nodup_ids
      source_mem := fun t ht => (hDeclared.ends_mem t ht).1
      target_mem := fun t ht => (hDeclared.ends_mem t ht).2
      kind_eq := hFits.kind_eq
      initial_mem := hFits.initial_mem
      finals_mem := hFits.finals_mem }

end Automaton

namespace MachineForm

open Node

/- The id that its decimal digits refer to. -/
theorem reference?_decimal
    (i : StateId) :
    reference? (some i.decimal) = some i := by
  have hTrim : Text.trim i.decimal = i.decimal := by
    apply Text.trim_of_not_blank
    intro c hc
    apply Text.isBlank_of_isDigit
    simp only [StateId.decimal, Numeral.decimal,
      String.toList_ofList] at hc
    exact Nat.isDigit_of_mem_toDigits (by decide)
      (by decide) hc
  have hWord :
      Numeral.readWord i.decimal = some i.number :=
    Numeral.readWord_decimal i.number
  rw [reference?, Option.bind_some, hTrim, hWord]
  rfl

------------------------------------------------------------
-- States
------------------------------------------------------------

/- The label field of a state. -/
theorem label_stateFields
    (a : Automaton)
    (s : State) :
    ((stateFields a s).find? fun f => f.1 = "label").map
        Prod.snd =
      s.label := by
  unfold stateFields
  cases s.label with
  | some text => simp
  | none =>
      by_cases hInitial : a.initial = some s.id <;>
        by_cases hFinal : s.id ∈ a.finals <;>
          simp [hInitial, hFinal]

/- A state has the initial field when it is initial. -/
theorem initial_stateFields
    (a : Automaton)
    (s : State) :
    ((stateFields a s).any fun f => f.1 = "initial") =
      decide (a.initial = some s.id) := by
  unfold stateFields
  by_cases hInitial : a.initial = some s.id <;>
    by_cases hFinal : s.id ∈ a.finals <;>
      cases s.label <;> simp [hInitial, hFinal]

/- A state has the final field when it is final. -/
theorem final_stateFields
    (a : Automaton)
    (s : State) :
    ((stateFields a s).any fun f => f.1 = "final") =
      decide (s.id ∈ a.finals) := by
  unfold stateFields
  by_cases hInitial : a.initial = some s.id <;>
    by_cases hFinal : s.id ∈ a.finals <;>
      cases s.label <;> simp [hInitial, hFinal]

/- The id of a state is that of its element. -/
theorem stateId?_stateElement
    (a : Automaton)
    (s : State) :
    stateId? (stateElement a s) = some s.id := by
  have hId :
      (stateElement a s).attribute? "id" =
        some s.id.decimal := by
    simp [stateElement, Element.attribute?]
  rw [stateId?, hId, reference?_decimal]

/- A state is declared by its element. -/
theorem declaredState?_stateElement
    (a : Automaton)
    (s : State) :
    declaredState? (stateElement a s) = some s := by
  have hName :
      (stateElement a s).attribute? "name" =
        some s.name := by
    simp [stateElement, Element.attribute?]
  have hLabel :
      childText? (stateElement a s) "label" = s.label := by
    rw [childText?_of_fields (children_stateElement a s),
      label_stateFields]
  rw [declaredState?, stateId?_stateElement, hName, hLabel]
  rfl

/- The ids of states are those of their elements. -/
theorem idsOf_stateElements
    (a : Automaton)
    (states : List State) :
    idsOf (states.map (stateElement a)) =
      states.map State.id := by
  rw [idsOf, List.filterMap_map]
  simp [stateId?_stateElement]

------------------------------------------------------------
-- Transitions
------------------------------------------------------------

/- A label is read from its fields as a label of the kind. -/
theorem readLabel_transitionElement
    (k : TransitionKind)
    (t : Transition) :
    readLabel k (transitionElement t) =
      t.label.recast k := by
  have hField :=
    childText?_of_fields (children_transitionElement t)
  rw [readLabel, hField, hField, TransitionLabel.recast]
  unfold transitionFields
  cases t.label <;>
    simp [labelFields, TransitionLabel.read?,
      TransitionLabel.output?]

/- A transition starts where its element does. -/
theorem sourceId?_transitionElement
    (t : Transition) :
    sourceId? (transitionElement t) = some t.source := by
  rw [sourceId?,
    childText?_of_fields (children_transitionElement t)]
  simp [transitionFields, reference?_decimal]

/- A transition ends where its element does. -/
theorem targetId?_transitionElement
    (t : Transition) :
    targetId? (transitionElement t) = some t.target := by
  rw [targetId?,
    childText?_of_fields (children_transitionElement t)]
  simp [transitionFields, reference?_decimal]

/- A transition is declared with a label of the kind. -/
theorem declaredTransition?_transitionElement
    (k : TransitionKind)
    (t : Transition) :
    declaredTransition? k (transitionElement t) =
      some (t.recast k) := by
  have hLabel := readLabel_transitionElement k t
  rw [readLabel] at hLabel
  rw [declaredTransition?, sourceId?_transitionElement,
    targetId?_transitionElement, hLabel]
  rfl

------------------------------------------------------------
-- Whole Automata
------------------------------------------------------------

/-
  The elements of an automaton are sound exactly if it
  declares its states.
-/
theorem sound_elements_iff
    (a : Automaton) :
    Sound (a.states.map (stateElement a))
        (a.transitions.map transitionElement) ↔
      a.Declared := by
  have hIds :
      idsOf (a.states.map (stateElement a)) = a.ids :=
    idsOf_stateElements a a.states
  constructor
  · rintro ⟨⟨-, hNodup⟩, hEnds⟩
    rw [hIds] at hNodup hEnds
    refine ⟨hNodup, fun t ht => ?_⟩
    rcases hEnds _ (List.mem_map_of_mem ht) with
      ⟨i, hi, j, hj, hSource, hTarget⟩
    rw [sourceId?_transitionElement] at hSource
    rw [targetId?_transitionElement] at hTarget
    cases hSource
    cases hTarget
    exact ⟨hi, hj⟩
  · rintro ⟨hNodup, hEnds⟩
    rw [← hIds] at hNodup
    refine ⟨⟨?_, hNodup⟩, ?_⟩
    · rw [List.forall_mem_map]
      exact fun s _ => ⟨s.id, stateId?_stateElement a s⟩
    · rw [List.forall_mem_map, hIds]
      exact fun t ht =>
        ⟨t.source, (hEnds t ht).1, t.target, (hEnds t ht).2,
          sourceId?_transitionElement t,
          targetId?_transitionElement t⟩

/- The initial state is declared if a state has its id. -/
theorem initial_elements
    (a : Automaton)
    (ts : List Element) :
    (declared a.kind (a.states.map (stateElement a))
        ts).initial =
      a.settled.initial := by
  simp only [declared, List.find?_map, Function.comp_def,
    isSome_child?_of_fields (children_stateElement a _),
    initial_stateFields]
  cases hFirst :
      a.states.find? fun s =>
        decide (a.initial = some s.id) with
  | none =>
      rw [List.find?_eq_none] at hFirst
      have hNone : a.settled.initial = none := by
        rw [Automaton.settled, Option.filter_eq_none_iff]
        intro i hi
        simpa [Automaton.ids, hi, eq_comm] using hFirst
      rw [hNone]
      rfl
  | some s =>
      have hMark : a.initial = some s.id := by
        simpa using List.find?_some hFirst
      have hMem : s.id ∈ a.ids :=
        List.mem_map_of_mem (List.mem_of_find?_eq_some hFirst)
      have hSettled : a.settled.initial = some s.id := by
        simp [Automaton.settled, hMark, Option.filter, hMem]
      rw [hSettled, Option.map_some, Option.bind_some,
        stateId?_stateElement]

/- The final states are declared as far as they have states. -/
theorem finals_elements
    (a : Automaton)
    (ts : List Element) :
    (declared a.kind (a.states.map (stateElement a))
        ts).finals =
      a.settled.finals := by
  apply StateSet.ext
  intro i
  simp only [declared, List.filter_map, Function.comp_def,
    isSome_child?_of_fields (children_stateElement a _),
    final_stateFields, idsOf_stateElements,
    Automaton.settled, StateSet.mem_ofList_iff,
    List.mem_map, List.mem_filter, decide_eq_true_eq,
    Automaton.ids]
  constructor
  · rintro ⟨s, ⟨hs, hFinal⟩, rfl⟩
    exact ⟨hFinal, s, hs, rfl⟩
  · rintro ⟨hFinal, s, hs, rfl⟩
    exact ⟨s, ⟨hs, hFinal⟩, rfl⟩

/- The states of an automaton are declared. -/
theorem states_elements
    (a : Automaton)
    (ts : List Element) :
    (declared a.kind (a.states.map (stateElement a))
        ts).states =
      a.states := by
  rw [declared, List.filterMap_map]
  simp [declaredState?_stateElement]

/- Its transitions are declared with labels of its kind. -/
theorem transitions_elements
    (a : Automaton)
    (ss : List Element) :
    (declared a.kind ss
        (a.transitions.map transitionElement)).transitions =
      a.settled.transitions := by
  rw [declared, List.filterMap_map, Automaton.settled]
  simp [declaredTransition?_transitionElement]

/- An automaton's elements declare it as it is settled. -/
theorem declared_elements
    (a : Automaton) :
    declared a.kind (a.states.map (stateElement a))
        (a.transitions.map transitionElement) =
      a.settled := by
  let ss := a.states.map (stateElement a)
  let ts := a.transitions.map transitionElement
  have hParts :
      declared a.kind ss ts =
        { kind := a.kind
          states := (declared a.kind ss ts).states
          transitions := (declared a.kind ss ts).transitions
          initial := (declared a.kind ss ts).initial
          finals := (declared a.kind ss ts).finals } := rfl
  rw [hParts, states_elements, transitions_elements,
    initial_elements, finals_elements]
  rfl

/-
  An automaton that declares its states is read from its
  document as it is settled there.
-/
theorem read_document_of_declared
    {a : Automaton}
    (ha : a.Declared) :
    (read a.kind (document a)).outcome = .ok a.settled := by
  rw [← sound_elements_iff, ← states_document,
    ← transitions_document] at ha
  rw [outcome_read_of_sound ha, states_document,
    transitions_document, declared_elements]

/-
  One that does not is refused: an id occurs twice, or an end
  of a transition is no state.
-/
theorem read_document_of_not_declared
    {a : Automaton}
    (ha : ¬a.Declared) :
    ∃ i,
      (read a.kind (document a)).outcome =
          .error (.refused (.duplicateState i)) ∨
        (i ∉ a.ids ∧
          (read a.kind (document a)).outcome =
            .error (.refused (.unknownState i))) := by
  rw [← sound_elements_iff] at ha
  rcases (sound_or_firstFault ..).resolve_left ha with
    ⟨p, hp⟩
  have hError :
      (read a.kind (document a)).outcome = .error p := by
    apply outcome_read_of_firstFault
    rwa [states_document, transitions_document]
  rw [hError]
  rcases hp with
    ⟨before, e, after, hSplit, -, hFault⟩ |
      ⟨before, e, after, hSplit, -, hFault⟩
  · have he : e ∈ a.states.map (stateElement a) := by
      simp [hSplit]
    rcases List.mem_map.mp he with ⟨s, -, rfl⟩
    rw [stateFault?_of_eq_some before
      (stateId?_stateElement a s)] at hFault
    refine ⟨s.id, Or.inl ?_⟩
    split at hFault <;> cases hFault
    rfl
  · have he : e ∈ a.transitions.map transitionElement := by
      simp [hSplit]
    rcases List.mem_map.mp he with ⟨t, -, rfl⟩
    rw [transitionFault?_of_eq_some _
      (sourceId?_transitionElement t)
      (targetId?_transitionElement t),
      Option.or_eq_some_iff] at hFault
    have hUnknown :
        ∃ i, i ∉ idsOf (a.states.map (stateElement a)) ∧
          p = .refused (.unknownState i) := by
      rcases hFault with hSource | ⟨-, hTarget⟩
      · exact exists_of_unknownFault?_eq_some hSource
      · exact exists_of_unknownFault?_eq_some hTarget
    rw [idsOf_stateElements] at hUnknown
    rcases hUnknown with ⟨i, hi, rfl⟩
    exact ⟨i, Or.inr ⟨hi, rfl⟩⟩

/- A well-formed automaton is read from its document. -/
theorem read_document
    {a : Automaton}
    (ha : a.WellFormed) :
    (read a.kind (document a)).outcome = .ok a := by
  rw [Automaton.wellFormed_iff_declared] at ha
  rw [read_document_of_declared ha.1, ha.2]

end MachineForm

------------------------------------------------------------
-- Grammars
------------------------------------------------------------

namespace GrammarForm

open MachineForm

/- A production is read from its element. -/
theorem readProduction_productionElement
    (p : Production) :
    readProduction (productionElement p) = p := by
  have hField :=
    childText?_of_fields (children_productionElement p)
  rw [readProduction, hField, hField]
  simp [productionFields]

/- A grammar is read from its document. -/
theorem read_document
    (g : Grammar) :
    read (document g) = g := by
  rw [read, productions_document, List.map_map]
  have hSame :
      readProduction ∘ productionElement = id :=
    funext readProduction_productionElement
  rw [hSame, List.map_id]

end GrammarForm

end AutomataStore
