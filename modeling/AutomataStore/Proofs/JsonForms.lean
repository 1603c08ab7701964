import AutomataStore.Json.Structure
import Mathlib.Data.List.Nodup

/-
  Reading JSON back.

  A value is read back from its JSON form as it was, whether
  it is well formed or not: every field of a record, every
  member of a list or a set, what may be missing, and numbers
  of 32 and 64 bits.  The form of an automaton is read as a
  dependency graph exactly if it is of that kind.

  Key definitions include:
    * `Json.Faithful`

  Main declarations:
    * `Json.record?_object`
    * `Json.Faithful.list`
    * `Json.Faithful.nullable`
    * `Automaton.faithful_toJson`
    * `DependencyGraph.ofJson?_eq_some_iff`
    * `Structure.faithful_toJson`
    * `Structure.ofJson?_toJson_exact`
-/

------------------------------------------------------------
-- Shapes
------------------------------------------------------------

namespace AutomataStore

namespace Json

/- What is written is read back. -/
def Faithful
    {α : Type}
    (write : α → Json)
    (read : Json → Option α) : Prop :=
  ∀ x, read (write x) = some x

/- Each of several fields with different keys is found. -/
theorem field?_of_mem
    {fields : List (String × Json)}
    (hKeys : (fields.map Prod.fst).Nodup)
    {key : String}
    {j : Json}
    (hField : (key, j) ∈ fields) :
    field? fields key = some j := by
  rcases List.append_of_mem hField with ⟨before, after, rfl⟩
  refine List.lookup_eq_some_iff.mpr
    ⟨before, after, rfl, fun f hf => ?_⟩
  have hFirst : key ∉ before.map Prod.fst := by
    rw [List.map_append, List.nodup_append] at hKeys
    intro hBefore
    exact hKeys.2.2 _ hBefore key (by simp) rfl
  rw [bne_iff_ne]
  rintro rfl
  exact hFirst (List.mem_map_of_mem hf)

/- An object with the keys of a record has all its fields. -/
theorem record?_object
    {fields : List (String × Json)}
    {keys : List String}
    (hKeys : fields.map Prod.fst = keys)
    (hDistinct : keys.Nodup) :
    (object fields).record? keys =
      some (fields.map fun f => some f.2) := by
  subst hKeys
  simp only [record?, List.map_map, Option.some.injEq]
  refine List.map_congr_left fun f hf => ?_
  exact field?_of_mem hDistinct hf

/- A number below a limit. -/
theorem natBelow?_nat
    {n limit : Nat}
    (hn : n < limit) :
    (nat n).natBelow? limit = some n := by
  simp [natBelow?, nat, hn]

theorem word32?_nat (n : UInt32) :
    (nat n.toNat).word32? = some n := by
  rw [word32?, natBelow?_nat n.toNat_lt_size]
  simp

theorem word64?_nat (n : UInt64) :
    (nat n.toNat).word64? = some n := by
  rw [word64?, natBelow?_nat n.toNat_lt_size]
  simp

/- Members that are read back make a list that is. -/
theorem mapM_map_eq_some
    {α : Type}
    {write : α → Json}
    {read : Json → Option α}
    {l : List α}
    (hMembers : ∀ x ∈ l, read (write x) = some x) :
    (l.map write).mapM read = some l := by
  induction l with
  | nil => rfl
  | cons x l ih =>
      rcases List.forall_mem_cons.mp hMembers with
        ⟨hHead, hRest⟩
      simp [List.mapM_cons, hHead, ih hRest]

namespace Faithful

variable {α : Type} {write : α → Json}
variable {read : Json → Option α}

/- The list of what is written for each member. -/
theorem list
    (hMember : Faithful write read)
    (l : List α) :
    (Json.list (l.map write)).list? read = some l :=
  mapM_map_eq_some fun x _ => hMember x

/- A value or null, if no value is written as null. -/
theorem nullable
    (hMember : Faithful write read)
    (hNull : ∀ x, write x ≠ .null)
    (o : Option α) :
    nullable? read (some (o.elim .null write)) = some o := by
  cases o with
  | none => rfl
  | some x =>
      have hRead := hMember x
      simp only [Option.elim_some]
      cases hWritten : write x with
      | null => exact absurd hWritten (hNull x)
      | _ => simp [nullable?, ← hWritten, hRead]

end Faithful

theorem faithful_text : Faithful text text? :=
  fun _ => rfl

theorem optional_eq_elim (s : Option String) :
    optional s = s.elim .null .text := by
  cases s <;> rfl

end Json

------------------------------------------------------------
-- Ids and Labels
------------------------------------------------------------

open Json

theorem StateId.faithful_toJson :
    Faithful StateId.toJson StateId.ofJson? := by
  intro i
  simp [toJson, ofJson?, key, word32?_nat]

/- The name of a kind names it. -/
theorem TransitionKind.ofName?_name (k : TransitionKind) :
    ofName? k.name = some k := by
  cases k <;> decide

theorem TransitionKind.faithful_toJson :
    Faithful TransitionKind.toJson TransitionKind.ofJson? := by
  intro k
  simp [toJson, ofJson?, variant?, isUnit, ofName?_name]

theorem TransitionLabel.faithful_toJson :
    Faithful TransitionLabel.toJson
      TransitionLabel.ofJson? := by
  intro label
  have hKind := TransitionKind.ofName?_name label.kind
  cases label with
  | finite _ | mealy _ _ | moore _ | dependency =>
      simp only [kind, TransitionKind.name] at hKind
      simp [toJson, ofJson?, ofVariant, variant?, hKind,
        textField?, field?_of_mem, text?, isUnit]

------------------------------------------------------------
-- States and Transitions
------------------------------------------------------------

/-
  A state is read from the fields of a record.  The fields are
  any values: those that are written out would be computed
  with, and the limits of numbers are large.
-/
theorem State.ofJson?_of_record?
    {j id name label : Json}
    {s : State}
    (hFields :
      j.record? ["id", "name", "label"] =
        some [some id, some name, some label])
    (hId : StateId.ofJson? id = some s.id)
    (hName : name.text? = some s.name)
    (hLabel : nullable? text? (some label) = some s.label) :
    ofJson? j = some s := by
  simp [ofJson?, hFields, hId, hName, hLabel]

theorem State.faithful_toJson :
    Faithful State.toJson State.ofJson? := by
  intro s
  have hLabel :
      nullable? text? (some (.optional s.label)) =
        some s.label := by
    rw [optional_eq_elim]
    exact faithful_text.nullable (by simp) s.label
  exact State.ofJson?_of_record?
    (record?_object rfl (by decide))
    (StateId.faithful_toJson s.id) rfl hLabel

/- A transition is read from the fields of a record. -/
theorem Transition.ofJson?_of_record?
    {j source target label : Json}
    {t : Transition}
    (hFields :
      j.record? ["from", "to", "label"] =
        some [some source, some target, some label])
    (hSource : StateId.ofJson? source = some t.source)
    (hTarget : StateId.ofJson? target = some t.target)
    (hLabel : TransitionLabel.ofJson? label = some t.label) :
    ofJson? j = some t := by
  simp [ofJson?, hFields, hSource, hTarget, hLabel]

theorem Transition.faithful_toJson :
    Faithful Transition.toJson Transition.ofJson? := fun t =>
  Transition.ofJson?_of_record?
    (record?_object rfl (by decide))
    (StateId.faithful_toJson t.source)
    (StateId.faithful_toJson t.target)
    (TransitionLabel.faithful_toJson t.label)

------------------------------------------------------------
-- Automata
------------------------------------------------------------

/- A set is the set of its members. -/
theorem StateSet.ofList_members (s : StateSet) :
    ofList s.members = s :=
  ext fun i => mem_ofList_iff i s.members

theorem StateId.optionToJson_eq_elim (i : Option StateId) :
    optionToJson i = i.elim .null StateId.toJson := by
  cases i <;> rfl

/- An automaton is read from the fields of a record. -/
theorem Automaton.ofJson?_of_record?
    {j kind states transitions initial finals : Json}
    {a : Automaton}
    (hFields :
      j.record?
          ["kind", "states", "transitions", "initial",
           "finals"] =
        some [some kind, some states, some transitions,
          some initial, some finals])
    (hKind : TransitionKind.ofJson? kind = some a.kind)
    (hStates : states.list? State.ofJson? = some a.states)
    (hTransitions :
      transitions.list? Transition.ofJson? =
        some a.transitions)
    (hInitial :
      nullable? StateId.ofJson? (some initial) =
        some a.initial)
    (hFinals :
      finals.list? StateId.ofJson? = some a.finals.members) :
    ofJson? j = some a := by
  simp [ofJson?, hFields, hKind, hStates, hTransitions,
    hInitial, hFinals, StateSet.ofList_members]

theorem Automaton.faithful_toJson :
    Faithful Automaton.toJson Automaton.ofJson? := by
  intro a
  have hInitial :
      nullable? StateId.ofJson?
          (some (StateId.optionToJson a.initial)) =
        some a.initial := by
    rw [StateId.optionToJson_eq_elim]
    exact StateId.faithful_toJson.nullable
      (by simp [StateId.toJson, nat]) a.initial
  exact Automaton.ofJson?_of_record?
    (record?_object rfl (by decide))
    (TransitionKind.faithful_toJson a.kind)
    (State.faithful_toJson.list a.states)
    (Transition.faithful_toJson.list a.transitions)
    hInitial
    (StateId.faithful_toJson.list a.finals.members)

/-
  A graph is read where an automaton of its kind is, and is
  that automaton.
-/
theorem DependencyGraph.ofJson?_eq_some_iff
    (j : Json)
    (g : DependencyGraph) :
    ofJson? j = some g ↔
      Automaton.ofJson? j = some g.automaton := by
  rw [ofJson?]
  cases Automaton.ofJson? j with
  | none => simp
  | some a =>
      by_cases hKind : a.kind = .dependency
      · rcases g with ⟨b, hb⟩
        simp [ofAutomaton, hKind]
      · have hNot : a ≠ g.automaton := by
          rintro rfl
          exact hKind g.kind_eq
        simp [ofAutomaton, hKind, hNot]

theorem DependencyGraph.faithful_toJson :
    Faithful DependencyGraph.toJson
      DependencyGraph.ofJson? := by
  intro g
  rw [DependencyGraph.ofJson?_eq_some_iff]
  exact Automaton.faithful_toJson g.automaton

/-
  An automaton is read as a graph exactly if it is of the kind
  of dependency graphs.
-/
theorem DependencyGraph.isSome_ofJson?_toJson_iff
    (a : Automaton) :
    (ofJson? a.toJson).isSome ↔ a.kind = .dependency := by
  simp only [Option.isSome_iff_exists, ofJson?_eq_some_iff,
    Automaton.faithful_toJson a, Option.some.injEq]
  constructor
  · rintro ⟨g, rfl⟩
    exact g.kind_eq
  · intro hKind
    exact ⟨⟨a, hKind⟩, rfl⟩

------------------------------------------------------------
-- Grammars
------------------------------------------------------------

theorem Production.faithful_toJson :
    Faithful Production.toJson Production.ofJson? := by
  intro p
  simp [toJson, ofJson?, record?_object, text?]

theorem Grammar.faithful_toJson :
    Faithful Grammar.toJson Grammar.ofJson? := by
  intro g
  simp [toJson, ofJson?, record?_object,
    Faithful.list Production.faithful_toJson g.productions]

------------------------------------------------------------
-- Structures
------------------------------------------------------------

theorem StructureKind.faithful_toJson :
    Faithful StructureKind.toJson StructureKind.ofJson? := by
  intro k
  cases k with
  | automaton kind =>
      simp [toJson, ofJson?, ofVariant, variant?,
        TransitionKind.faithful_toJson kind]
  | grammar => rfl
  | chooser => rfl

namespace Structure

theorem listToJson_eq_map (l : List Structure) :
    listToJson l = l.map toJson := by
  induction l with
  | nil => rfl
  | cons s rest ih => simp [listToJson, ih]

/-
  A chooser is read from its options, each read as a
  structure, and its selected place.
-/
theorem ofJson?_chooser
    (items : List Json)
    (selected : Json) :
    ofJson? (.ofVariant "Chooser" (.object
        [("options", .list items), ("selected", selected)])) =
      (items.mapM ofJson?).bind fun options =>
        selected.word64?.bind fun place =>
          some (.chooser options place) := by
  have hFields :
      record? ["options", "selected"] (.object
          [("options", .list items), ("selected", selected)]) =
        some [some (.list items), some selected] :=
    record?_object rfl (by decide)
  rw [ofJson?]
  simp only [ofVariant, variant?]
  rw [hFields]
  simp

theorem faithful_toJson :
    Faithful Structure.toJson Structure.ofJson? := by
  intro s
  induction s using inductionOnOptions with
  | settled s hSettled =>
      cases s with
      | automaton a =>
          rw [ofJson?]
          simp [toJson, ofVariant, variant?,
            Automaton.faithful_toJson a]
      | dependencyGraph g =>
          rw [ofJson?]
          simp [toJson, ofVariant, variant?,
            DependencyGraph.faithful_toJson g]
      | grammar g =>
          rw [ofJson?]
          simp [toJson, ofVariant, variant?,
            Grammar.faithful_toJson g]
      | chooser options selected =>
          exact absurd ⟨⟨options, selected⟩, rfl⟩ hSettled
  | chooser c ih =>
      rw [Chooser.toStructure, toJson, ofJson?_chooser,
        listToJson_eq_map, mapM_map_eq_some ih, word64?_nat]
      rfl

end Structure

theorem Chooser.faithful_toJson :
    Faithful Chooser.toJson Chooser.ofJson? := by
  intro c
  have hOptions :=
    Faithful.list Structure.faithful_toJson c.options
  rw [← Structure.listToJson_eq_map] at hOptions
  simp [toJson, ofJson?, record?_object, hOptions,
    word64?_nat]

/-
  Every structure is read back from its JSON form, and so is
  every chooser and every kind.  The form of an automaton is
  read as a dependency graph exactly if the automaton is of
  that kind, and then as the graph of the same automaton.
-/
theorem Structure.ofJson?_toJson_exact :
    (∀ s : Structure, Structure.ofJson? s.toJson = some s) ∧
    (∀ c : Chooser, Chooser.ofJson? c.toJson = some c) ∧
    (∀ k : StructureKind,
      StructureKind.ofJson? k.toJson = some k) ∧
    ∀ a : Automaton,
      ((DependencyGraph.ofJson? a.toJson).isSome ↔
        a.kind = .dependency) ∧
      ∀ g, DependencyGraph.ofJson? a.toJson = some g ↔
        g.automaton = a := by
  refine ⟨Structure.faithful_toJson, Chooser.faithful_toJson,
    StructureKind.faithful_toJson, fun a =>
      ⟨DependencyGraph.isSome_ofJson?_toJson_iff a,
        fun g => ?_⟩⟩
  rw [DependencyGraph.ofJson?_eq_some_iff,
    Automaton.faithful_toJson a, Option.some.injEq, eq_comm]

end AutomataStore
