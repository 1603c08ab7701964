import AutomataStore.Proofs.FormDocuments
import AutomataStore.Storage.Registry
import Mathlib.Logic.Function.Basic

/-
  What decoding reads of a document.

  Decoding looks up the elements that declare states,
  transitions and productions, at any depth.  Of each one it
  reads the attributes, the text of the first child with some
  tags and whether there are children with others.  Documents
  that agree on this are decoded alike.

  Key definitions include:
    * `Document.recordTags`, `Document.textTags`
    * `Document.markTags`, `Document.readTags`
    * `Node.Without`
    * `Element.view`

  Main declarations:
    * `Node.descendantsByTag_of_without`
    * `Document.typeTag_eq`
    * `Form.read_of_views`
-/

------------------------------------------------------------
-- Tags
------------------------------------------------------------

namespace AutomataStore

open Markup (Attribute)

namespace Document

/- The tags of elements that declare a part of a structure. -/
def recordTags : List String :=
  ["state", "transition", "production"]

/- The tags of elements whose text is read. -/
def textTags : List String :=
  ["label", "from", "to", "read", "transout", "left",
   "right", "type"]

/- The tags of elements that count as soon as they are there. -/
def markTags : List String :=
  ["initial", "final"]

/- All tags that decoding asks for. -/
def readTags : List String :=
  recordTags ++ textTags ++ markTags

theorem mem_readTags_iff
    {tag : String} :
    tag ∈ readTags ↔
      tag ∈ recordTags ∨ tag ∈ textTags ∨
        tag ∈ markTags := by
  simp only [readTags, List.mem_append, or_assoc]

end Document

------------------------------------------------------------
-- Forests without Some Tags
------------------------------------------------------------

namespace Node

/- No element of a forest, at any depth, has one of the tags. -/
def Without (tags : List String) : List Node → Prop
  | [] => True
  | .element tag _ children :: rest =>
      tag ∉ tags ∧ Without tags children ∧ Without tags rest
  | _ :: rest => Without tags rest

/- The tags are missed by each node of a forest on its own. -/
theorem without_iff_forall
    {tags : List String}
    (nodes : List Node) :
    Without tags nodes ↔ ∀ n ∈ nodes, Without tags [n] := by
  induction nodes using forestInduction with
  | nil => simp [Without]
  | element tag attributes children rest _ ih =>
      simp [Without, ih, and_assoc]
  | text content rest ih => simp [Without, ih]
  | comment content rest ih => simp [Without, ih]

/- No element of the forest itself has one of the tags. -/
theorem tag_not_mem_of_without
    {tags : List String}
    {nodes : List Node}
    (h : Without tags nodes) :
    ∀ e ∈ elements nodes, e.tag ∉ tags := by
  induction nodes using forestInduction with
  | nil => simp [elements]
  | element tag attributes children rest _ ih =>
      simp only [Without] at h
      simp only [elements, List.forall_mem_cons]
      exact ⟨h.1, ih h.2.2⟩
  | text content rest ih =>
      simp only [Without] at h
      simpa only [elements] using ih h
  | comment content rest ih =>
      simp only [Without] at h
      simpa only [elements] using ih h

@[simp]
theorem descendantsByTag_nil
    (wanted : String) :
    descendantsByTag wanted [] = [] := by
  simp [descendantsByTag, descendantsBefore]

/- No descendant has one of the tags. -/
theorem descendantsByTag_of_without
    {tags : List String}
    {wanted : String}
    {nodes : List Node}
    (hWanted : wanted ∈ tags)
    (h : Without tags nodes) :
    descendantsByTag wanted nodes = [] := by
  unfold descendantsByTag
  induction nodes using forestInduction with
  | nil => simp [descendantsBefore]
  | element tag attributes children rest ihInner ihRest =>
      simp only [Without] at h
      rcases h with ⟨hTag, hInner, hRest⟩
      have hOther : tag ≠ wanted := by
        rintro rfl
        exact hTag hWanted
      simp only [descendantsBefore, if_neg hOther]
      rw [ihRest hRest, ihInner hInner]
  | text content rest ih =>
      simp only [Without] at h
      simpa only [descendantsBefore] using ih h
  | comment content rest ih =>
      simp only [Without] at h
      simpa only [descendantsBefore] using ih h

------------------------------------------------------------
-- Forests That Follow Each Other
------------------------------------------------------------

theorem elements_append
    (nodes others : List Node) :
    elements (nodes ++ others) =
      elements nodes ++ elements others := by
  induction nodes using forestInduction with
  | nil => rfl
  | element tag attributes children rest _ ih =>
      simp [elements, ih]
  | text content rest ih => simp [elements, ih]
  | comment content rest ih => simp [elements, ih]

theorem textOf_append
    (nodes others : List Node) :
    textOf (nodes ++ others) =
      textOf nodes ++ textOf others := by
  induction nodes using forestInduction with
  | nil => simp [textOf]
  | element tag attributes children rest _ ih =>
      simp [textOf, ih]
  | text content rest ih =>
      simp [textOf, ih, String.append_assoc]
  | comment content rest ih => simp [textOf, ih]

end Node

------------------------------------------------------------
-- Views of Elements
------------------------------------------------------------

namespace Element

/-
  What decoding reads of an element: its attributes, the text
  under each tag and whether each mark is there.
-/
structure View where
  attributes : List Attribute
  texts : List (Option String)
  marks : List Bool
deriving DecidableEq

/- The view of an element. -/
def view (e : Element) : View where
  attributes := e.attributes
  texts :=
    Document.textTags.map (MachineForm.childText? e)
  marks :=
    Document.markTags.map fun tag => (e.child? tag).isSome

/- Views agree when what they are made of does. -/
theorem view_eq_view_iff
    (e e' : Element) :
    e.view = e'.view ↔
      e.attributes = e'.attributes ∧
        (∀ tag ∈ Document.textTags,
          MachineForm.childText? e tag =
            MachineForm.childText? e' tag) ∧
        ∀ tag ∈ Document.markTags,
          (e.child? tag).isSome = (e'.child? tag).isSome := by
  simp only [view, View.mk.injEq, List.map_inj_left]

end Element

------------------------------------------------------------
-- Dependence on Views
------------------------------------------------------------

namespace MachineForm

/- The view of an element decides which state it declares. -/
theorem readState_factorsThrough :
    Function.FactorsThrough readState Element.view := by
  intro e e' h
  rw [Element.view_eq_view_iff] at h
  rcases h with ⟨hAttributes, hTexts, _⟩
  have hLabel := hTexts "label" (by decide)
  simp only [readState, Element.attribute?, hAttributes,
    hLabel]

/- It decides how the state is added, with its marks. -/
theorem takeState_factorsThrough :
    Function.FactorsThrough (flip takeState) Element.view := by
  intro e e' h
  have hState := readState_factorsThrough h
  rw [Element.view_eq_view_iff] at h
  rcases h with ⟨_, _, hMarks⟩
  have hInitial := hMarks "initial" (by decide)
  have hFinal := hMarks "final" (by decide)
  funext a
  simp only [flip, takeState, hState, hInitial, hFinal]

/- It decides which transition is added. -/
theorem takeTransition_factorsThrough :
    Function.FactorsThrough (flip takeTransition)
      Element.view := by
  intro e e' h
  rw [Element.view_eq_view_iff] at h
  rcases h with ⟨_, hTexts, _⟩
  have hFrom := hTexts "from" (by decide)
  have hTo := hTexts "to" (by decide)
  have hRead := hTexts "read" (by decide)
  have hOutput := hTexts "transout" (by decide)
  funext a
  simp only [flip, takeTransition, readLabel, hFrom, hTo,
    hRead, hOutput]

end MachineForm

/- It decides which production an element declares. -/
theorem GrammarForm.readProduction_factorsThrough :
    Function.FactorsThrough readProduction Element.view := by
  intro e e' h
  rw [Element.view_eq_view_iff] at h
  rcases h with ⟨_, hTexts, _⟩
  have hLeft := hTexts "left" (by decide)
  have hRight := hTexts "right" (by decide)
  simp only [readProduction, hLeft, hRight]

------------------------------------------------------------
-- Documents with the Same Views
------------------------------------------------------------

/- A loop whose steps depend on views sees only the views. -/
theorem foldlM_of_views
    {f : Automaton → Element → Traced Automaton}
    (hf : Function.FactorsThrough (flip f) Element.view)
    {es es' : List Element}
    (h : es.map Element.view = es'.map Element.view)
    (a : Automaton) :
    es.foldlM f a = es'.foldlM f a := by
  have hNonempty : Nonempty (Automaton → Traced Automaton) :=
    ⟨pure⟩
  rcases (Function.factorsThrough_iff (flip f)).mp hf with
    ⟨step, hStep⟩
  have hFold :
      ∀ es : List Element,
        es.foldlM f a =
          (es.map Element.view).foldlM (flip step) a := by
    intro es
    have hFlip : f = flip (step ∘ Element.view) := by
      rw [← hStep]
      rfl
    rw [List.foldlM_map, hFlip]
    rfl
  rw [hFold es, hFold es', h]

/- The type of a document, from the text of its first `type`. -/
theorem Document.typeTag_eq
    (d : Document) :
    d.typeTag =
      if d.root.tag = "structure" then
        (MachineForm.childText? d.root "type").elim d.root.tag
          Text.trim
      else
        d.root.tag := by
  unfold Document.typeTag MachineForm.childText?
  cases d.root.child? "type" <;> rfl

/-
  Documents are read alike in every form when their states,
  transitions and productions have the same views in order.
-/
theorem Form.read_of_views
    {d d' : Document}
    (h :
      ∀ tag ∈ Document.recordTags,
        (d.root.descendantsByTag tag).map Element.view =
          (d'.root.descendantsByTag tag).map Element.view)
    (f : Form) :
    f.read d = f.read d' := by
  have hStates := h "state" (by decide)
  have hTransitions := h "transition" (by decide)
  have hProductions := h "production" (by decide)
  cases f with
  | grammar =>
      rcases (Function.factorsThrough_iff _).mp
          GrammarForm.readProduction_factorsThrough with
        ⟨production, hProduction⟩
      have hRead :
          GrammarForm.read d = GrammarForm.read d' := by
        simp only [GrammarForm.read, hProduction,
          ← List.map_map, hProductions]
      simp only [read, hRead]
  | automaton kind =>
      have hRead :
          MachineForm.read kind d =
            MachineForm.read kind d' := by
        simp only [MachineForm.read]
        rw [foldlM_of_views
          MachineForm.takeState_factorsThrough hStates]
        exact bind_congr fun a =>
          foldlM_of_views
            MachineForm.takeTransition_factorsThrough
            hTransitions a
      simp only [read, hRead]

end AutomataStore
