import AutomataStore.Document.Reading
import AutomataStore.Proofs.TokenRuns

/-
  Events that spell forests.

  A forest is spelled by the events of its nodes in order, an
  element by its start, its children and its end.  Assembling
  such events adds the forest to the open element, with the
  gaps left out inside every element of it.

  Key definitions include:
    * `Event.Spells`

  Main declarations:
    * `Assembly.foldlM_step_of_spells`
    * `Assembly.foldlM_step_root_of_spells`
    * `Document.assemble_of_delivers`
-/

------------------------------------------------------------
-- Spelling
------------------------------------------------------------

namespace AutomataStore

open Markup (Attribute Event Fault Malformed Feed)

/-
  Events that spell a forest.  An element without children
  may be one event.
-/
inductive Markup.Event.Spells :
    List Event → List Node → Prop where
  | nil : Spells [] []
  | element
      {tag : String}
      {attributes : List Attribute}
      {inner rest : List Event}
      {children nodes : List Node} :
      Spells inner children → Spells rest nodes →
        Spells
          (.start tag attributes :: inner ++ .finish :: rest)
          (.element tag attributes children :: nodes)
  | empty
      {tag : String}
      {attributes : List Attribute}
      {rest : List Event}
      {nodes : List Node} :
      Spells rest nodes →
        Spells
          (.empty tag attributes :: rest)
          (.element tag attributes [] :: nodes)
  | text
      {content : String}
      {rest : List Event}
      {nodes : List Node} :
      Spells rest nodes →
        Spells
          (.text content :: rest) (.text content :: nodes)
  | comment
      {content : String}
      {rest : List Event}
      {nodes : List Node} :
      Spells rest nodes →
        Spells
          (.comment content :: rest)
          (.comment content :: nodes)

------------------------------------------------------------
-- Assembling Spelled Forests
------------------------------------------------------------

namespace OpenElement

/- Add children at the end. -/
def appendAll
    (e : OpenElement)
    (nodes : List Node) : OpenElement :=
  { e with newestFirst := nodes.reverse ++ e.newestFirst }

@[simp]
theorem appendAll_nil
    (e : OpenElement) :
    e.appendAll [] = e :=
  rfl

/- The first child comes before the others. -/
@[simp]
theorem appendAll_append
    (e : OpenElement)
    (n : Node)
    (nodes : List Node) :
    (e.append n).appendAll nodes =
      e.appendAll (n :: nodes) := by
  simp [appendAll, append]

/- An element that was opened and filled, once it closes. -/
theorem close_appendAll
    (tag : String)
    (attributes : List Attribute)
    (nodes : List Node) :
    (OpenElement.appendAll { tag, attributes }
        nodes).close =
      ⟨tag, attributes, Node.dropGaps nodes⟩ := by
  simp [appendAll, close, Element.dropGaps]

end OpenElement

namespace Assembly

/- One event that is taken in leads on to the others. -/
theorem foldlM_step_cons
    {a b : Assembly}
    {e : Event}
    (hStep : a.step e = .ok b)
    (rest : List Event) :
    (e :: rest).foldlM step a = rest.foldlM step b := by
  rw [List.foldlM_cons, hStep]
  rfl

/- Events that are taken in lead on to the others. -/
theorem foldlM_step_append
    {a b : Assembly}
    {events : List Event}
    (hSteps : events.foldlM step a = .ok b)
    (rest : List Event) :
    (events ++ rest).foldlM step a = rest.foldlM step b := by
  rw [List.foldlM_append, hSteps]
  rfl

/- The end of an element makes it a child of the outer one. -/
theorem step_finish
    (tag : String)
    (attributes : List Attribute)
    (children : List Node)
    (e : OpenElement)
    (outer : List OpenElement)
    (root : Option Element) :
    step
        ⟨OpenElement.appendAll { tag, attributes } children ::
          e :: outer, root⟩ .finish =
      .ok ⟨e.append
          (.element tag attributes (Node.dropGaps children)) ::
        outer, root⟩ := by
  simp [step, place, appendNode, Element.toNode,
    OpenElement.close_appendAll]

/-
  Inside an open element, events that spell a forest add it,
  without the gaps inside its elements.
-/
theorem foldlM_step_of_spells
    {events : List Event}
    {nodes : List Node}
    (hSpells : Event.Spells events nodes)
    (e : OpenElement)
    (outer : List OpenElement)
    (root : Option Element) :
    events.foldlM step ⟨e :: outer, root⟩ =
      .ok ⟨e.appendAll (Node.normalizeInside nodes) :: outer,
        root⟩ := by
  induction hSpells generalizing e outer with
  | nil => simp [Node.normalizeInside, pure, Except.pure]
  | @element tag attributes inner rest children nodes
      _ _ ihInner ihRest =>
      have hStart :
          step ⟨e :: outer, root⟩ (.start tag attributes) =
            .ok ⟨{ tag, attributes } :: e :: outer, root⟩ :=
        rfl
      rw [List.cons_append, foldlM_step_cons hStart,
        foldlM_step_append (ihInner _ _),
        foldlM_step_cons (step_finish ..), ihRest]
      simp [Node.normalizeInside]
  | @empty tag attributes rest nodes _ ih =>
      have hEmpty :
          step ⟨e :: outer, root⟩ (.empty tag attributes) =
            .ok ⟨e.append (.element tag attributes []) ::
              outer, root⟩ :=
        rfl
      rw [foldlM_step_cons hEmpty, ih]
      simp [Node.normalizeInside, Node.dropGaps]
  | @text content rest nodes _ ih =>
      have hText :
          step ⟨e :: outer, root⟩ (.text content) =
            .ok ⟨e.append (.text content) :: outer, root⟩ := by
        simp [step, appendNode]
      rw [foldlM_step_cons hText, ih]
      simp [Node.normalizeInside]
  | @comment content rest nodes _ ih =>
      have hComment :
          step ⟨e :: outer, root⟩ (.comment content) =
            .ok ⟨e.append (.comment content) :: outer,
              root⟩ :=
        rfl
      rw [foldlM_step_cons hComment, ih]
      simp [Node.normalizeInside]

/-
  Outside all elements, events that spell one element make
  it the root.
-/
theorem foldlM_step_root_of_spells
    {events : List Event}
    {tag : String}
    {attributes : List Attribute}
    {children : List Node}
    (hSpells :
      Event.Spells events
        [.element tag attributes children]) :
    events.foldlM step {} =
      .ok ⟨[], some
        (Element.normalize ⟨tag, attributes, children⟩)⟩ := by
  cases hSpells with
  | @element _ _ inner rest _ _ hInner hRest =>
      cases hRest
      have hStart :
          step {} (.start tag attributes) =
            .ok ⟨[{ tag, attributes }], none⟩ :=
        rfl
      have hFinish :
          step
              ⟨[OpenElement.appendAll { tag, attributes }
                (Node.normalizeInside children)], none⟩
              .finish =
            .ok ⟨[], some (Element.normalize
              ⟨tag, attributes, children⟩)⟩ := by
        simp [step, place, OpenElement.close_appendAll,
          Element.normalize]
      rw [List.cons_append, foldlM_step_cons hStart,
        foldlM_step_append
          (foldlM_step_of_spells hInner _ _ _),
        foldlM_step_cons hFinish]
      rfl
  | empty hRest =>
      cases hRest
      have hEmpty :
          step {} (.empty tag attributes) =
            .ok ⟨[], some { tag, attributes }⟩ :=
        rfl
      rw [foldlM_step_cons hEmpty]
      simp [Element.normalize, Node.normalizeInside,
        Node.dropGaps, pure, Except.pure]

end Assembly

------------------------------------------------------------
-- Whole Documents
------------------------------------------------------------

namespace Document

/-
  A feed without a fault is assembled by taking in its events
  one after the other.
-/
theorem assemble_of_delivers
    {f : Feed Event}
    {events : List Event}
    (hFeed : f.Delivers events)
    {a : Assembly}
    {root : Element}
    (hSteps :
      events.foldlM Assembly.step a = .ok ⟨[], some root⟩) :
    assemble a f = .ok ⟨root⟩ := by
  induction f generalizing a events with
  | complete offset =>
      rw [Feed.delivers_complete] at hFeed
      subst hFeed
      cases hSteps
      rfl
  | broken offset fault =>
      cases hFeed.1
  | item e offset rest ih =>
      rcases hFeed with ⟨hComplete, rfl⟩
      simp only [Feed.items, List.foldlM_cons] at hSteps
      simp only [assemble]
      cases hStep : a.step e with
      | error fault =>
          rw [hStep] at hSteps
          cases hSteps
      | ok b =>
          rw [hStep] at hSteps
          exact ih ⟨hComplete, rfl⟩ hSteps

end Document

end AutomataStore
