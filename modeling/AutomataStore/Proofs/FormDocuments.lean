import AutomataStore.Proofs.RegularDocuments
import AutomataStore.Storage.GrammarForm

/-
  The documents of automata and grammars.

  They are regular.  Each state, transition and production is
  an element that holds fields, which are texts under tags,
  and the elements listed under a heading are all the
  elements with their tag, in order.

  Key definitions include:
    * `Node.ofFields`
    * `MachineForm.stateFields`
    * `MachineForm.transitionFields`
    * `GrammarForm.productionFields`

  Main declarations:
    * `MachineForm.regular_document`
    * `MachineForm.states_document`
    * `MachineForm.transitions_document`
    * `GrammarForm.regular_document`
    * `GrammarForm.productions_document`
-/

------------------------------------------------------------
-- Elements by Tag
------------------------------------------------------------

namespace AutomataStore

open Markup

namespace Node

/- The elements with a tag in forests that follow each other. -/
theorem descendantsByTag_append
    (wanted : String)
    (nodes others : List Node) :
    descendantsByTag wanted (nodes ++ others) =
      descendantsByTag wanted nodes ++
        descendantsByTag wanted others := by
  have hBefore :
      ∀ after,
        descendantsBefore wanted after (nodes ++ others) =
          descendantsBefore wanted
            (descendantsBefore wanted after others)
            nodes := by
    induction nodes using forestInduction with
    | nil =>
        intro after
        simp [descendantsBefore]
    | element tag attributes children rest _ ih =>
        intro after
        simp only [List.cons_append, descendantsBefore, ih]
    | text content rest ih =>
        intro after
        simp only [List.cons_append, descendantsBefore, ih]
    | comment content rest ih =>
        intro after
        simp only [List.cons_append, descendantsBefore, ih]
  have hWhole := hBefore []
  rw [descendantsBefore_eq wanted
    (descendantsBefore wanted [] others)] at hWhole
  exact hWhole

/- An element with a tag comes before those inside it. -/
theorem descendantsByTag_toNode_cons
    (wanted : String)
    (e : Element)
    (rest : List Node) :
    descendantsByTag wanted (e.toNode :: rest) =
      (if e.tag = wanted then [e] else []) ++
        descendantsByTag wanted e.children ++
        descendantsByTag wanted rest := by
  rw [descendantsByTag, Element.toNode, descendantsBefore,
    descendantsBefore_eq]
  split <;> simp [descendantsByTag]

/- Elements of a regular forest that stand on their own. -/
theorem regular_map_toNode
    {es : List Element}
    (hes : ∀ e ∈ es, Regular [e.toNode]) :
    Regular (es.map Element.toNode) := by
  induction es with
  | nil => simp [Regular]
  | cons e es ih =>
      have hRest :=
        ih fun d hd => hes d (List.mem_cons_of_mem _ hd)
      exact regular_append (hes e (List.mem_cons_self ..))
        hRest

------------------------------------------------------------
-- Fields
------------------------------------------------------------

/- Elements that hold texts, from their tags and texts. -/
def ofFields (fields : List (String × String)) : List Node :=
  fields.map fun f => (Element.withText f.1 f.2).toNode

/- The tag of an element with a text. -/
@[simp]
theorem tag_withText
    (tag text : String) :
    (Element.withText tag text).tag = tag :=
  rfl

/- The text of an element with a text. -/
@[simp]
theorem text_withText
    (tag text : String) :
    (Element.withText tag text).text = text := by
  unfold Element.withText Element.text
  by_cases h : text = "" <;> simp [h, textOf]

/- No attributes have no names that could meet. -/
theorem namesApart_nil :
    NamesApart [] := by
  decide

/- An element with a text is regular. -/
theorem regular_withText
    {tag : String}
    (hTag : IsName tag)
    (text : String) :
    Regular [(Element.withText tag text).toNode] := by
  simp only [Element.toNode, Regular]
  refine ⟨hTag, namesApart_nil, ?_, trivial⟩
  by_cases h : text = ""
  · right
    simp [Element.withText, h, Regular]
  · left
    exact ⟨text, h, by simp [Element.withText, h]⟩

/- The first element of a forest that starts with one. -/
theorem elements_toNode_cons
    (e : Element)
    (rest : List Node) :
    elements (e.toNode :: rest) = e :: elements rest :=
  rfl

/- Fields are the elements they are made of. -/
theorem elements_ofFields
    (fields : List (String × String)) :
    elements (ofFields fields) =
      fields.map fun f => Element.withText f.1 f.2 := by
  induction fields with
  | nil => rfl
  | cons f fields ih =>
      rw [ofFields, List.map_cons, elements_toNode_cons]
      exact congrArg _ ih

/- There are no elements inside fields. -/
theorem descendantsByTag_ofFields
    {wanted : String}
    {fields : List (String × String)}
    (hFields : ∀ f ∈ fields, f.1 ≠ wanted) :
    descendantsByTag wanted (ofFields fields) = [] := by
  have hInner :
      ∀ tag text,
        descendantsByTag wanted
          (Element.withText tag text).children = [] := by
    intro tag text
    unfold Element.withText
    by_cases h : text = "" <;>
      simp [h, descendantsByTag, descendantsBefore]
  induction fields with
  | nil =>
      simp [ofFields, descendantsByTag, descendantsBefore]
  | cons f fields ih =>
      have hTag : (Element.withText f.1 f.2).tag ≠ wanted :=
        hFields f (List.mem_cons_self ..)
      have hRest :=
        ih fun g hg =>
          hFields g (List.mem_cons_of_mem _ hg)
      rw [ofFields, List.map_cons,
        descendantsByTag_toNode_cons, if_neg hTag, hInner]
      exact hRest

/- An element that holds fields is regular. -/
theorem regular_of_fields
    {e : Element}
    {fields : List (String × String)}
    (hTag : IsName e.tag)
    (hAttributes : NamesApart e.attributes)
    (hChildren : e.children = ofFields fields)
    (hFields : ∀ f ∈ fields, IsName f.1) :
    Regular [e.toNode] := by
  have hInner : Regular (ofFields fields) := by
    have hMap :
        ofFields fields =
          (fields.map fun f =>
            Element.withText f.1 f.2).map
              Element.toNode := by
      simp [ofFields]
    rw [hMap]
    apply regular_map_toNode
    intro e he
    rcases List.mem_map.mp he with ⟨f, hf, rfl⟩
    exact regular_withText (hFields f hf) f.2
  have hComments :
      (ofFields fields).any isComment = false := by
    simp [ofFields, Element.toNode, isComment]
  simp only [Element.toNode, Regular, hChildren]
  refine ⟨hTag, hAttributes, Or.inr ⟨hInner, ?_⟩, trivial⟩
  simp [hComments]

end Node

namespace MachineForm

open Node

/- A field is read by its tag. -/
theorem childText?_of_fields
    {e : Element}
    {fields : List (String × String)}
    (hChildren : e.children = ofFields fields)
    (tag : String) :
    childText? e tag =
      (fields.find? fun f => f.1 = tag).map Prod.snd := by
  unfold childText? Element.child? Element.elements
  rw [hChildren, elements_ofFields, List.find?_map,
    Option.map_map]
  simp only [Function.comp_def, tag_withText,
    text_withText]
  rfl

/- Whether there is a field with a tag. -/
theorem isSome_child?_of_fields
    {e : Element}
    {fields : List (String × String)}
    (hChildren : e.children = ofFields fields)
    (tag : String) :
    (e.child? tag).isSome =
      fields.any fun f => f.1 = tag := by
  have hText := childText?_of_fields hChildren tag
  have hSome := congrArg Option.isSome hText
  simpa [childText?, List.isSome_find?] using hSome

------------------------------------------------------------
-- Listed Elements
------------------------------------------------------------

/- Regular elements are regular under a heading. -/
theorem regular_listed
    {α : Type}
    {heading : String}
    (hHeading : IsCommentText heading)
    {element : α → Element}
    (hElement : ∀ x, Regular [(element x).toNode])
    (l : List α) :
    Regular (listed heading (l.map element)) := by
  unfold listed
  split
  · simp [Regular]
  · simp only [Regular]
    refine ⟨hHeading, regular_map_toNode ?_⟩
    intro e he
    rcases List.mem_map.mp he with ⟨x, _, rfl⟩
    exact hElement x

/- A heading is there exactly when something is listed. -/
theorem any_isComment_listed
    (heading : String)
    (es : List Element) :
    (listed heading es).any isComment =
      (listed heading es).any isElement := by
  unfold listed
  cases es with
  | nil => rfl
  | cons e es =>
      simp [isComment, isElement, Element.toNode]

/-
  Elements of one tag are listed as the elements with it, if
  there are none inside them.
-/
theorem descendantsByTag_listed
    {α : Type}
    (wanted heading tag : String)
    {element : α → Element}
    (hTag : ∀ x, (element x).tag = tag)
    (hInner :
      ∀ x, descendantsByTag wanted (element x).children = [])
    (l : List α) :
    descendantsByTag wanted (listed heading (l.map element)) =
      if tag = wanted then l.map element else [] := by
  have hMap :
      descendantsByTag wanted
          ((l.map element).map Element.toNode) =
        if tag = wanted then l.map element else [] := by
    induction l with
    | nil => simp [descendantsByTag, descendantsBefore]
    | cons x l ih =>
        rw [List.map_cons, List.map_cons,
          descendantsByTag_toNode_cons, hInner x, hTag x, ih]
        by_cases h : tag = wanted <;> simp [h]
  unfold listed
  split
  · rename_i hNone
    rw [hNone]
    simp [descendantsByTag, descendantsBefore]
  · rw [← hMap]
    simp [descendantsByTag, descendantsBefore]

------------------------------------------------------------
-- Automata
------------------------------------------------------------

/- The fields of a state: its label and its marks. -/
def stateFields
    (a : Automaton)
    (s : State) : List (String × String) :=
  (s.label.map fun text => ("label", text)).toList ++
    (if a.initial = some s.id then [("initial", "")]
      else []) ++
    (if s.id ∈ a.finals then [("final", "")] else [])

/- The fields of the label of a transition. -/
def labelFields :
    TransitionLabel → List (String × String)
  | .finite read => [("read", read)]
  | .mealy read output =>
      [("read", read), ("transout", output)]
  | .moore read => [("read", read)]
  | .dependency => []

/- The fields of a transition: its ends and its label. -/
def transitionFields
    (t : Transition) : List (String × String) :=
  ("from", t.source.decimal) :: ("to", t.target.decimal) ::
    labelFields t.label

/- The element of a state holds its fields. -/
theorem children_stateElement
    (a : Automaton)
    (s : State) :
    (stateElement a s).children =
      ofFields (stateFields a s) := by
  have hMark :
      ∀ (p : Prop) [Decidable p] (tag : String),
        (if p then [Element.toNode { tag := tag }] else []) =
          ofFields (if p then [(tag, "")] else []) := by
    intro p _ tag
    split <;> rfl
  simp only [stateElement, stateFields, hMark]
  cases s.label <;> simp [ofFields]

/- The element of a transition holds its fields. -/
theorem children_transitionElement
    (t : Transition) :
    (transitionElement t).children =
      ofFields (transitionFields t) := by
  cases h : t.label <;>
    simp [transitionElement, transitionFields, labelFields,
      labelElements, ofFields, h]

/- The tags of the fields of states. -/
theorem tag_mem_of_mem_stateFields
    {a : Automaton}
    {s : State}
    {f : String × String}
    (hf : f ∈ stateFields a s) :
    f.1 ∈ ["label", "initial", "final"] := by
  simp only [stateFields, List.mem_append,
    Option.mem_toList, Option.map_eq_some_iff] at hf
  rcases hf with (⟨text, _, rfl⟩ | hf) | hf
  · simp
  · split at hf <;> simp_all
  · split at hf <;> simp_all

/- The tags of the fields of transitions. -/
theorem tag_mem_of_mem_transitionFields
    {t : Transition}
    {f : String × String}
    (hf : f ∈ transitionFields t) :
    f.1 ∈ ["from", "to", "read", "transout"] := by
  simp only [transitionFields, List.mem_cons] at hf
  rcases hf with rfl | rfl | hf
  · simp
  · simp
  · cases h : t.label with
    | mealy read output =>
        simp only [h, labelFields, List.mem_cons,
          List.not_mem_nil, or_false] at hf
        rcases hf with rfl | rfl <;> simp
    | dependency => simp [h, labelFields] at hf
    | _ => simp_all [labelFields]

/- The tags of automata and of their parts. -/
def tags : List String :=
  ["fa", "mealy", "moore", "vdg", "state", "label",
   "initial", "final", "transition", "from", "to", "read",
   "transout"]

/- All of them are names. -/
theorem isName_of_mem_tags
    {tag : String}
    (hTag : tag ∈ tags) :
    IsName tag := by
  have hAll : ∀ s ∈ tags, IsName s := by decide +kernel
  exact hAll tag hTag

/- The element of a state is regular. -/
theorem regular_stateElement
    (a : Automaton)
    (s : State) :
    Regular [(stateElement a s).toNode] := by
  have hTags : ["label", "initial", "final"] ⊆ tags := by
    simp [tags]
  have hApart :
      IsName "id" ∧ IsName "name" ∧
        ["id", "name"].Nodup := by
    decide +kernel
  apply regular_of_fields _ _ (children_stateElement a s)
  · intro f hf
    exact isName_of_mem_tags
      (hTags (tag_mem_of_mem_stateFields hf))
  · exact isName_of_mem_tags (by simp [stateElement, tags])
  · simp only [NamesApart, stateElement, List.map_cons,
      List.map_nil, List.forall_mem_cons]
    exact ⟨⟨hApart.1, hApart.2.1, by simp⟩, hApart.2.2⟩

/- The element of a transition is regular. -/
theorem regular_transitionElement
    (t : Transition) :
    Regular [(transitionElement t).toNode] := by
  have hTags :
      ["from", "to", "read", "transout"] ⊆ tags := by
    simp [tags]
  apply regular_of_fields _ namesApart_nil
    (children_transitionElement t)
  · intro f hf
    exact isName_of_mem_tags
      (hTags (tag_mem_of_mem_transitionFields hf))
  · exact isName_of_mem_tags
      (by simp [transitionElement, tags])

/- The document of an automaton is regular. -/
theorem regular_document
    (a : Automaton) :
    (document a).Regular := by
  have hStates :
      Regular (listed "The list of states."
        (a.states.map (stateElement a))) :=
    regular_listed (by decide +kernel)
      (regular_stateElement a) a.states
  have hTransitions :
      Regular (listed "The list of transitions."
        (a.transitions.map transitionElement)) :=
    regular_listed (by decide +kernel)
      regular_transitionElement a.transitions
  have hTag : IsName a.kind.tag := by
    apply isName_of_mem_tags
    cases a.kind <;> simp [TransitionKind.tag, tags]
  simp only [Document.Regular, Element.toNode, document,
    Regular]
  refine ⟨hTag, namesApart_nil,
    Or.inr ⟨regular_append hStates hTransitions, ?_⟩, trivial⟩
  rw [List.any_append, List.any_append,
    any_isComment_listed, any_isComment_listed]
  exact id

/- There are no listed elements inside a state. -/
theorem descendantsByTag_stateElement
    {wanted : String}
    (hWanted : wanted ∉ ["label", "initial", "final"])
    (a : Automaton)
    (s : State) :
    descendantsByTag wanted (stateElement a s).children =
      [] := by
  rw [children_stateElement]
  apply descendantsByTag_ofFields
  intro f hf hEq
  exact hWanted (hEq ▸ tag_mem_of_mem_stateFields hf)

/- There are no listed elements inside a transition. -/
theorem descendantsByTag_transitionElement
    {wanted : String}
    (hWanted : wanted ∉ ["from", "to", "read", "transout"])
    (t : Transition) :
    descendantsByTag wanted (transitionElement t).children =
      [] := by
  rw [children_transitionElement]
  apply descendantsByTag_ofFields
  intro f hf hEq
  exact hWanted (hEq ▸ tag_mem_of_mem_transitionFields hf)

/-
  The elements with a tag in the document of an automaton are
  the states or the transitions it lists.
-/
theorem descendantsByTag_document
    {wanted : String}
    (hState : wanted ∉ ["label", "initial", "final"])
    (hTransition :
      wanted ∉ ["from", "to", "read", "transout"])
    (a : Automaton) :
    (document a).root.descendantsByTag wanted =
      (if "state" = wanted then
        a.states.map (stateElement a)
      else
        []) ++
      if "transition" = wanted then
        a.transitions.map transitionElement
      else
        [] := by
  simp only [Element.descendantsByTag, document]
  rw [descendantsByTag_append,
    descendantsByTag_listed wanted _ "state"
      (fun _ => rfl) (descendantsByTag_stateElement hState a),
    descendantsByTag_listed wanted _ "transition"
      (fun _ => rfl)
      (descendantsByTag_transitionElement hTransition)]

/- The states of a document, in order. -/
theorem states_document
    (a : Automaton) :
    (document a).root.descendantsByTag "state" =
      a.states.map (stateElement a) := by
  rw [descendantsByTag_document (by decide) (by decide)]
  simp

/- The transitions of a document, in order. -/
theorem transitions_document
    (a : Automaton) :
    (document a).root.descendantsByTag "transition" =
      a.transitions.map transitionElement := by
  rw [descendantsByTag_document (by decide) (by decide)]
  simp

end MachineForm

------------------------------------------------------------
-- Grammars
------------------------------------------------------------

namespace GrammarForm

open Node MachineForm

/- The fields of a production: its sides. -/
def productionFields
    (p : Production) : List (String × String) :=
  [("left", p.left), ("right", p.right)]

/- The element of a production holds its fields. -/
theorem children_productionElement
    (p : Production) :
    (productionElement p).children =
      ofFields (productionFields p) :=
  rfl

/- The element of a production is regular. -/
theorem regular_productionElement
    (p : Production) :
    Regular [(productionElement p).toNode] := by
  have hNames :
      IsName "production" ∧ IsName "left" ∧
        IsName "right" := by
    decide +kernel
  apply regular_of_fields hNames.1 namesApart_nil
    (children_productionElement p)
  intro f hf
  simp only [productionFields, List.mem_cons,
    List.not_mem_nil, or_false] at hf
  rcases hf with rfl | rfl
  · exact hNames.2.1
  · exact hNames.2.2

/- The document of a grammar is regular. -/
theorem regular_document
    (g : Grammar) :
    (document g).Regular := by
  have hProductions :
      Regular (listed "The list of productions."
        (g.productions.map productionElement)) :=
    regular_listed (by decide +kernel)
      regular_productionElement g.productions
  have hTag : IsName tag := by decide +kernel
  simp only [Document.Regular, Element.toNode, document,
    Regular]
  refine ⟨hTag, namesApart_nil, Or.inr ⟨hProductions, ?_⟩,
    trivial⟩
  rw [any_isComment_listed]
  exact id

/- The productions of a document, in order. -/
theorem productions_document
    (g : Grammar) :
    (document g).root.descendantsByTag "production" =
      g.productions.map productionElement := by
  have hInner :
      ∀ p, descendantsByTag "production"
        (productionElement p).children = [] := by
    intro p
    rw [children_productionElement]
    apply descendantsByTag_ofFields
    simp [productionFields]
  simp only [Element.descendantsByTag, document]
  rw [descendantsByTag_listed _ _ "production"
    (fun _ => rfl) hInner, if_pos rfl]

end GrammarForm

end AutomataStore
