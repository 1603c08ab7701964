import AutomataStore.Proofs.DocumentParts
import Mathlib

/-
  Changes of a document that decoding tolerates.

  Comments may be put anywhere, and so may elements in which
  no tag is one that decoding asks for.  Text may be put into
  elements whose text is not read.  The children of elements
  that declare something may change places, as long as those
  with the same tag stay in order.  After any number of such
  changes a document is decoded as before, with the same
  result, the same problem and the same notices.

  Key definitions include:
    * `Element.Tolerated`, `Document.Tolerated`
    * `Element.ReadAlike`

  Main declarations:
    * `Element.readAlike_of_tolerated`
    * `Document.decoding_eq_of_tolerated`
-/

------------------------------------------------------------
-- Tolerated Changes
------------------------------------------------------------

namespace AutomataStore

open Document
  (recordTags textTags markTags readTags mem_readTags_iff)
open Markup (Attribute)

/-
  One change inside an element: something new among its
  children, another order of them, or a change in a child.
-/
inductive Element.Tolerated : Element → Element → Prop where
  | comment
      (tag : String)
      (attributes : List Attribute)
      (before after : List Node)
      (content : String) :
      Tolerated
        ⟨tag, attributes, before ++ after⟩
        ⟨tag, attributes, before ++ .comment content :: after⟩
  | aside
      (tag : String)
      (attributes : List Attribute)
      (before after : List Node)
      (e : Element)
      (hUnread : Node.Without readTags [e.toNode]) :
      Tolerated
        ⟨tag, attributes, before ++ after⟩
        ⟨tag, attributes, before ++ e.toNode :: after⟩
  | text
      (tag : String)
      (attributes : List Attribute)
      (before after : List Node)
      (content : String)
      (hTag : tag ∉ textTags) :
      Tolerated
        ⟨tag, attributes, before ++ after⟩
        ⟨tag, attributes, before ++ .text content :: after⟩
  | reorder
      (tag : String)
      (attributes : List Attribute)
      (children children' : List Node)
      (hTag : tag ∈ recordTags)
      (hPlain : Node.Without recordTags children)
      (hPerm : children.Perm children')
      (hOrder :
        ∀ wanted,
          (Node.elements children).filter (·.tag = wanted) =
            (Node.elements children').filter
              (·.tag = wanted)) :
      Tolerated
        ⟨tag, attributes, children⟩
        ⟨tag, attributes, children'⟩
  | inside
      (tag : String)
      (attributes : List Attribute)
      (before after : List Node)
      (e e' : Element)
      (h : Tolerated e e') :
      Tolerated
        ⟨tag, attributes, before ++ e.toNode :: after⟩
        ⟨tag, attributes, before ++ e'.toNode :: after⟩

/- One change somewhere in a document. -/
def Document.Tolerated (d d' : Document) : Prop :=
  d.root.Tolerated d'.root

------------------------------------------------------------
-- Elements That Are Read Alike
------------------------------------------------------------

/-
  Elements in which decoding finds the same: their own text,
  if it is read, their own view and the views of what is
  declared inside them.
-/
structure Element.ReadAlike (e e' : Element) : Prop where
  tag_eq : e.tag = e'.tag
  text_eq : e.tag ∈ textTags → e.text = e'.text
  view_eq : e.view = e'.view
  views_eq :
    ∀ tag ∈ recordTags,
      (e.descendantsByTag tag).map view =
        (e'.descendantsByTag tag).map view

namespace Element

variable {tag : String}
variable {attributes : List Attribute}

theorem ReadAlike.refl
    (e : Element) :
    ReadAlike e e :=
  ⟨rfl, fun _ => rfl, rfl, fun _ _ => rfl⟩

theorem ReadAlike.trans
    {e e' e'' : Element}
    (h : ReadAlike e e')
    (h' : ReadAlike e' e'') :
    ReadAlike e e'' := by
  refine ⟨h.tag_eq.trans h'.tag_eq, ?_,
    h.view_eq.trans h'.view_eq, ?_⟩
  · intro hTag
    have hTag' : e'.tag ∈ textTags := h.tag_eq ▸ hTag
    exact (h.text_eq hTag).trans (h'.text_eq hTag')
  · intro tag hTag
    exact (h.views_eq tag hTag).trans (h'.views_eq tag hTag)

/- The first child with a tag is in the first part it is in. -/
theorem child?_append
    (nodes others : List Node)
    (wanted : String) :
    (Element.mk tag attributes (nodes ++ others)).child?
        wanted =
      ((Element.mk tag attributes nodes).child? wanted).or
        ((Element.mk tag attributes others).child?
          wanted) := by
  simp only [child?, elements, Node.elements_append,
    List.find?_append]

/- Children may be replaced part by part. -/
theorem ReadAlike.append
    {nodes nodes' others others' : List Node}
    (hNodes :
      ReadAlike ⟨tag, attributes, nodes⟩
        ⟨tag, attributes, nodes'⟩)
    (hOthers :
      ReadAlike ⟨tag, attributes, others⟩
        ⟨tag, attributes, others'⟩) :
    ReadAlike ⟨tag, attributes, nodes ++ others⟩
      ⟨tag, attributes, nodes' ++ others'⟩ := by
  rcases hNodes with ⟨_, hText, hView, hViews⟩
  rcases hOthers with ⟨_, hText', hView', hViews'⟩
  refine ⟨rfl, ?_, ?_, ?_⟩
  · intro hTag
    have hFirst : Node.textOf nodes = Node.textOf nodes' :=
      hText hTag
    have hSecond : Node.textOf others = Node.textOf others' :=
      hText' hTag
    simp only [text, Node.textOf_append, hFirst, hSecond]
  · rw [view_eq_view_iff] at hView hView' ⊢
    rcases hView with ⟨_, hTexts, hMarks⟩
    rcases hView' with ⟨_, hTexts', hMarks'⟩
    refine ⟨rfl, ?_, ?_⟩
    · intro wanted hWanted
      have hFirst := hTexts wanted hWanted
      have hSecond := hTexts' wanted hWanted
      unfold MachineForm.childText? at hFirst hSecond ⊢
      rw [child?_append, child?_append, Option.map_or,
        Option.map_or, hFirst, hSecond]
    · intro wanted hWanted
      rw [child?_append, child?_append, Option.isSome_or,
        Option.isSome_or, hMarks wanted hWanted,
        hMarks' wanted hWanted]
  · intro wanted hWanted
    have hFirst := hViews wanted hWanted
    have hSecond := hViews' wanted hWanted
    simp only [descendantsByTag] at hFirst hSecond ⊢
    rw [Node.descendantsByTag_append,
      Node.descendantsByTag_append, List.map_append,
      List.map_append, hFirst, hSecond]

/- A part of the children may be replaced amid the others. -/
theorem ReadAlike.surround
    {nodes nodes' : List Node}
    (h :
      ReadAlike ⟨tag, attributes, nodes⟩
        ⟨tag, attributes, nodes'⟩)
    (before after : List Node) :
    ReadAlike ⟨tag, attributes, before ++ nodes ++ after⟩
      ⟨tag, attributes, before ++ nodes' ++ after⟩ :=
  ((ReadAlike.refl _).append h).append (ReadAlike.refl _)

/-
  A node in which no tag is read counts as nothing, unless it
  is text that is read.
-/
theorem readAlike_unread
    {n : Node}
    (hText : tag ∈ textTags → Node.textOf [n] = "")
    (hUnread : Node.Without readTags [n]) :
    ReadAlike ⟨tag, attributes, []⟩
      ⟨tag, attributes, [n]⟩ := by
  have hChild :
      ∀ wanted ∈ readTags,
        (Element.mk tag attributes [n]).child? wanted =
          none := by
    intro wanted hWanted
    rw [child?, List.find?_eq_none]
    intro e he hTag
    have hApart := Node.tag_not_mem_of_without hUnread e he
    rw [of_decide_eq_true hTag] at hApart
    exact hApart hWanted
  have hNone :
      ∀ wanted,
        (Element.mk tag attributes []).child? wanted =
          none :=
    fun _ => rfl
  refine ⟨rfl, fun hTag => (hText hTag).symm, ?_, ?_⟩
  · rw [view_eq_view_iff]
    refine ⟨rfl, ?_, ?_⟩
    · intro wanted hWanted
      have hRead := mem_readTags_iff.mpr
        (Or.inr (Or.inl hWanted))
      rw [MachineForm.childText?, MachineForm.childText?,
        hChild wanted hRead, hNone wanted]
    · intro wanted hWanted
      have hRead := mem_readTags_iff.mpr
        (Or.inr (Or.inr hWanted))
      rw [hChild wanted hRead, hNone wanted]
  · intro wanted hWanted
    have hRead := mem_readTags_iff.mpr (Or.inl hWanted)
    rw [descendantsByTag, descendantsByTag,
      Node.descendantsByTag_of_without hRead hUnread,
      Node.descendantsByTag_nil]

/- A child may give way to one that is read alike. -/
theorem ReadAlike.asChild
    {e e' : Element}
    (h : ReadAlike e e') :
    ReadAlike ⟨tag, attributes, [e.toNode]⟩
      ⟨tag, attributes, [e'.toNode]⟩ := by
  have hChild :
      ∀ (d : Element) (wanted : String),
        (Element.mk tag attributes [d.toNode]).child? wanted =
          if d.tag = wanted then some d else none := by
    intro d wanted
    rw [child?, elements, Node.elements_toNode_cons,
      Node.elements, List.find?_singleton]
    simp only [decide_eq_true_eq]
  refine ⟨rfl, ?_, ?_, ?_⟩
  · intro _
    simp [text, toNode, Node.textOf]
  · rw [view_eq_view_iff]
    refine ⟨rfl, ?_, ?_⟩
    · intro wanted hWanted
      rw [MachineForm.childText?, MachineForm.childText?,
        hChild, hChild, ← h.tag_eq]
      by_cases hTag : e.tag = wanted
      · have hText := h.text_eq (hTag ▸ hWanted)
        simp only [if_pos hTag, Option.map_some, hText]
      · rw [if_neg hTag, if_neg hTag]
    · intro wanted _
      rw [hChild, hChild, ← h.tag_eq]
      split <;> rfl
  · intro wanted hWanted
    have hInner := h.views_eq wanted hWanted
    simp only [descendantsByTag] at hInner ⊢
    rw [Node.descendantsByTag_toNode_cons,
      Node.descendantsByTag_toNode_cons, ← h.tag_eq,
      List.map_append, List.map_append, List.map_append,
      List.map_append, hInner]
    by_cases hTag : e.tag = wanted
    · simp only [if_pos hTag, List.map_cons, h.view_eq]
    · rw [if_neg hTag, if_neg hTag]

/- The children of a declaration may change places. -/
theorem readAlike_reorder
    {children children' : List Node}
    (hTag : tag ∈ recordTags)
    (hPlain : Node.Without recordTags children)
    (hPerm : children.Perm children')
    (hOrder :
      ∀ wanted,
        (Node.elements children).filter (·.tag = wanted) =
          (Node.elements children').filter
            (·.tag = wanted)) :
    ReadAlike
      ⟨tag, attributes, children⟩
      ⟨tag, attributes, children'⟩ := by
  have hPlain' : Node.Without recordTags children' := by
    rw [Node.without_iff_forall] at hPlain ⊢
    intro n hn
    exact hPlain n (hPerm.mem_iff.mpr hn)
  have hChild :
      ∀ wanted,
        (Element.mk tag attributes children).child? wanted =
          (Element.mk tag attributes children').child?
            wanted := by
    intro wanted
    have hHead := congrArg List.head? (hOrder wanted)
    simpa only [child?, elements, List.head?_filter] using
      hHead
  refine ⟨rfl, ?_, ?_, ?_⟩
  · -- The text of an element that declares is not read.
    intro hText
    have hApart : ∀ t ∈ recordTags, t ∉ textTags := by decide
    exact absurd hText (hApart tag hTag)
  · rw [view_eq_view_iff]
    simp only [MachineForm.childText?, hChild, implies_true,
      and_self]
  · intro wanted hWanted
    rw [descendantsByTag, descendantsByTag,
      Node.descendantsByTag_of_without hWanted hPlain,
      Node.descendantsByTag_of_without hWanted hPlain']

/- A tolerated change leaves alike what is read. -/
theorem readAlike_of_tolerated
    {e e' : Element}
    (h : e.Tolerated e') :
    e.ReadAlike e' := by
  -- What is put in is compared with nothing at all, then
  -- the children around it are added on both sides.
  induction h with
  | comment tag attributes before after content =>
      have hAlone :
          ReadAlike ⟨tag, attributes, []⟩
            ⟨tag, attributes, [.comment content]⟩ :=
        readAlike_unread (fun _ => by simp [Node.textOf])
          (by simp [Node.Without])
      simpa using hAlone.surround before after
  | aside tag attributes before after e hUnread =>
      have hAlone :
          ReadAlike ⟨tag, attributes, []⟩
            ⟨tag, attributes, [e.toNode]⟩ :=
        readAlike_unread
          (fun _ => by simp [Node.textOf, toNode]) hUnread
      simpa using hAlone.surround before after
  | text tag attributes before after content hTag =>
      have hAlone :
          ReadAlike ⟨tag, attributes, []⟩
            ⟨tag, attributes, [.text content]⟩ :=
        readAlike_unread (fun hText => absurd hText hTag)
          (by simp [Node.Without])
      simpa using hAlone.surround before after
  | reorder tag attributes children children' hTag hPlain
      hPerm hOrder =>
      exact readAlike_reorder hTag hPlain hPerm hOrder
  | inside tag attributes before after e e' _ ih =>
      simpa using ih.asChild.surround before after

end Element

------------------------------------------------------------
-- Documents
------------------------------------------------------------

namespace Document

/- After any number of changes the root is read alike. -/
theorem readAlike_of_run
    {d d' : Document}
    (h : Relation.ReflTransGen Document.Tolerated d d') :
    d.root.ReadAlike d'.root := by
  induction h with
  | refl => exact Element.ReadAlike.refl _
  | tail _ hStep ih =>
      exact ih.trans (Element.readAlike_of_tolerated hStep)

/- Documents whose roots are read alike have one type. -/
theorem typeTag_of_readAlike
    {d d' : Document}
    (h : d.root.ReadAlike d'.root) :
    d.typeTag = d'.typeTag := by
  have hViews := h.view_eq
  rw [Element.view_eq_view_iff] at hViews
  have hType := hViews.2.1 "type" (by decide)
  rw [typeTag_eq, typeTag_eq, h.tag_eq, hType]

/-
  After any number of tolerated changes each transducer reads
  the same from a document, or has the same problem with it,
  and each registry chooses the same transducer for it.
-/
theorem decoding_eq_of_tolerated
    {d d' : Document}
    (h : Relation.ReflTransGen Document.Tolerated d d') :
    (∀ t : Transducer, t.ofDocument d' = t.ofDocument d) ∧
      ∀ r : Registry, r.forDocument d' = r.forDocument d := by
  have hAlike := readAlike_of_run h
  refine ⟨?_, ?_⟩
  · intro t
    exact (Form.read_of_views hAlike.views_eq t.form).symm
  · intro r
    simp only [Registry.forDocument,
      typeTag_of_readAlike hAlike]

/- A document with one state that has some children. -/
def oneState (children : List Node) : Document :=
  ⟨{ tag := "fa"
     children :=
       [.element "state" [⟨"id", "0"⟩] children] }⟩

/- Changes inside the state are changes of the document. -/
theorem tolerated_oneState
    {children children' : List Node}
    (h :
      Element.Tolerated
        ⟨"state", [⟨"id", "0"⟩], children⟩
        ⟨"state", [⟨"id", "0"⟩], children'⟩) :
    Document.Tolerated (oneState children)
      (oneState children') :=
  .inside "fa" [] [] [] _ _ h

/-
  A mark goes to the front, then come a gap, a comment and an
  element that means nothing here.
-/
theorem decoding_eq_oneState :
    Relation.ReflTransGen Document.Tolerated
        (oneState
          [.element "label" [] [.text "off"],
           .element "initial" [] []])
        (oneState
          [.element "initial" [] [], .text "\n",
           .comment "at night",
           .element "label" []
             [.element "b" [] [.text "on"],
              .text "off"]]) ∧
      ((Transducer.ofForm (.automaton .finite)).ofDocument
          (oneState
            [.element "initial" [] [], .text "\n",
             .comment "at night",
             .element "label" []
               [.element "b" [] [.text "on"],
                .text "off"]])).outcome =
        .ok (.automaton
          { kind := .finite
            states := [⟨⟨0⟩, "q0", some "off"⟩]
            initial := some ⟨0⟩ }) := by
  have hReorder :
      Document.Tolerated
        (oneState
          [.element "label" [] [.text "off"],
           .element "initial" [] []])
        (oneState
          [.element "initial" [] [],
           .element "label" [] [.text "off"]]) := by
    apply tolerated_oneState
    apply Element.Tolerated.reorder _ _ _ _ (by decide)
    · simp [Node.Without, recordTags]
    · exact List.Perm.swap ..
    · intro wanted
      by_cases hLabel : "label" = wanted
      · subst hLabel
        simp [Node.elements]
      · simp [Node.elements, List.filter_cons, hLabel]
  have hGap :
      Document.Tolerated
        (oneState
          [.element "initial" [] [],
           .element "label" [] [.text "off"]])
        (oneState
          [.element "initial" [] [], .text "\n",
           .element "label" [] [.text "off"]]) :=
    tolerated_oneState
      (.text "state" _ [.element "initial" [] []] _ "\n"
        (by decide))
  have hComment :
      Document.Tolerated
        (oneState
          [.element "initial" [] [], .text "\n",
           .element "label" [] [.text "off"]])
        (oneState
          [.element "initial" [] [], .text "\n",
           .comment "at night",
           .element "label" [] [.text "off"]]) :=
    tolerated_oneState
      (.comment "state" _
        [.element "initial" [] [], .text "\n"] _ "at night")
  have hAside :
      Document.Tolerated
        (oneState
          [.element "initial" [] [], .text "\n",
           .comment "at night",
           .element "label" [] [.text "off"]])
        (oneState
          [.element "initial" [] [], .text "\n",
           .comment "at night",
           .element "label" []
             [.element "b" [] [.text "on"],
              .text "off"]]) :=
    tolerated_oneState
      (.inside "state" _
        [.element "initial" [] [], .text "\n",
         .comment "at night"] [] _ _
        (.aside "label" [] [] [.text "off"]
          ⟨"b", [], [.text "on"]⟩
          (by simp [Element.toNode, Node.Without, readTags,
            recordTags, textTags, markTags])))
  have hRun :=
    Relation.ReflTransGen.head hReorder
      (.head hGap (.head hComment (.single hAside)))
  have hTidy :
      ((Transducer.ofForm (.automaton .finite)).ofDocument
          (oneState
            [.element "label" [] [.text "off"],
             .element "initial" [] []])).outcome =
        .ok (.automaton
          { kind := .finite
            states := [⟨⟨0⟩, "q0", some "off"⟩]
            initial := some ⟨0⟩ }) := by
    cbv
  refine ⟨hRun, ?_⟩
  rw [(decoding_eq_of_tolerated hRun).1]
  exact hTidy

end Document

end AutomataStore
