import AutomataStore.Proofs.DocumentParts
import Mathlib

/-
  The wrapped layout.

  A document may stand wrapped in an element `structure`: its
  root tag as the text of the first `type` element, and what
  is in its root under any elements that declare nothing.
  Both layouts choose the same transducer and are decoded
  alike.

  Key definitions include:
    * `Text.IsTrimmed`
    * `Node.Wraps`
    * `Document.WrappedAs`

  Main declarations:
    * `Text.trim_surrounded`
    * `Node.descendantsByTag_of_wraps`
    * `Document.decoding_eq_of_wrappedAs`
-/

------------------------------------------------------------
-- Trimmed Texts
------------------------------------------------------------

namespace AutomataStore

open Document (recordTags)
open Markup (Attribute)

namespace Text

/- No blank stands at the start of a text or at its end. -/
def IsTrimmed (s : String) : Prop :=
  (∀ c ∈ s.toList.head?, isBlank c = false) ∧
    ∀ c ∈ s.toList.getLast?, isBlank c = false

/- Blanks are dropped up to a character that is not blank. -/
theorem dropWhile_isBlank_append
    {blanks cs : List Char}
    (hBlanks : ∀ c ∈ blanks, isBlank c = true)
    (hHead : ∀ c ∈ cs.head?, isBlank c = false) :
    (blanks ++ cs).dropWhile isBlank = cs := by
  rw [List.dropWhile_append_of_pos hBlanks]
  cases cs with
  | nil => rfl
  | cons c cs => simp [hHead c rfl]

/- Trimming takes away the blanks around a trimmed text. -/
theorem trim_surrounded
    {left s right : String}
    (hLeft : IsBlankText left)
    (hTrimmed : IsTrimmed s)
    (hRight : IsBlankText right) :
    trim (left ++ s ++ right) = s := by
  rcases hTrimmed with ⟨hFirst, hLast⟩
  by_cases hEmpty : s = ""
  · -- Nothing stops the blanks here: they are one blank text.
    subst hEmpty
    rw [← isBlankText_iff_trim_eq_empty]
    intro c hc
    simp only [String.toList_append, List.mem_append] at hc
    rcases hc with (hc | hc) | hc
    · exact hLeft c hc
    · simp at hc
    · exact hRight c hc
  · have hSome : s.toList ≠ [] := by simpa using hEmpty
    have hStart :
        ∀ c ∈ (s.toList ++ right.toList).head?,
          isBlank c = false := by
      rcases List.exists_cons_of_ne_nil hSome with
        ⟨first, others, hCons⟩
      simpa [hCons] using hFirst
    have hEnd :
        ∀ c ∈ s.toList.reverse.head?, isBlank c = false := by
      rw [List.head?_reverse]
      exact hLast
    have hBlanks :
        ∀ c ∈ right.toList.reverse, isBlank c = true :=
      fun c hc => hRight c (List.mem_reverse.mp hc)
    rw [trim, trimChars, String.toList_append,
      String.toList_append, List.append_assoc,
      dropWhile_isBlank_append hLeft hStart,
      List.reverse_append,
      dropWhile_isBlank_append hBlanks hEnd,
      List.reverse_reverse, String.ofList_toList]

end Text

------------------------------------------------------------
-- Wrapped Forests
------------------------------------------------------------

namespace Node

/-
  The second forest holds the nodes of the first, in order,
  under any number of elements that declare nothing and
  beside nodes that declare nothing.
-/
inductive Wraps : List Node → List Node → Prop where
  | bare (nodes : List Node) :
      Wraps nodes nodes
  | aside
      (extra : List Node)
      (hPlain : Without recordTags extra) :
      Wraps [] extra
  | wrap
      (e : Element)
      (nodes : List Node)
      (hTag : e.tag ∉ recordTags)
      (h : Wraps nodes e.children) :
      Wraps nodes [e.toNode]
  | append
      (nodes others inner outer : List Node)
      (h : Wraps nodes inner)
      (h' : Wraps others outer) :
      Wraps (nodes ++ others) (inner ++ outer)

/- Wrapping keeps the elements that declare something. -/
theorem descendantsByTag_of_wraps
    {wanted : String}
    {nodes forest : List Node}
    (hWanted : wanted ∈ recordTags)
    (h : Wraps nodes forest) :
    descendantsByTag wanted forest =
      descendantsByTag wanted nodes := by
  induction h with
  | bare nodes => rfl
  | aside extra hPlain =>
      rw [descendantsByTag_of_without hWanted hPlain,
        descendantsByTag_nil]
  | wrap e nodes hTag _ ih =>
      have hOther : e.tag ≠ wanted := by
        rintro rfl
        exact hTag hWanted
      rw [descendantsByTag_toNode_cons, if_neg hOther, ih]
      simp
  | append nodes others inner outer _ _ ih ih' =>
      rw [descendantsByTag_append, descendantsByTag_append,
        ih, ih']

end Node

------------------------------------------------------------
-- Wrapped Documents
------------------------------------------------------------

namespace Document

/-
  The second document is the first one in the wrapped layout.
  Before the element that gives the type, and inside it, there
  may be anything that declares nothing.
-/
inductive WrappedAs (d : Document) : Document → Prop where
  | intro
      (attributes : List Attribute)
      (before after : List Node)
      (e : Element)
      (left right : String)
      (hType : e.tag = "type")
      (hFirst :
        ∀ e' ∈ Node.elements before, e'.tag ≠ "type")
      (hBefore : Node.Without recordTags before)
      (hInside : Node.Without recordTags e.children)
      (hLeft : Text.IsBlankText left)
      (hRight : Text.IsBlankText right)
      (hText : e.text = left ++ d.root.tag ++ right)
      (hAfter : Node.Wraps d.root.children after) :
      WrappedAs d
        ⟨⟨"structure", attributes,
          before ++ e.toNode :: after⟩⟩

/- A wrapped document has the type of what it wraps. -/
theorem typeTag_of_wrappedAs
    {d w : Document}
    (hTrimmed : Text.IsTrimmed d.root.tag)
    (h : d.WrappedAs w) :
    w.typeTag = d.root.tag := by
  cases h with
  | intro attributes before after e left right hType hFirst
      hBefore hInside hLeft hRight hText hAfter =>
      have hNone :
          (Node.elements before).find? (·.tag = "type") =
            none := by
        simpa [List.find?_eq_none] using hFirst
      have hChild :
          (Element.mk "structure" attributes
            (before ++ e.toNode :: after)).child? "type" =
              some e := by
        rw [Element.child?, Element.elements,
          Node.elements_append, Node.elements_toNode_cons,
          List.find?_append, hNone, List.find?_cons_of_pos
            (by simpa using hType)]
        rfl
      simp only [typeTag, hChild, hText, if_pos]
      exact Text.trim_surrounded hLeft hTrimmed hRight

/- A wrapped document declares what the bare one declares. -/
theorem descendantsByTag_of_wrappedAs
    {d w : Document}
    {wanted : String}
    (hWanted : wanted ∈ recordTags)
    (h : d.WrappedAs w) :
    w.root.descendantsByTag wanted =
      d.root.descendantsByTag wanted := by
  cases h with
  | intro attributes before after e left right hType hFirst
      hBefore hInside hLeft hRight hText hAfter =>
      have hOther : e.tag ≠ wanted := by
        rw [hType]
        rintro rfl
        exact absurd hWanted (by decide)
      simp only [Element.descendantsByTag]
      rw [Node.descendantsByTag_append,
        Node.descendantsByTag_toNode_cons, if_neg hOther,
        Node.descendantsByTag_of_without hWanted hBefore,
        Node.descendantsByTag_of_without hWanted hInside,
        Node.descendantsByTag_of_wraps hWanted hAfter]
      simp

/-
  A document and the same one in the wrapped layout have the
  same transducer in every registry, or none for the root tag,
  and every transducer reads the same from both or has the
  same problem.
-/
theorem decoding_eq_of_wrappedAs
    {d w : Document}
    (hTag : d.root.tag ≠ "structure")
    (hTrimmed : Text.IsTrimmed d.root.tag)
    (h : d.WrappedAs w) :
    (∀ r : Registry,
      r.forDocument w = r.forDocument d ∧
        ((∃ t, r.ofTag? d.root.tag = some t ∧
            (r.forDocument d).outcome = .ok t) ∨
          (r.ofTag? d.root.tag = none ∧
            (r.forDocument d).outcome =
              .error (.unsupportedFormat d.root.tag)))) ∧
      ∀ t : Transducer, t.ofDocument w = t.ofDocument d := by
  have hDirect : d.typeTag = d.root.tag := by
    rw [typeTag_eq, if_neg hTag]
  have hWrapped := typeTag_of_wrappedAs hTrimmed h
  refine ⟨?_, ?_⟩
  · intro r
    refine ⟨?_, ?_⟩
    · simp only [Registry.forDocument, hWrapped, hDirect]
    · simp only [Registry.forDocument, hDirect]
      cases hFound : r.ofTag? d.root.tag with
      | none => exact Or.inr ⟨rfl, rfl⟩
      | some t => exact Or.inl ⟨t, rfl, rfl⟩
  · intro t
    apply Form.read_of_views
    intro wanted hWanted
    rw [descendantsByTag_of_wrappedAs hWanted h]

/- Two states with a transition between them. -/
def lamp : Document :=
  ⟨{ tag := "fa"
     children :=
       [.element "state" [⟨"id", "0"⟩]
          [.element "initial" [] []],
        .element "state" [⟨"id", "1"⟩] [],
        .element "transition" []
          [.element "from" [] [.text "0"],
           .element "to" [] [.text "1"],
           .element "read" [] [.text "a"]]] }⟩

/- The same states and transition two elements deeper. -/
def wrappedLamp : Document :=
  ⟨{ tag := "structure"
     children :=
       [.comment "saved",
        .element "type" [] [.text "\n fa "],
        .element "automaton" []
          [.text "\n",
           .element "type" [] lamp.root.children]] }⟩

/- The automaton that both of them hold. -/
def lampAutomaton : Automaton where
  kind := .finite
  states := [⟨⟨0⟩, "q0", none⟩, ⟨⟨1⟩, "q1", none⟩]
  transitions := [⟨⟨0⟩, ⟨1⟩, .finite "a"⟩]
  initial := some ⟨0⟩

/- Both are decoded alike. -/
theorem decoding_eq_wrappedLamp :
    lamp.root.tag ≠ "structure" ∧
      Text.IsTrimmed lamp.root.tag ∧
      lamp.WrappedAs wrappedLamp ∧
      (∀ r : Registry,
        r.forDocument wrappedLamp = r.forDocument lamp) ∧
      ((Transducer.ofForm (.automaton .finite)).ofDocument
          wrappedLamp).outcome =
        .ok (.automaton lampAutomaton) := by
  have hTag : lamp.root.tag ≠ "structure" := by decide
  have hTrimmed : Text.IsTrimmed lamp.root.tag := by
    have hFirst : Text.isBlank 'f' = false := by decide
    have hLast : Text.isBlank 'a' = false := by decide
    simp [Text.IsTrimmed, lamp, hFirst, hLast]
  have hInner :
      Node.Wraps lamp.root.children
        [.text "\n",
         .element "type" [] lamp.root.children] :=
    .append [] lamp.root.children [.text "\n"] _
      (.aside _ (by simp [Node.Without]))
      (.wrap ⟨"type", [], lamp.root.children⟩ _ (by decide)
        (.bare _))
  have hWrapped : lamp.WrappedAs wrappedLamp :=
    .intro [] [.comment "saved"] _
      ⟨"type", [], [.text "\n fa "]⟩ "\n " " " rfl
      (by simp [Node.elements]) (by simp [Node.Without])
      (by simp [Node.Without]) (by decide +kernel)
      (by decide +kernel) (by decide +kernel)
      (.wrap
        ⟨"automaton", [],
          [.text "\n",
           .element "type" [] lamp.root.children]⟩ _
        (by decide) hInner)
  have hBare :
      ((Transducer.ofForm (.automaton .finite)).ofDocument
          lamp).outcome =
        .ok (.automaton lampAutomaton) := by
    cbv
  have hSame :=
    decoding_eq_of_wrappedAs hTag hTrimmed hWrapped
  refine ⟨hTag, hTrimmed, hWrapped,
    fun r => (hSame.1 r).1, ?_⟩
  rw [hSame.2]
  exact hBare

end Document

end AutomataStore
