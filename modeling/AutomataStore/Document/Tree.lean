import AutomataStore.Markup.Attribute
import AutomataStore.Text.Blank

/-
  Document trees.

  A document is one root element.  An element has a tag,
  attributes and a forest of child nodes, all in order.
  Functions on trees recurse on forests: the first node's
  own children, then the nodes after it.

  Key definitions include:
    * `Node`, `Element`, `Document`
    * `Element.child?`, `Element.childrenByTag`
    * `Element.descendantsByTag`
    * `Element.text`
    * `Element.normalize`

  Correctness is proven by:
    * `Node.forestInduction`
    * `Node.descendantsBefore_eq`
    * `Element.normalize_normalize`
-/

------------------------------------------------------------
-- Nodes
------------------------------------------------------------

namespace AutomataStore

open Markup (Attribute)

/- A child of an element. -/
inductive Node where
  | element
      (tag : String)
      (attributes : List Attribute)
      (children : List Node)
  | text (content : String)
  | comment (content : String)
deriving Inhabited, Repr

namespace Node

/-
  A property of forests holds of all when each kind of first
  node keeps it, an element also from its own children.
-/
@[elab_as_elim]
theorem forestInduction
    {motive : List Node → Prop}
    (nil : motive [])
    (element :
      ∀ tag attributes children rest,
        motive children → motive rest →
          motive (.element tag attributes children :: rest))
    (text :
      ∀ content rest,
        motive rest → motive (.text content :: rest))
    (comment :
      ∀ content rest,
        motive rest → motive (.comment content :: rest)) :
    ∀ nodes, motive nodes
  | [] => nil
  | .element tag attributes children :: rest =>
      element tag attributes children rest
        (forestInduction nil element text comment children)
        (forestInduction nil element text comment rest)
  | .text content :: rest =>
      text content rest
        (forestInduction nil element text comment rest)
  | .comment content :: rest =>
      comment content rest
        (forestInduction nil element text comment rest)

/- Whether two forests are the same. -/
def sameForest : List Node → List Node → Bool
  | [], [] => true
  | .element tag attributes children :: rest,
    .element tag' attributes' children' :: rest' =>
      tag == tag' && attributes == attributes' &&
        sameForest children children' &&
        sameForest rest rest'
  | .text content :: rest, .text content' :: rest' =>
      content == content' && sameForest rest rest'
  | .comment content :: rest,
    .comment content' :: rest' =>
      content == content' && sameForest rest rest'
  | _, _ => false

/- The comparison of forests decides equality. -/
theorem sameForest_iff
    (ns ms : List Node) :
    sameForest ns ms = true ↔ ns = ms := by
  induction ns using forestInduction generalizing ms with
  | nil =>
      cases ms with
      | nil => simp [sameForest]
      | cons m ms => cases m <;> simp [sameForest]
  | element tag attributes children rest ihChildren ihRest =>
      cases ms with
      | nil => simp [sameForest]
      | cons m ms =>
          cases m <;>
            simp [sameForest, ihChildren, ihRest, and_assoc]
  | text content rest ih =>
      cases ms with
      | nil => simp [sameForest]
      | cons m ms => cases m <;> simp [sameForest, ih]
  | comment content rest ih =>
      cases ms with
      | nil => simp [sameForest]
      | cons m ms => cases m <;> simp [sameForest, ih]

instance : DecidableEq Node := fun n m =>
  decidable_of_iff (sameForest [n] [m] = true) (by
    rw [sameForest_iff]
    simp)

/- Whether a node is an element. -/
def isElement : Node → Bool
  | .element _ _ _ => true
  | _ => false

/- Whether a node is text. -/
def isText : Node → Bool
  | .text _ => true
  | _ => false

/- Whether a node is text without a visible character. -/
def isBlankText : Node → Bool
  | .text content => decide (Text.IsBlankText content)
  | _ => false

@[simp]
theorem isBlankText_element
    (tag : String)
    (attributes : List Attribute)
    (children : List Node) :
    (Node.element tag attributes children).isBlankText =
      false :=
  rfl

@[simp]
theorem isBlankText_text
    (content : String) :
    (Node.text content).isBlankText =
      decide (Text.IsBlankText content) :=
  rfl

@[simp]
theorem isBlankText_comment
    (content : String) :
    (Node.comment content).isBlankText = false :=
  rfl

/- Leave blank text out of a forest that holds an element. -/
def dropGaps (nodes : List Node) : List Node :=
  if nodes.any isElement then
    nodes.filter fun n => !n.isBlankText
  else
    nodes

/- Leave out the gaps inside every element of a forest. -/
def normalizeInside : List Node → List Node
  | [] => []
  | .element tag attributes children :: rest =>
      .element tag attributes
          (dropGaps (normalizeInside children)) ::
        normalizeInside rest
  | .text content :: rest =>
      .text content :: normalizeInside rest
  | .comment content :: rest =>
      .comment content :: normalizeInside rest

/- Normalizing inside keeps which nodes are elements. -/
theorem any_isElement_normalizeInside
    (nodes : List Node) :
    (normalizeInside nodes).any isElement =
      nodes.any isElement := by
  fun_induction normalizeInside nodes <;>
    simp_all [isElement]

/- Blank text is left out before or after the inside. -/
theorem filter_normalizeInside
    (nodes : List Node) :
    (normalizeInside nodes).filter (fun n => !n.isBlankText) =
      normalizeInside
        (nodes.filter fun n => !n.isBlankText) := by
  induction nodes using forestInduction with
  | nil => simp [normalizeInside]
  | element tag attributes children rest _ ih =>
      simp [normalizeInside, ih]
  | text content rest ih =>
      by_cases h : Text.IsBlankText content <;>
        simp [normalizeInside, h, ih]
  | comment content rest ih =>
      simp [normalizeInside, ih]

/- Gaps are left out before or after normalizing inside. -/
theorem dropGaps_normalizeInside
    (nodes : List Node) :
    dropGaps (normalizeInside nodes) =
      normalizeInside (dropGaps nodes) := by
  unfold dropGaps
  rw [any_isElement_normalizeInside]
  split
  · exact filter_normalizeInside nodes
  · rfl

/- A forest without gaps has none to leave out. -/
theorem dropGaps_dropGaps
    (nodes : List Node) :
    dropGaps (dropGaps nodes) = dropGaps nodes := by
  unfold dropGaps
  split
  · split
    · rw [List.filter_filter]
      simp
    · rfl
  · rfl

/- Normalizing inside a second time changes nothing. -/
theorem normalizeInside_normalizeInside
    (nodes : List Node) :
    normalizeInside (normalizeInside nodes) =
      normalizeInside nodes := by
  induction nodes using forestInduction with
  | nil => simp [normalizeInside]
  | element tag attributes children rest ihChildren ihRest =>
      simp only [normalizeInside]
      rw [← dropGaps_normalizeInside, ihChildren,
        dropGaps_dropGaps, ihRest]
  | text content rest ih => simp [normalizeInside, ih]
  | comment content rest ih => simp [normalizeInside, ih]

end Node

------------------------------------------------------------
-- Elements
------------------------------------------------------------

/- A tag with attributes and child nodes, in order. -/
structure Element where
  tag : String
  attributes : List Attribute := []
  children : List Node := []
deriving DecidableEq, Inhabited, Repr

/- An element as the child of another one. -/
def Element.toNode (e : Element) : Node :=
  .element e.tag e.attributes e.children

namespace Node

/- The elements of a forest, without those inside them. -/
def elements : List Node → List Element
  | [] => []
  | .element tag attributes children :: rest =>
      ⟨tag, attributes, children⟩ :: elements rest
  | _ :: rest => elements rest

/-
  The elements with a tag at any depth of a forest, each one
  before those inside it, and all before some that come after
  the forest.
-/
def descendantsBefore
    (wanted : String)
    (after : List Element) : List Node → List Element
  | [] => after
  | .element tag attributes children :: rest =>
      let behind := descendantsBefore wanted after rest
      let inner := descendantsBefore wanted behind children
      if tag = wanted then
        ⟨tag, attributes, children⟩ :: inner
      else
        inner
  | .text _ :: rest => descendantsBefore wanted after rest
  | .comment _ :: rest => descendantsBefore wanted after rest

/- The elements with a tag at any depth of a forest. -/
def descendantsByTag
    (wanted : String)
    (nodes : List Node) : List Element :=
  descendantsBefore wanted [] nodes

/- What comes after a forest does not change what is in it. -/
theorem descendantsBefore_eq
    (wanted : String)
    (after : List Element)
    (nodes : List Node) :
    descendantsBefore wanted after nodes =
      descendantsByTag wanted nodes ++ after := by
  unfold descendantsByTag
  induction nodes using forestInduction generalizing after with
  | nil => simp [descendantsBefore]
  | element tag attributes children rest ihInner ihRest =>
      simp only [descendantsBefore]
      rw [ihInner, ihInner (descendantsBefore wanted [] rest),
        ihRest]
      split <;> simp
  | text content rest ih =>
      simp only [descendantsBefore]
      exact ih after
  | comment content rest ih =>
      simp only [descendantsBefore]
      exact ih after

/- The text nodes of a forest in one piece. -/
def textOf : List Node → String
  | [] => ""
  | .text content :: rest => content ++ textOf rest
  | _ :: rest => textOf rest

end Node

namespace Element

/-
  An element holding a text.  For the empty text it has no
  children and still reads back as the empty text.
-/
def withText (tag text : String) : Element :=
  { tag, children := if text = "" then [] else [.text text] }

/- Add an attribute after the others. -/
def withAttribute
    (e : Element)
    (name value : String) : Element :=
  { e with attributes := e.attributes ++ [⟨name, value⟩] }

/- Add a child after the others. -/
def append (e : Element) (n : Node) : Element :=
  { e with children := e.children ++ [n] }

/- The value of the first attribute with a name. -/
def attribute? (e : Element) (name : String) : Option String :=
  (e.attributes.find? fun a => a.name = name).map (·.value)

/- The child elements, in order. -/
def elements (e : Element) : List Element :=
  Node.elements e.children

/- The child elements with a tag, in order. -/
def childrenByTag (e : Element) (tag : String) : List Element :=
  e.elements.filter fun c => c.tag = tag

/- The first child element with a tag. -/
def child? (e : Element) (tag : String) : Option Element :=
  e.elements.find? fun c => c.tag = tag

/- All elements with a tag inside an element, itself left out. -/
def descendantsByTag
    (e : Element)
    (tag : String) : List Element :=
  Node.descendantsByTag tag e.children

/- The text directly inside an element. -/
def text (e : Element) : String :=
  Node.textOf e.children

/- Whether some child is an element. -/
def hasElements (e : Element) : Bool :=
  e.children.any Node.isElement

/- Leave out blank text beside the child elements. -/
def dropGaps (e : Element) : Element :=
  { e with children := Node.dropGaps e.children }

/-
  Leave out blank text beside elements, at every depth.  An
  element that holds only text keeps it.
-/
def normalize (e : Element) : Element :=
  { e with children :=
      Node.dropGaps (Node.normalizeInside e.children) }

/- Normalizing a second time changes nothing. -/
theorem normalize_normalize
    (e : Element) :
    e.normalize.normalize = e.normalize := by
  simp only [normalize]
  rw [← Node.dropGaps_normalizeInside,
    Node.normalizeInside_normalizeInside,
    Node.dropGaps_dropGaps]

end Element

------------------------------------------------------------
-- Documents
------------------------------------------------------------

/- A document: one root element. -/
structure Document where
  root : Element
deriving DecidableEq, Repr

namespace Document

/- Leave out blank text beside elements, at every depth. -/
def normalize (d : Document) : Document :=
  ⟨d.root.normalize⟩

end Document

end AutomataStore
