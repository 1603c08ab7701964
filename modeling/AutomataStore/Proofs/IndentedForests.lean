import AutomataStore.Proofs.CanonicalForm

/-
  Indented forests.

  The line breaks of an indented document are text of the
  document that is read back.  They stand beside elements and
  vanish with the other gaps, if every element that holds a
  comment also holds an element.

  Key definitions include:
    * `Layout.indentedForest`, `Layout.indentedChildren`
    * `Node.CommentsBesideElements`
    * `Node.visible`

  Main declarations:
    * `Layout.visible_indentedForest`
    * `Layout.canonical_indented`
-/

------------------------------------------------------------
-- Line Breaks as Text
------------------------------------------------------------

namespace AutomataStore

open Markup (Attribute)

namespace Layout

/- The text of a line break before markup at a depth. -/
def gapText (l : Layout) (depth : Nat) : String :=
  String.ofList
    ('\n' :: List.replicate (depth * l.indent) ' ')

/- The line break before a piece of markup, if one is due. -/
def gapNodes
    (l : Layout)
    (depth : Nat)
    (due : Bool) : List Node :=
  if due = true ∧ 0 < l.indent then
    [.text (l.gapText depth)]
  else
    []

/-
  A forest at a depth with the line breaks of its layout as
  text.  An element without children gets none inside.
-/
def indentedForest
    (l : Layout)
    (depth : Nat)
    (due : Bool) : List Node → List Node
  | [] => []
  | .element tag attributes children :: rest =>
      l.gapNodes depth due ++
        .element tag attributes
            (if children.isEmpty then
              []
            else
              l.indentedForest (depth + 1) true children ++
                l.gapNodes depth (dueAfter true children)) ::
          l.indentedForest depth true rest
  | .text content :: rest =>
      .text content :: l.indentedForest depth false rest
  | .comment content :: rest =>
      l.gapNodes depth due ++
        .comment content :: l.indentedForest depth true rest

/- The children of an element at a depth, with line breaks. -/
def indentedChildren
    (l : Layout)
    (depth : Nat)
    (children : List Node) : List Node :=
  if children.isEmpty then
    []
  else
    l.indentedForest (depth + 1) true children ++
      l.gapNodes depth (dueAfter true children)

/- A line break is some text. -/
theorem gapText_ne_empty
    (l : Layout)
    (depth : Nat) :
    l.gapText depth ≠ "" := by
  intro h
  have hList := congrArg String.toList h
  simp [gapText] at hList

/- A line break has no visible character. -/
theorem isBlankText_gapText
    (l : Layout)
    (depth : Nat) :
    Text.IsBlankText (l.gapText depth) := by
  intro c hc
  simp only [gapText, String.toList_ofList, List.mem_cons,
    List.mem_replicate] at hc
  rcases hc with rfl | ⟨_, rfl⟩ <;> decide

end Layout

------------------------------------------------------------
-- Visible Nodes
------------------------------------------------------------

namespace Node

/- A forest without gaps, as if it held an element. -/
def visible (nodes : List Node) : List Node :=
  (normalizeInside nodes).filter fun n => !n.isBlankText

@[simp]
theorem visible_nil : visible [] = [] := by
  simp [visible, normalizeInside]

@[simp]
theorem visible_element
    (tag : String)
    (attributes : List Attribute)
    (children rest : List Node) :
    visible (.element tag attributes children :: rest) =
      .element tag attributes
          (dropGaps (normalizeInside children)) ::
        visible rest := by
  simp [visible, normalizeInside]

@[simp]
theorem visible_comment
    (content : String)
    (rest : List Node) :
    visible (.comment content :: rest) =
      .comment content :: visible rest := by
  simp [visible, normalizeInside]

@[simp]
theorem visible_text
    (content : String)
    (rest : List Node) :
    visible (.text content :: rest) =
      if Text.IsBlankText content then
        visible rest
      else
        .text content :: visible rest := by
  by_cases h : Text.IsBlankText content <;>
    simp [visible, normalizeInside, h]

/- A text before other nodes is visible if it is not blank. -/
theorem visible_joinText
    (content : String)
    {nodes : List Node}
    (hNodes : nodes.head?.any isText = false) :
    visible (joinText content nodes) =
      visible (.text content :: nodes) := by
  have hEmpty : Text.IsBlankText "" := by decide
  cases nodes with
  | nil =>
      by_cases h : content = "" <;>
        simp [joinText, h, hEmpty]
  | cons n nodes =>
      have hn : n.isText = false := by simpa using hNodes
      rw [joinText_cons content hn]
      by_cases h : content = "" <;> simp [h, hEmpty]

/-
  Forests with the same visible nodes are the same without
  gaps, if those without elements are the same to begin with.
-/
theorem dropGaps_eq_of_visible_eq
    {nodes others : List Node}
    (hAny : nodes.any isElement = others.any isElement)
    (hVisible : visible nodes = visible others)
    (hSame : others.any isElement = false → nodes = others) :
    dropGaps (normalizeInside nodes) =
      dropGaps (normalizeInside others) := by
  cases hElement : others.any isElement with
  | false => rw [hSame hElement]
  | true =>
      simp only [dropGaps, any_isElement_normalizeInside,
        hAny, hElement, if_true]
      exact hVisible

------------------------------------------------------------
-- Comments and Elements
------------------------------------------------------------

/- Whether a node is a comment. -/
def isComment : Node → Bool
  | .comment _ => true
  | _ => false

/- Every element that holds a comment holds an element. -/
def CommentsBesideElements : List Node → Prop
  | [] => True
  | .element _ _ children :: rest =>
      (children.any isComment = true →
          children.any isElement = true) ∧
        CommentsBesideElements children ∧
        CommentsBesideElements rest
  | .text _ :: rest => CommentsBesideElements rest
  | .comment _ :: rest => CommentsBesideElements rest

end Node

------------------------------------------------------------
-- Line Breaks Vanish
------------------------------------------------------------

namespace Layout

open Node

/- Line breaks are no elements. -/
theorem any_isElement_gapNodes
    (l : Layout)
    (depth : Nat)
    (due : Bool) :
    (l.gapNodes depth due).any isElement = false := by
  unfold gapNodes
  split <;> rfl

/- Line breaks keep whether there are elements. -/
theorem any_isElement_indentedForest
    (l : Layout)
    (depth : Nat)
    (due : Bool)
    (nodes : List Node) :
    (l.indentedForest depth due nodes).any isElement =
      nodes.any isElement := by
  induction nodes using forestInduction
    generalizing depth due with
  | nil => simp [indentedForest]
  | element tag attributes children rest _ ih =>
      simp [indentedForest, isElement]
  | text content rest ih =>
      simp [indentedForest, ih, isElement]
  | comment content rest ih =>
      simp only [indentedForest, List.any_append,
        any_isElement_gapNodes, List.any_cons, ih]
      rfl

/- A forest of texts gets no line breaks. -/
theorem indentedForest_of_all_isText
    (l : Layout)
    (depth : Nat)
    (due : Bool)
    {nodes : List Node}
    (hTexts : ∀ n ∈ nodes, n.isText = true) :
    l.indentedForest depth due nodes = nodes := by
  induction nodes generalizing due with
  | nil => simp [indentedForest]
  | cons n nodes ih =>
      have hn := hTexts n (List.mem_cons_self ..)
      have hRest :=
        ih false fun m hm =>
          hTexts m (List.mem_cons_of_mem _ hm)
      cases n with
      | text content => simp only [indentedForest, hRest]
      | _ => cases hn

/- After texts no line break is due. -/
theorem dueAfter_of_all_isText
    (due : Bool)
    {nodes : List Node}
    (hTexts : ∀ n ∈ nodes, n.isText = true)
    (hNotNil : nodes ≠ []) :
    dueAfter due nodes = false := by
  induction nodes generalizing due with
  | nil => exact absurd rfl hNotNil
  | cons n nodes ih =>
      have hn := hTexts n (List.mem_cons_self ..)
      simp only [dueAfter, hn, Bool.not_true]
      cases nodes with
      | nil => rfl
      | cons m nodes =>
          exact ih false
            (fun k hk =>
              hTexts k (List.mem_cons_of_mem _ hk))
            (List.cons_ne_nil m nodes)

/-
  A line break before markup is not visible.  It is due only
  where no text was read that it could join.
-/
theorem visible_gapNodes
    (l : Layout)
    (depth : Nat)
    {due : Bool}
    {content : String}
    (hDue : due = true → content = "")
    (nodes : List Node)
    (hNodes : (mergeTexts nodes).head?.any isText = false) :
    visible (joinText content
        (mergeTexts (l.gapNodes depth due ++ nodes))) =
      visible (joinText content (mergeTexts nodes)) := by
  unfold gapNodes
  split
  · rename_i hGap
    rw [hDue hGap.1, joinText_empty, joinText_empty,
      List.singleton_append]
    simp only [mergeTexts]
    rw [visible_joinText _ hNodes, visible_text,
      if_pos (isBlankText_gapText l depth)]
  · rfl

/-
  Children are the same with and without line breaks, once
  gaps are left out, if the same of them are visible and no
  comment stands without an element.
-/
theorem dropGaps_indentedChildren
    (l : Layout)
    (depth : Nat)
    {children : List Node}
    (hVisible :
      visible (mergeTexts
          (l.indentedForest (depth + 1) true children ++
            l.gapNodes depth (dueAfter true children))) =
        visible (mergeTexts children))
    (hBeside :
      children.any isComment = true →
        children.any isElement = true) :
    dropGaps (normalizeInside
        (mergeTexts (l.indentedChildren depth children))) =
      dropGaps (normalizeInside (mergeTexts children)) := by
  unfold indentedChildren
  split
  · rename_i hEmpty
    rw [List.isEmpty_iff.mp hEmpty]
  · rename_i hNotEmpty
    apply dropGaps_eq_of_visible_eq _ hVisible
    · -- Without elements there are only texts.
      intro hNone
      rw [any_isElement_mergeTexts] at hNone
      have hTexts : ∀ n ∈ children, n.isText = true := by
        intro n hn
        have hElement := List.any_eq_false.mp hNone n hn
        cases n with
        | text content => rfl
        | element tag attributes inner =>
            exact absurd rfl hElement
        | comment content =>
            have hAny :=
              hBeside (List.any_eq_true.mpr ⟨_, hn, rfl⟩)
            rw [hNone] at hAny
            cases hAny
      have hNotNil : children ≠ [] := by
        intro hNil
        exact hNotEmpty (List.isEmpty_iff.mpr hNil)
      rw [indentedForest_of_all_isText l _ _ hTexts,
        dueAfter_of_all_isText true hTexts hNotNil]
      simp [gapNodes]
    · rw [any_isElement_mergeTexts,
        any_isElement_mergeTexts, List.any_append,
        any_isElement_indentedForest,
        any_isElement_gapNodes, Bool.or_false]

/-
  Line breaks inside and after a forest are not visible, with
  a text before it that no line break can join.
-/
theorem visible_indentedForest
    (l : Layout)
    (depth outer : Nat)
    (due : Bool)
    (content : String)
    (hDue : due = true → content = "")
    {nodes : List Node}
    (hBeside : CommentsBesideElements nodes) :
    visible (joinText content (mergeTexts
        (l.indentedForest depth due nodes ++
          l.gapNodes outer (dueAfter due nodes)))) =
      visible (joinText content (mergeTexts nodes)) := by
  induction nodes using forestInduction
    generalizing depth outer due content with
  | nil =>
      have hGap :=
        visible_gapNodes l outer hDue []
          (by simp [mergeTexts])
      rw [List.append_nil] at hGap
      simpa [indentedForest, dueAfter] using hGap
  | element tag attributes children rest ihInner ihRest =>
      simp only [CommentsBesideElements] at hBeside
      rcases hBeside with ⟨hHere, hInner, hRest⟩
      have hChildren :=
        ihInner (depth + 1) depth true "" (fun _ => rfl)
          hInner
      rw [joinText_empty, joinText_empty] at hChildren
      have hSame :=
        dropGaps_indentedChildren l depth hChildren hHere
      have hAfter :=
        ihRest depth outer true "" (fun _ => rfl) hRest
      rw [joinText_empty, joinText_empty] at hAfter
      simp only [indentedForest, dueAfter, List.append_assoc,
        List.cons_append, isText, Bool.not_false]
      rw [visible_gapNodes l depth hDue _
        (by simp [mergeTexts, isText])]
      simp only [mergeTexts]
      rw [visible_joinText content (by simp [isText]),
        visible_joinText content (by simp [isText])]
      simp only [visible_text, visible_element]
      rw [hAfter]
      unfold indentedChildren at hSame
      rw [hSame]
  | text more rest ih =>
      simp only [CommentsBesideElements] at hBeside
      have hAfter :=
        ih depth outer false (content ++ more) (by simp)
          hBeside
      simp only [indentedForest, dueAfter, isText,
        Bool.not_true, List.cons_append, mergeTexts,
        joinText_joinText]
      exact hAfter
  | comment more rest ih =>
      simp only [CommentsBesideElements] at hBeside
      have hAfter :=
        ih depth outer true "" (fun _ => rfl) hBeside
      rw [joinText_empty, joinText_empty] at hAfter
      simp only [indentedForest, dueAfter, List.append_assoc,
        List.cons_append, isText, Bool.not_false]
      rw [visible_gapNodes l depth hDue _
        (by simp [mergeTexts, isText])]
      simp only [mergeTexts]
      rw [visible_joinText content (by simp [isText]),
        visible_joinText content (by simp [isText])]
      simp only [visible_text, visible_comment]
      rw [hAfter]

/- Without an indent there are no line breaks. -/
theorem indentedForest_of_indent_eq_zero
    {l : Layout}
    (hIndent : l.indent = 0)
    (depth : Nat)
    (due : Bool)
    (nodes : List Node) :
    l.indentedForest depth due nodes = nodes := by
  induction nodes using forestInduction
    generalizing depth due with
  | nil => simp [indentedForest]
  | element tag attributes children rest ihInner ihRest =>
      simp [indentedForest, gapNodes, hIndent, ihInner,
        ihRest]
  | text content rest ih =>
      simp [indentedForest, ih]
  | comment content rest ih =>
      simp [indentedForest, gapNodes, hIndent, ih]

/-
  The line breaks of a layout do not change the canonical
  form of an element, if it writes none or every comment has
  an element beside it.
-/
theorem canonical_indented
    (l : Layout)
    (depth : Nat)
    (e : Element)
    (hLayout :
      l.indent = 0 ∨ CommentsBesideElements [e.toNode]) :
    Element.canonical
        { e with
          children := l.indentedChildren depth e.children } =
      e.canonical := by
  rcases e with ⟨tag, attributes, children⟩
  have hSame :
      dropGaps (normalizeInside (mergeTexts
          (l.indentedChildren depth children))) =
        dropGaps (normalizeInside (mergeTexts children)) := by
    rcases hLayout with hIndent | hBeside
    · unfold indentedChildren
      split
      · rename_i hEmpty
        rw [List.isEmpty_iff.mp hEmpty]
      · rw [indentedForest_of_indent_eq_zero hIndent]
        simp [gapNodes, hIndent]
    · simp only [Element.toNode, CommentsBesideElements,
        and_true] at hBeside
      have hVisible :=
        visible_indentedForest l (depth + 1) depth true ""
          (fun _ => rfl) hBeside.2
      rw [joinText_empty, joinText_empty] at hVisible
      exact dropGaps_indentedChildren l depth hVisible
        hBeside.1
  simp only [Element.canonical, Element.normalize, hSame]

end Layout

end AutomataStore
