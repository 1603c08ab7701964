import AutomataStore.Proofs.DocumentParts
import AutomataStore.Proofs.ParsedDocuments
import Mathlib

/-
  What is left of a parsed document when it is written and
  parsed again.

  The elements and their attributes stay as they are.  The
  texts do as well, unless the layout breaks lines inside an
  element without elements: there a line break before or
  after a comment becomes part of the text.

  Key definitions include:
    * `Node.outline`, `Node.skeleton`, `Node.content`
    * `Node.CommentsBetweenTexts`, `Node.TextsKept`

  Main declarations:
    * `Layout.skeleton_indentedForest`
    * `Layout.textOf_indentedChildren_iff`
    * `Layout.keptContent_indentedForest_iff`
    * `Document.content_of_reparse`
-/

------------------------------------------------------------
-- Outlines
------------------------------------------------------------

namespace AutomataStore

open Markup (Attribute)

namespace Node

/-
  The elements of a forest with their attributes, each with
  what it owns before the elements inside it.
-/
def outline
    (own : List Node → List Node) : List Node → List Node
  | [] => []
  | .element tag attributes children :: rest =>
      .element tag attributes
          (own children ++ outline own children) ::
        outline own rest
  | .text _ :: rest => outline own rest
  | .comment _ :: rest => outline own rest

/- The elements of a forest with their attributes alone. -/
abbrev skeleton : List Node → List Node :=
  outline fun _ => []

/-
  The elements of a forest with their attributes, each with
  its text in one piece before the elements inside it.
-/
abbrev content : List Node → List Node :=
  outline fun children => [.text (textOf children)]

section

variable (own : List Node → List Node)

@[simp]
theorem outline_nil : outline own [] = [] := by
  simp only [outline]

@[simp]
theorem outline_element
    (tag : String)
    (attributes : List Attribute)
    (children rest : List Node) :
    outline own (.element tag attributes children :: rest) =
      .element tag attributes
          (own children ++ outline own children) ::
        outline own rest := by
  simp only [outline]

@[simp]
theorem outline_text
    (s : String)
    (rest : List Node) :
    outline own (.text s :: rest) = outline own rest := by
  simp only [outline]

@[simp]
theorem outline_comment
    (s : String)
    (rest : List Node) :
    outline own (.comment s :: rest) = outline own rest := by
  simp only [outline]

/- The elements of forests that follow each other. -/
@[simp]
theorem outline_append
    (nodes others : List Node) :
    outline own (nodes ++ others) =
      outline own nodes ++ outline own others := by
  induction nodes using forestInduction <;> simp_all

/- Blank text of a forest is no part of its outline. -/
@[simp]
theorem outline_dropGaps
    (nodes : List Node) :
    outline own (dropGaps nodes) = outline own nodes := by
  have hFilter :
      outline own (nodes.filter fun n => !n.isBlankText) =
        outline own nodes := by
    induction nodes using forestInduction with
    | nil => rfl
    | element tag attributes children rest _ ih => simp [ih]
    | text s rest ih =>
        rw [List.filter_cons]
        split <;> simp [ih]
    | comment s rest ih => simp [ih]
  unfold dropGaps
  split
  · exact hFilter
  · rfl

/- Text before a forest is no part of its outline. -/
@[simp]
theorem outline_joinText
    (s : String)
    (nodes : List Node) :
    outline own (joinText s nodes) = outline own nodes := by
  by_cases hEmpty : s = ""
  · rw [hEmpty, joinText_empty]
  · cases nodes with
    | nil => simp [joinText, hEmpty]
    | cons n nodes => cases n <;> simp [joinText, hEmpty]

end

------------------------------------------------------------
-- Skeletons
------------------------------------------------------------

/- Leaving out gaps inside keeps the skeleton. -/
@[simp]
theorem skeleton_normalizeInside
    (nodes : List Node) :
    skeleton (normalizeInside nodes) = skeleton nodes := by
  induction nodes using forestInduction <;>
    simp_all [normalizeInside]

/- Merging texts keeps the skeleton. -/
@[simp]
theorem skeleton_mergeTexts
    (nodes : List Node) :
    skeleton (mergeTexts nodes) = skeleton nodes := by
  induction nodes using forestInduction <;>
    simp_all [mergeTexts]

end Node

namespace Layout

open Node

/- Line breaks are no part of an outline. -/
@[simp]
theorem outline_gapNodes
    (own : List Node → List Node)
    (l : Layout)
    (depth : Nat)
    (due : Bool) :
    outline own (l.gapNodes depth due) = [] := by
  unfold gapNodes
  split <;> simp

/- A layout keeps the skeleton. -/
@[simp]
theorem skeleton_indentedForest
    (l : Layout)
    (depth : Nat)
    (due : Bool)
    (nodes : List Node) :
    skeleton (l.indentedForest depth due nodes) =
      skeleton nodes := by
  induction nodes using forestInduction
    generalizing depth due with
  | nil => simp [indentedForest]
  | element tag attributes children rest ihInner ihRest =>
      simp only [indentedForest, outline_append,
        outline_gapNodes, outline_element, List.nil_append,
        ihRest]
      split
      · rename_i hEmpty
        simp [List.isEmpty_iff.mp hEmpty]
      · simp [ihInner]
  | text content rest ih => simp [indentedForest, ih]
  | comment content rest ih => simp [indentedForest, ih]

end Layout

------------------------------------------------------------
-- Content
------------------------------------------------------------

namespace Node

/- Leaving out gaps inside keeps the texts of a forest. -/
theorem textOf_dropGaps_normalizeInside
    (nodes : List Node) :
    textOf (dropGaps (normalizeInside nodes)) =
      textOf (dropGaps nodes) := by
  have hText :
      ∀ ns, textOf (normalizeInside ns) = textOf ns := by
    intro ns
    induction ns using forestInduction <;>
      simp_all [normalizeInside, textOf]
  rw [dropGaps_normalizeInside, hText]

/- A text that is put before nodes comes before their texts. -/
theorem textOf_joinText
    (s : String)
    (nodes : List Node) :
    textOf (joinText s nodes) = s ++ textOf nodes := by
  by_cases hEmpty : s = ""
  · simp [hEmpty]
  · cases nodes with
    | nil => simp [joinText, textOf, hEmpty]
    | cons n nodes =>
        cases n <;>
          simp [joinText, textOf, hEmpty, String.append_assoc]

/- Merging texts keeps the text in one piece. -/
theorem textOf_mergeTexts
    (nodes : List Node) :
    textOf (mergeTexts nodes) = textOf nodes := by
  induction nodes using forestInduction with
  | nil => simp [mergeTexts]
  | element tag attributes children rest _ ih =>
      simp [mergeTexts, textOf, ih]
  | text s rest ih =>
      simp [mergeTexts, textOf, textOf_joinText, ih]
  | comment s rest ih => simp [mergeTexts, textOf, ih]

------------------------------------------------------------
-- Content that Is Kept
------------------------------------------------------------

/- The content of the canonical form of a forest. -/
def keptContent (nodes : List Node) : List Node :=
  content (normalizeInside (mergeTexts nodes))

@[simp]
theorem keptContent_nil : keptContent [] = [] := by
  simp [keptContent, mergeTexts, normalizeInside]

@[simp]
theorem keptContent_element
    (tag : String)
    (attributes : List Attribute)
    (children rest : List Node) :
    keptContent (.element tag attributes children :: rest) =
      .element tag attributes
          (.text (textOf (dropGaps (mergeTexts children))) ::
            keptContent children) ::
        keptContent rest := by
  simp [keptContent, mergeTexts, normalizeInside,
    textOf_dropGaps_normalizeInside]

@[simp]
theorem keptContent_text
    (s : String)
    (rest : List Node) :
    keptContent (.text s :: rest) = keptContent rest := by
  have hJoin :
      ∀ ns,
        content (normalizeInside (joinText s ns)) =
          content (normalizeInside ns) := by
    intro ns
    by_cases hEmpty : s = ""
    · simp [hEmpty]
    · cases ns with
      | nil => simp [joinText, hEmpty, normalizeInside]
      | cons n ns =>
          cases n <;>
            simp [joinText, hEmpty, normalizeInside]
  simp only [keptContent, mergeTexts, hJoin]

@[simp]
theorem keptContent_comment
    (s : String)
    (rest : List Node) :
    keptContent (.comment s :: rest) = keptContent rest := by
  simp [keptContent, mergeTexts, normalizeInside]

/- The kept content of forests that follow each other. -/
@[simp]
theorem keptContent_append
    (nodes others : List Node) :
    keptContent (nodes ++ others) =
      keptContent nodes ++ keptContent others := by
  induction nodes using forestInduction <;> simp_all

/- The content of a canonical element is what is kept. -/
theorem content_canonical
    (e : Element) :
    content [e.canonical.toNode] = keptContent [e.toNode] := by
  simp only [keptContent, Element.canonical,
    Element.normalize, Element.toNode, mergeTexts,
    normalizeInside]

/- The skeleton of a canonical element is that of it. -/
theorem skeleton_canonical
    (e : Element) :
    skeleton [e.canonical.toNode] = skeleton [e.toNode] := by
  simp [Element.canonical, Element.normalize, Element.toNode]

end Node

------------------------------------------------------------
-- Texts beside Elements
------------------------------------------------------------

namespace Node

/- The text of the nodes that are not blank. -/
def visibleText (nodes : List Node) : String :=
  textOf (nodes.filter fun n => !n.isBlankText)

/- Nodes other than text are no part of the text. -/
theorem textOf_cons
    {n : Node}
    (hn : n.isText = false)
    (nodes : List Node) :
    textOf (n :: nodes) = textOf nodes := by
  cases n with
  | text s => cases hn
  | _ => simp only [textOf]

/- Nodes other than text are no part of the visible text. -/
theorem visibleText_cons
    {n : Node}
    (hn : n.isText = false)
    (nodes : List Node) :
    visibleText (n :: nodes) = visibleText nodes := by
  cases n with
  | text s => cases hn
  | _ => simp [visibleText, textOf]

/- A text before other nodes is visible unless it is blank. -/
theorem visibleText_joinText
    (s : String)
    {nodes : List Node}
    (hNodes : nodes.head?.any isText = false) :
    visibleText (joinText s nodes) =
      (if Text.IsBlankText s then "" else s) ++
        visibleText nodes := by
  have hEmpty : Text.IsBlankText "" := by decide
  have hText :
      visibleText (.text s :: nodes) =
        (if Text.IsBlankText s then "" else s) ++
          visibleText nodes := by
    by_cases hBlank : Text.IsBlankText s <;>
      simp [visibleText, hBlank, textOf]
  by_cases hs : s = ""
  · simp [hs, hEmpty]
  · cases nodes with
    | nil => simpa [joinText, hs] using hText
    | cons n nodes =>
        have hn : n.isText = false := by simpa using hNodes
        rw [joinText_cons s hn, if_neg hs, hText]

end Node

namespace Layout

open Node

/-
  A line break is not visible, with a visible text or none
  before it that it cannot join.
-/
theorem visibleText_gapNodes
    (l : Layout)
    (depth : Nat)
    {due : Bool}
    {s : String}
    (hDue : due = true → s = "")
    (hVisible : s = "" ∨ ¬ Text.IsBlankText s)
    {nodes : List Node}
    (hNodes : (mergeTexts nodes).head?.any isText = false) :
    visibleText (joinText s
        (mergeTexts (l.gapNodes depth due ++ nodes))) =
      s ++ visibleText (mergeTexts nodes) := by
  have hEmpty : Text.IsBlankText "" := by decide
  unfold gapNodes
  split
  · rename_i hGap
    rw [hDue hGap.1, joinText_empty, List.singleton_append]
    simp only [mergeTexts]
    rw [visibleText_joinText _ hNodes,
      if_pos (isBlankText_gapText l depth)]
  · rw [List.nil_append, visibleText_joinText s hNodes]
    rcases hVisible with rfl | hVisible
    · rw [if_pos hEmpty]
    · rw [if_neg hVisible]

/-
  Markup that is laid out is not visible, nor is the line
  break before it.
-/
theorem visibleText_indentedForest_cons
    (l : Layout)
    (depth : Nat)
    {due : Bool}
    {s : String}
    (hDue : due = true → s = "")
    (hVisible : s = "" ∨ ¬ Text.IsBlankText s)
    {n : Node}
    (hn : n.isText = false)
    (rest later : List Node) :
    visibleText (joinText s (mergeTexts
        (l.indentedForest depth due (n :: rest) ++ later))) =
      s ++ visibleText
        (mergeTexts
          (l.indentedForest depth true rest ++ later)) := by
  cases n with
  | text more => cases hn
  | _ =>
      simp only [indentedForest, List.append_assoc,
        List.cons_append]
      rw [visibleText_gapNodes l depth hDue hVisible
        (by simp [mergeTexts, isText])]
      simp only [mergeTexts]
      rw [visibleText_cons rfl]

/-
  Line breaks inside and after a forest without blank text
  leave its visible text as it is.
-/
theorem visibleText_indentedForest
    (l : Layout)
    (depth outer : Nat)
    (due : Bool)
    (s : String)
    (hDue : due = true → s = "")
    (hVisible : s = "" ∨ ¬ Text.IsBlankText s)
    (nodes : List Node)
    (hNodes : ∀ n ∈ nodes, n.isBlankText = false) :
    visibleText (joinText s (mergeTexts
        (l.indentedForest depth due nodes ++
          l.gapNodes outer (dueAfter due nodes)))) =
      s ++ textOf nodes := by
  induction nodes generalizing due s with
  | nil =>
      have hGap :=
        visibleText_gapNodes l outer hDue hVisible
          (show (mergeTexts []).head?.any isText = false by
            simp [mergeTexts])
      rw [List.append_nil] at hGap
      simpa [indentedForest, dueAfter, mergeTexts,
        visibleText, textOf] using hGap
  | cons n rest ih =>
      rw [List.forall_mem_cons] at hNodes
      cases n with
      | text more =>
          -- The text goes on with the one before it.
          have hMore : ¬ Text.IsBlankText (s ++ more) := by
            intro hBlank
            have hText : ¬ Text.IsBlankText more := by
              simpa using hNodes.1
            apply hText
            intro c hc
            exact hBlank c (by simp [hc])
          have hJoined :=
            ih false (s ++ more) (by simp) (Or.inr hMore)
              hNodes.2
          simp only [indentedForest, dueAfter, isText,
            Bool.not_true, List.cons_append, mergeTexts,
            joinText_joinText]
          rw [hJoined, textOf, String.append_assoc]
      | _ =>
          have hAfter :=
            ih true "" (fun _ => rfl) (Or.inl rfl) hNodes.2
          rw [joinText_empty, String.empty_append] at hAfter
          rw [visibleText_indentedForest_cons l depth hDue
            hVisible rfl, dueAfter, textOf_cons rfl]
          exact congrArg (s ++ ·) hAfter

end Layout

------------------------------------------------------------
-- Texts beside Comments Alone
------------------------------------------------------------

namespace Node

/-
  Every comment of a forest stands between two texts.
  `afterText` says whether a text comes before the forest.
-/
def CommentsBetweenTexts
    (afterText : Bool) : List Node → Prop
  | [] => True
  | .element _ _ _ :: rest => CommentsBetweenTexts false rest
  | .text _ :: rest => CommentsBetweenTexts true rest
  | .comment _ :: rest =>
      afterText = true ∧ rest.head?.any isText = true ∧
        CommentsBetweenTexts false rest

/-
  After a comment the next node is a text, if all comments
  stand between texts and there is a next node at all.
-/
theorem head?_isText_iff
    {nodes : List Node}
    (hNone : nodes.any isElement = false) :
    (nodes.head?.any isText = true ∧
        CommentsBetweenTexts false nodes) ↔
      nodes ≠ [] ∧ CommentsBetweenTexts false nodes := by
  cases nodes with
  | nil => simp
  | cons n nodes =>
      cases n with
      | element tag attributes children =>
          simp [isElement] at hNone
      | text s => simp [isText]
      | comment s => simp [isText, CommentsBetweenTexts]

end Node

namespace Layout

open Node

/- The text of a line break is empty if there is none. -/
theorem textOf_gapNodes_eq_empty_iff
    (l : Layout)
    (depth : Nat)
    (due : Bool) :
    textOf (l.gapNodes depth due) = "" ↔
      l.indent = 0 ∨ due = false := by
  unfold gapNodes
  split
  · rename_i hGap
    have hPos : l.indent ≠ 0 := Nat.ne_of_gt hGap.2
    simp [textOf, l.gapText_ne_empty depth, hGap.1, hPos]
  · rename_i hNone
    simp only [textOf, true_iff]
    cases due with
    | false => exact Or.inr rfl
    | true =>
        have hZero : ¬ 0 < l.indent := by simpa using hNone
        exact Or.inl (by omega)

/- Markup adds the line break before it to the text. -/
theorem textOf_indentedForest_cons
    (l : Layout)
    (depth : Nat)
    (due : Bool)
    {n : Node}
    (hn : n.isText = false)
    (rest : List Node) :
    textOf (l.indentedForest depth due (n :: rest)) =
      textOf (l.gapNodes depth due) ++
        textOf (l.indentedForest depth true rest) := by
  cases n with
  | text s => cases hn
  | _ => simp only [indentedForest, textOf_append, textOf]

/- Line breaks make no text shorter. -/
theorem length_textOf_le_indentedForest
    (l : Layout)
    (depth outer : Nat)
    (due : Bool)
    (nodes : List Node) :
    (textOf nodes).length ≤
      (textOf (l.indentedForest depth due nodes ++
        l.gapNodes outer (dueAfter due nodes))).length := by
  induction nodes generalizing due with
  | nil => simp [textOf]
  | cons n rest ih =>
      have hRest := ih (!n.isText)
      rw [textOf_append, String.length_append] at hRest ⊢
      cases n with
      | text s =>
          simp only [indentedForest, dueAfter, isText,
            Bool.not_true, textOf,
            String.length_append] at hRest ⊢
          omega
      | _ =>
          rw [textOf_indentedForest_cons l depth due rfl,
            textOf_cons rfl, dueAfter, String.length_append]
          exact Nat.le_trans hRest (by
            simp only [isText, Bool.not_false]
            omega)

/- A longer text that is the same adds nothing. -/
theorem append_eq_iff
    {before s t : String}
    (hLength : t.length ≤ s.length) :
    before ++ s = t ↔ before = "" ∧ s = t := by
  constructor
  · intro hSame
    have hEmpty : before = "" := by
      have hCount := congrArg String.length hSame
      rw [String.length_append] at hCount
      apply String.length_eq_zero_iff.mp
      omega
    rw [hEmpty, String.empty_append] at hSame
    exact ⟨hEmpty, hSame⟩
  · rintro ⟨rfl, rfl⟩
    exact String.empty_append

/-
  Without elements, line breaks leave the text as it is only
  where none are due: there are none in the layout, or every
  comment stands between texts.
-/
theorem textOf_indentedForest_iff
    (l : Layout)
    (depth outer : Nat)
    (due : Bool)
    {nodes : List Node}
    (hNone : nodes.any isElement = false) :
    textOf (l.indentedForest depth due nodes ++
        l.gapNodes outer (dueAfter due nodes)) =
        textOf nodes ↔
      l.indent = 0 ∨
        (CommentsBetweenTexts (!due) nodes ∧
          (nodes = [] → due = false)) := by
  induction nodes generalizing due with
  | nil =>
      simp only [indentedForest, List.nil_append, dueAfter,
        textOf, textOf_gapNodes_eq_empty_iff,
        CommentsBetweenTexts, true_and, forall_const]
  | cons n rest ih =>
      rw [List.any_cons, Bool.or_eq_false_iff] at hNone
      cases n with
      | element tag attributes children => cases hNone.1
      | text s =>
          have hRest := ih false hNone.2
          simp only [indentedForest, dueAfter, isText,
            Bool.not_true, List.cons_append, textOf,
            CommentsBetweenTexts, reduceCtorEq,
            false_implies, and_true, String.append_right_inj]
          rw [hRest]
          simp
      | comment s =>
          have hRest := ih true hNone.2
          have hLength :=
            length_textOf_le_indentedForest l depth outer true
              rest
          rw [textOf_append,
            textOf_indentedForest_cons l depth due rfl,
            String.append_assoc, ← textOf_append, dueAfter,
            textOf_cons rfl]
          simp only [isText, Bool.not_false]
          rw [append_eq_iff hLength,
            textOf_gapNodes_eq_empty_iff, hRest]
          have hHead := head?_isText_iff hNone.2
          simp only [CommentsBetweenTexts, reduceCtorEq,
            false_implies, and_true, hHead]
          by_cases hIndent : l.indent = 0 <;>
            cases due <;> simp [hIndent, and_comm]

/-
  The text of an element that is read back after its children
  were laid out, if blank text is left out beside elements.
-/
theorem textOf_indentedChildren_iff
    (l : Layout)
    (depth : Nat)
    {children : List Node}
    (hGaps : dropGaps children = children) :
    textOf (dropGaps (mergeTexts
        (l.indentedChildren depth children))) =
        textOf children ↔
      l.indent = 0 ∨
        (children.any isElement = false →
          CommentsBetweenTexts false children) := by
  unfold indentedChildren
  split
  · rename_i hEmpty
    rw [List.isEmpty_iff.mp hEmpty]
    simp [mergeTexts, dropGaps, CommentsBetweenTexts]
  · rename_i hNotEmpty
    have hAny :
        (mergeTexts
            (l.indentedForest (depth + 1) true children ++
              l.gapNodes depth
                (dueAfter true children))).any isElement =
          children.any isElement := by
      rw [any_isElement_mergeTexts, List.any_append,
        any_isElement_indentedForest,
        any_isElement_gapNodes, Bool.or_false]
    cases hElement : children.any isElement with
    | true =>
        have hVisible :
            ∀ n ∈ children, n.isBlankText = false := by
          simp only [dropGaps, hElement, if_true,
            List.filter_eq_self] at hGaps
          simpa using hGaps
        have hText :=
          visibleText_indentedForest l (depth + 1) depth true
            "" (fun _ => rfl) (Or.inl rfl) children hVisible
        rw [joinText_empty, String.empty_append] at hText
        rw [dropGaps, hAny, hElement, if_pos rfl]
        simp only [reduceCtorEq, false_implies, or_true,
          iff_true]
        exact hText
    | false =>
        have hSome : children ≠ [] := by
          intro hNil
          exact hNotEmpty (List.isEmpty_iff.mpr hNil)
        rw [dropGaps, hAny, hElement, if_neg (by simp),
          textOf_mergeTexts,
          textOf_indentedForest_iff l _ _ _ hElement]
        simp [hSome]

end Layout

------------------------------------------------------------
-- Documents
------------------------------------------------------------

namespace Node

/-
  In every element without elements, the comments stand
  between texts.
-/
def TextsKept : List Node → Prop
  | [] => True
  | .element _ _ children :: rest =>
      (children.any isElement = false →
          CommentsBetweenTexts false children) ∧
        TextsKept children ∧ TextsKept rest
  | .text _ :: rest => TextsKept rest
  | .comment _ :: rest => TextsKept rest

/-
  An element without gaps inside has none among its children
  and none inside them.
-/
theorem gapless_children
    {tag : String}
    {attributes : List Attribute}
    {children rest : List Node}
    (hGapless :
      normalizeInside
          (.element tag attributes children :: rest) =
        .element tag attributes children :: rest) :
    dropGaps children = children ∧
      normalizeInside children = children ∧
      normalizeInside rest = rest := by
  simp only [normalizeInside, List.cons.injEq,
    Node.element.injEq, true_and] at hGapless
  have hInner : normalizeInside children = children := by
    rw [← hGapless.1, ← dropGaps_normalizeInside,
      normalizeInside_normalizeInside]
  have hOuter := hGapless.1
  rw [hInner] at hOuter
  exact ⟨hOuter, hInner, hGapless.2⟩

end Node

namespace Layout

open Node

/-
  A laid-out forest without gaps keeps its content exactly if
  there are no line breaks or all its texts are kept.
-/
theorem keptContent_indentedForest_iff
    (l : Layout)
    (depth : Nat)
    (due : Bool)
    {nodes : List Node}
    (hGapless : normalizeInside nodes = nodes) :
    keptContent (l.indentedForest depth due nodes) =
        content nodes ↔
      l.indent = 0 ∨ TextsKept nodes := by
  have hBreaks :
      ∀ depth due, keptContent (l.gapNodes depth due) = [] := by
    intro depth due
    unfold gapNodes
    split <;> simp
  induction nodes using forestInduction
    generalizing depth due with
  | nil => simp [indentedForest, TextsKept]
  | element tag attributes children rest ihInner ihRest =>
      rcases gapless_children hGapless with
        ⟨hGaps, hInner, hRest⟩
      have hText :=
        l.textOf_indentedChildren_iff depth hGaps
      have hChildren :
          keptContent (l.indentedChildren depth children) =
            keptContent
              (l.indentedForest (depth + 1) true children) := by
        unfold indentedChildren
        split
        · rename_i hEmpty
          rw [List.isEmpty_iff.mp hEmpty]
          simp [indentedForest]
        · simp [hBreaks]
      unfold indentedChildren at hText hChildren
      simp only [indentedForest, keptContent_append, hBreaks,
        List.nil_append, keptContent_element,
        outline_element, List.cons_append, List.cons.injEq,
        Node.element.injEq, Node.text.injEq, true_and, hText,
        hChildren, ihInner _ _ hInner, ihRest _ _ hRest,
        TextsKept]
      rw [← or_and_left, ← or_and_left, and_assoc]
  | text s rest ih =>
      simp only [normalizeInside, List.cons.injEq,
        true_and] at hGapless
      simp [indentedForest, TextsKept, ih _ _ hGapless]
  | comment s rest ih =>
      simp only [normalizeInside, List.cons.injEq,
        true_and] at hGapless
      simp [indentedForest, hBreaks, TextsKept,
        ih _ _ hGapless]

end Layout

namespace Document

open Node

/-
  A document that was parsed from a text and whose elements
  and attributes have names is written and parsed again with
  the same elements and attributes.  It keeps its texts
  exactly if the layout has no line breaks or every element
  without elements has its comments between texts.
-/
theorem content_of_reparse
    (text : String)
    (d : Document)
    (l : Layout)
    (hParse : parse (Utf8.encode text) = .ok d)
    (hNamed : Named [d.root.toNode]) :
    ∃ again,
      parse (Utf8.encode (d.toText l)) = .ok again ∧
      skeleton [again.root.toNode] =
        skeleton [d.root.toNode] ∧
      (content [again.root.toNode] =
          content [d.root.toNode] ↔
        l.indent = 0 ∨ TextsKept [d.root.toNode]) := by
  have hWritable :=
    writable_of_parse (Utf8.isEncoded_encode text) hParse
      hNamed
  have hBytes : Utf8.encode (d.toText l) = d.toBytes l :=
    (Utf8.decode_of_isEncoded
      (isEncoded_toBytes hWritable l)).2
  have hGapless :
      normalizeInside [d.root.toNode] = [d.root.toNode] := by
    have hRoot :=
      congrArg Document.root (normalize_of_parse hParse)
    have hNode := congrArg Element.toNode hRoot
    simp only [normalizeInside, Element.toNode] at hNode ⊢
    exact congrArg (fun n => [n]) hNode
  have hKept :=
    l.keptContent_indentedForest_iff 0 false hGapless
  have hForest :
      l.indentedForest 0 false [d.root.toNode] =
        [Element.toNode
          { d.root with
            children :=
              l.indentedChildren 0 d.root.children }] := by
    simp [Element.toNode, Layout.indentedForest,
      Layout.indentedChildren, Layout.gapNodes]
  refine ⟨_, hBytes ▸ parse_toBytes hWritable l, ?_, ?_⟩
  · rw [skeleton_canonical, ← hForest,
      Layout.skeleton_indentedForest]
  · rw [content_canonical, ← hForest, hKept]

/- A text with comments between texts and beside elements. -/
def commentedText : String :=
  "<a k='1'><b>x<!--c--> y</b><!--d-->" ++
    "<p><![CDATA[ <]]></p></a>"

/- The document of the text. -/
def commented : Document :=
  ⟨{ tag := "a"
     attributes := [⟨"k", "1"⟩]
     children :=
       [.element "b" [] [.text "x", .comment "c", .text " y"],
        .comment "d",
        .element "p" [] [.text " <"]] }⟩

/- The document keeps its content in the usual layout. -/
theorem content_of_reparse_commented :
    parse (Utf8.encode commentedText) = .ok commented ∧
      Named [commented.root.toNode] ∧
      ∃ again,
        parse (Utf8.encode (commented.toText {})) =
            .ok again ∧
          content [again.root.toNode] =
            content [commented.root.toNode] := by
  have hParse :
      parse (Utf8.encode commentedText) = .ok commented := by
    cbv
  have hNamed : Named [commented.root.toNode] := by
    simp only [Named, commented, Element.toNode]
    decide +kernel
  have hKept : TextsKept [commented.root.toNode] := by
    simp [TextsKept, commented, Element.toNode, isElement,
      CommentsBetweenTexts, isText]
  rcases content_of_reparse commentedText commented {} hParse
    hNamed with ⟨again, hAgain, _, hContent⟩
  exact ⟨hParse, hNamed, again, hAgain,
    hContent.mpr (Or.inr hKept)⟩

/-
  A comment at the end of a text is not kept apart from it:
  the line break behind the comment becomes part of the text.
-/
theorem break_joins_text :
    parse (Utf8.encode "<left>S<!--c--></left>") =
        .ok ⟨⟨"left", [], [.text "S", .comment "c"]⟩⟩ ∧
      (Element.mk "left" [] [.text "S", .comment "c"]).text =
        "S" ∧
      parse (Utf8.encode
          (toText ⟨⟨"left", [], [.text "S", .comment "c"]⟩⟩
            { indent := 2, declaration := false })) =
        .ok ⟨⟨"left", [],
          [.text "S", .comment "c", .text "\n"]⟩⟩ ∧
      (Element.mk "left" []
          [.text "S", .comment "c", .text "\n"]).text =
        "S\n" := by
  refine ⟨by cbv, by decide, by cbv, by decide⟩

end Document

end AutomataStore
