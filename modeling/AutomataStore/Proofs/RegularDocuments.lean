import AutomataStore.Proofs.WrittenDocuments

/-
  Regular documents.

  In a regular forest names are names, and an element holds
  either one text or elements, with comments only beside
  elements.  A regular document is canonical, and every
  layout of it is read back as it is.

  Key definitions include:
    * `Node.Regular`, `Document.Regular`

  Main declarations:
    * `Document.normalize_of_regular`
    * `Document.parse_toBytes_of_regular`
-/

------------------------------------------------------------
-- Regular Forests
------------------------------------------------------------

namespace AutomataStore

open Markup

namespace Node

/-
  A forest of elements and comments that can be written, in
  which every element holds one text that is not empty, or
  such a forest, and an element beside every comment.
-/
def Regular : List Node → Prop
  | [] => True
  | .element tag attributes children :: rest =>
      IsName tag ∧ NamesApart attributes ∧
        ((∃ content, content ≠ "" ∧
            children = [.text content]) ∨
          Regular children ∧
            (children.any isComment = true →
              children.any isElement = true)) ∧
        Regular rest
  | .text _ :: _ => False
  | .comment content :: rest =>
      IsCommentText content ∧ Regular rest

/- Regular forests can follow each other. -/
theorem regular_append
    {nodes others : List Node}
    (hNodes : Regular nodes)
    (hOthers : Regular others) :
    Regular (nodes ++ others) := by
  induction nodes using forestInduction with
  | nil => exact hOthers
  | element tag attributes children rest _ ih =>
      simp only [Regular] at hNodes
      rcases hNodes with ⟨hTag, hAttributes, hInner, hRest⟩
      simp only [List.cons_append, Regular]
      exact ⟨hTag, hAttributes, hInner, ih hRest⟩
  | text content rest ih =>
      simp only [Regular] at hNodes
  | comment content rest ih =>
      simp only [Regular] at hNodes
      simp only [List.cons_append, Regular]
      exact ⟨hNodes.1, ih hNodes.2⟩

/- A regular forest can be written. -/
theorem writable_of_regular
    {nodes : List Node}
    (h : Regular nodes) :
    Writable nodes := by
  induction nodes using forestInduction with
  | nil => simp [Writable]
  | element tag attributes children rest ihInner ihRest =>
      simp only [Regular] at h
      rcases h with ⟨hTag, hAttributes, hInner, hRest⟩
      have hChildren : Writable children := by
        rcases hInner with ⟨content, _, rfl⟩ | hInner
        · simp [Writable]
        · exact ihInner hInner.1
      simp only [Writable]
      exact ⟨hTag, hAttributes, hChildren, ihRest hRest⟩
  | text content rest ih =>
      simp only [Regular] at h
  | comment content rest ih =>
      simp only [Regular] at h
      simp only [Writable]
      exact ⟨h.1, ih h.2⟩

/- In a regular forest comments stand beside elements. -/
theorem commentsBesideElements_of_regular
    {nodes : List Node}
    (h : Regular nodes) :
    CommentsBesideElements nodes := by
  induction nodes using forestInduction with
  | nil => simp [CommentsBesideElements]
  | element tag attributes children rest ihInner ihRest =>
      simp only [Regular] at h
      rcases h with ⟨_, _, hInner, hRest⟩
      simp only [CommentsBesideElements]
      rcases hInner with ⟨content, _, rfl⟩ | hInner
      · refine ⟨?_, ?_, ihRest hRest⟩
        · simp [isComment]
        · simp [CommentsBesideElements]
      · exact ⟨hInner.2, ihInner hInner.1, ihRest hRest⟩
  | text content rest ih =>
      simp only [Regular] at h
  | comment content rest ih =>
      simp only [Regular] at h
      simp only [CommentsBesideElements]
      exact ih h.2

/- Regular forests have no texts of their own. -/
theorem isText_of_mem_regular
    {nodes : List Node}
    (h : Regular nodes)
    {n : Node}
    (hn : n ∈ nodes) :
    n.isText = false := by
  induction nodes using forestInduction with
  | nil => cases hn
  | element tag attributes children rest _ ih =>
      simp only [Regular] at h
      rcases List.mem_cons.mp hn with rfl | hn
      · rfl
      · exact ih h.2.2.2 hn
  | text content rest ih =>
      simp only [Regular] at h
  | comment content rest ih =>
      simp only [Regular] at h
      rcases List.mem_cons.mp hn with rfl | hn
      · rfl
      · exact ih h.2 hn

/- The texts of a regular forest are merged. -/
theorem merged_of_regular
    {nodes : List Node}
    (h : Regular nodes) :
    Merged nodes := by
  induction nodes using forestInduction with
  | nil => simp [Merged]
  | element tag attributes children rest ihInner ihRest =>
      simp only [Regular] at h
      rcases h with ⟨_, _, hInner, hRest⟩
      have hChildren : Merged children := by
        rcases hInner with ⟨content, hContent, rfl⟩ | hInner
        · simp [Merged, hContent]
        · exact ihInner hInner.1
      simp only [Merged]
      exact ⟨hChildren, ihRest hRest⟩
  | text content rest ih =>
      simp only [Regular] at h
  | comment content rest ih =>
      simp only [Regular] at h
      simp only [Merged]
      exact ih h.2

/- A regular forest has no gaps. -/
theorem dropGaps_of_regular
    {nodes : List Node}
    (h : Regular nodes) :
    dropGaps nodes = nodes := by
  unfold dropGaps
  split
  · apply List.filter_eq_self.mpr
    intro n hn
    have hText := isText_of_mem_regular h hn
    cases n with
    | text content => cases hText
    | _ => rfl
  · rfl

/- Nor are there gaps inside its elements. -/
theorem normalizeInside_of_regular
    {nodes : List Node}
    (h : Regular nodes) :
    normalizeInside nodes = nodes := by
  induction nodes using forestInduction with
  | nil => simp [normalizeInside]
  | element tag attributes children rest ihInner ihRest =>
      simp only [Regular] at h
      rcases h with ⟨_, _, hInner, hRest⟩
      have hChildren :
          dropGaps (normalizeInside children) =
            children := by
        rcases hInner with ⟨content, _, rfl⟩ | hInner
        · simp [normalizeInside, dropGaps, isElement]
        · rw [ihInner hInner.1,
            dropGaps_of_regular hInner.1]
      simp only [normalizeInside, hChildren, ihRest hRest]
  | text content rest ih =>
      simp only [Regular] at h
  | comment content rest ih =>
      simp only [Regular] at h
      simp only [normalizeInside, ih h.2]

end Node

------------------------------------------------------------
-- Regular Documents
------------------------------------------------------------

namespace Document

/- A document is regular when its root is. -/
def Regular (d : Document) : Prop :=
  Node.Regular [d.root.toNode]

/- A regular document has no gaps. -/
theorem normalize_of_regular
    {d : Document}
    (hd : d.Regular) :
    d.normalize = d := by
  have hInside := Node.normalizeInside_of_regular hd
  simp only [Element.toNode, Node.normalizeInside,
    List.cons.injEq, Node.element.injEq, true_and,
    and_true] at hInside
  simp only [normalize, Element.normalize, hInside]

/- A regular document is canonical. -/
theorem canonical_of_regular
    {d : Document}
    (hd : d.Regular) :
    d.canonical = d := by
  have hMerge :=
    Node.mergeTexts_of_merged (Node.merged_of_regular hd)
  simp only [Element.toNode, Node.mergeTexts,
    List.cons.injEq, Node.element.injEq, true_and,
    and_true] at hMerge
  have hNormal := normalize_of_regular hd
  simp only [canonical, Element.canonical, hMerge]
  exact hNormal

/- Every layout of a regular document is read back. -/
theorem parse_toBytes_of_regular
    {d : Document}
    (hd : d.Regular)
    (l : Layout) :
    parse (d.toBytes l) = .ok d := by
  have hBeside :=
    Node.commentsBesideElements_of_regular hd
  rw [parse_toBytes_eq_canonical
      (Node.writable_of_regular hd) (Or.inr hBeside),
    canonical_of_regular hd]

end Document

end AutomataStore
