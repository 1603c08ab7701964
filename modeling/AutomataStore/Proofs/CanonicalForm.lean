import AutomataStore.Document.Layout

/-
  The canonical form of a document.

  A document is canonical when no two texts follow each
  other, no text is empty, and no blank text stands beside
  elements.  Texts are merged first; leaving out gaps then
  brings no two of them together.

  Key definitions include:
    * `Node.mergeTexts`, `Node.Merged`
    * `Element.canonical`, `Document.canonical`

  Main declarations:
    * `Node.merged_mergeTexts`
    * `Node.mergeTexts_of_merged`
    * `Document.canonical_canonical`
-/

------------------------------------------------------------
-- Merged Texts
------------------------------------------------------------

namespace AutomataStore

open Markup (Attribute)

namespace Node

/- Put a text before nodes. -/
def joinText (content : String) : List Node → List Node
  | .text more :: nodes => .text (content ++ more) :: nodes
  | nodes =>
      if content = "" then nodes else .text content :: nodes

/-
  One text for every run of texts in a forest and inside its
  elements.  A run without characters is left out.
-/
def mergeTexts : List Node → List Node
  | [] => []
  | .element tag attributes children :: rest =>
      .element tag attributes (mergeTexts children) ::
        mergeTexts rest
  | .text content :: rest =>
      joinText content (mergeTexts rest)
  | .comment content :: rest =>
      .comment content :: mergeTexts rest

/-
  No text of the forest or inside its elements is empty, and
  none follows another one.
-/
def Merged : List Node → Prop
  | [] => True
  | .element _ _ children :: rest =>
      Merged children ∧ Merged rest
  | .text content :: rest =>
      content ≠ "" ∧ rest.head?.any isText = false ∧
        Merged rest
  | .comment _ :: rest => Merged rest

/- The empty text before nodes changes nothing. -/
@[simp]
theorem joinText_empty
    (nodes : List Node) :
    joinText "" nodes = nodes := by
  cases nodes with
  | nil => rfl
  | cons n nodes => cases n <;> simp [joinText]

/- A text before another node stands on its own. -/
theorem joinText_cons
    (content : String)
    {n : Node}
    (hn : n.isText = false)
    (nodes : List Node) :
    joinText content (n :: nodes) =
      if content = "" then n :: nodes
      else .text content :: n :: nodes := by
  cases n with
  | text more => cases hn
  | _ => rfl

/- Texts are put before nodes one after the other. -/
theorem joinText_joinText
    (content more : String)
    (nodes : List Node) :
    joinText content (joinText more nodes) =
      joinText (content ++ more) nodes := by
  have hAlone :
      ∀ ns : List Node,
        (∀ s, joinText s ns =
          if s = "" then ns else .text s :: ns) →
        joinText content (joinText more ns) =
          joinText (content ++ more) ns := by
    intro ns hns
    by_cases hMore : more = ""
    · simp [hMore]
    · rw [hns more, if_neg hMore, hns (content ++ more)]
      simp [joinText, hMore]
  cases nodes with
  | nil => exact hAlone [] fun s => rfl
  | cons n nodes =>
      cases hn : n.isText with
      | false =>
          exact hAlone (n :: nodes)
            fun s => joinText_cons s hn nodes
      | true =>
          cases n <;>
            simp_all [isText, joinText, String.append_assoc]

/- Merging keeps merged forests as they are. -/
theorem mergeTexts_of_merged
    {nodes : List Node}
    (h : Merged nodes) :
    mergeTexts nodes = nodes := by
  induction nodes using forestInduction with
  | nil => simp [mergeTexts]
  | element tag attributes children rest ihInner ihRest =>
      simp only [Merged] at h
      simp only [mergeTexts, ihInner h.1, ihRest h.2]
  | comment content rest ih =>
      simp only [Merged] at h
      simp only [mergeTexts, ih h]
  | text content rest ih =>
      simp only [Merged] at h
      rcases h with ⟨hContent, hNext, hRest⟩
      simp only [mergeTexts, ih hRest]
      cases rest with
      | nil => simp [joinText, hContent]
      | cons n rest =>
          have hn : n.isText = false := by
            simpa using hNext
          rw [joinText_cons content hn, if_neg hContent]

/- A text put before a merged forest leaves it merged. -/
theorem merged_joinText
    (content : String)
    {nodes : List Node}
    (h : Merged nodes) :
    Merged (joinText content nodes) := by
  cases nodes with
  | nil =>
      by_cases hContent : content = "" <;>
        simp [joinText, hContent, Merged]
  | cons n nodes =>
      cases hn : n.isText with
      | false =>
          rw [joinText_cons content hn]
          split
          · exact h
          · rename_i hContent
            simp only [Merged]
            exact ⟨hContent, by simpa using hn, h⟩
      | true =>
          cases n with
          | text more =>
              simp only [joinText, Merged] at h ⊢
              refine ⟨?_, h.2⟩
              simp [h.1]
          | _ => cases hn

/- Merging merges everything. -/
theorem merged_mergeTexts
    (nodes : List Node) :
    Merged (mergeTexts nodes) := by
  induction nodes using forestInduction with
  | nil => simp [mergeTexts, Merged]
  | element tag attributes children rest ihInner ihRest =>
      simp only [mergeTexts, Merged]
      exact ⟨ihInner, ihRest⟩
  | text content rest ih =>
      simp only [mergeTexts]
      exact merged_joinText content ih
  | comment content rest ih =>
      simp only [mergeTexts, Merged]
      exact ih

/- Leaving out blank texts leaves a forest merged. -/
theorem merged_filter
    {nodes : List Node}
    (h : Merged nodes) :
    Merged (nodes.filter fun n => !n.isBlankText) := by
  induction nodes using forestInduction with
  | nil => simp [Merged]
  | element tag attributes children rest _ ih =>
      simp only [Merged] at h
      simp only [List.filter_cons, isBlankText_element,
        Bool.not_false, if_true, Merged]
      exact ⟨h.1, ih h.2⟩
  | text content rest ih =>
      simp only [Merged] at h
      rcases h with ⟨hContent, hNext, hRest⟩
      rw [List.filter_cons]
      split
      · simp only [Merged]
        refine ⟨hContent, ?_, ih hRest⟩
        -- What follows the text is no text and stays.
        cases rest with
        | nil => rfl
        | cons n rest =>
            cases n with
            | text more => simp [isText] at hNext
            | _ => simp [isText]
      · exact ih hRest
  | comment content rest ih =>
      simp only [Merged] at h
      simp only [List.filter_cons, isBlankText_comment,
        Bool.not_false, if_true, Merged]
      exact ih h

/- Leaving out gaps leaves a forest merged. -/
theorem merged_dropGaps
    {nodes : List Node}
    (h : Merged nodes) :
    Merged (dropGaps nodes) := by
  unfold dropGaps
  split
  · exact merged_filter h
  · exact h

/- Leaving out gaps inside leaves a forest merged. -/
theorem merged_normalizeInside
    {nodes : List Node}
    (h : Merged nodes) :
    Merged (normalizeInside nodes) := by
  induction nodes using forestInduction with
  | nil => simp [normalizeInside, Merged]
  | element tag attributes children rest ihInner ihRest =>
      simp only [Merged] at h
      simp only [normalizeInside, Merged]
      exact ⟨merged_dropGaps (ihInner h.1), ihRest h.2⟩
  | text content rest ih =>
      simp only [Merged] at h
      rcases h with ⟨hContent, hNext, hRest⟩
      simp only [normalizeInside, Merged]
      refine ⟨hContent, ?_, ih hRest⟩
      cases rest with
      | nil => simp [normalizeInside]
      | cons n rest =>
          cases n with
          | text more => simp [isText] at hNext
          | _ => simp [normalizeInside, isText]
  | comment content rest ih =>
      simp only [Merged] at h
      simp only [normalizeInside, Merged]
      exact ih h

/- Merging keeps whether there are elements. -/
theorem any_isElement_mergeTexts
    (nodes : List Node) :
    (mergeTexts nodes).any isElement =
      nodes.any isElement := by
  have hJoin :
      ∀ content ns,
        (joinText content ns).any isElement =
          ns.any isElement := by
    intro content ns
    cases ns with
    | nil =>
        by_cases h : content = "" <;>
          simp [joinText, h, isElement]
    | cons n ns =>
        cases n <;> by_cases h : content = "" <;>
          simp [joinText, h, isElement]
  induction nodes using forestInduction with
  | nil => simp [mergeTexts]
  | element tag attributes children rest _ ih =>
      simp [mergeTexts, isElement]
  | text content rest ih =>
      simp [mergeTexts, hJoin, ih, isElement]
  | comment content rest ih =>
      simp [mergeTexts, ih, isElement]

end Node

------------------------------------------------------------
-- Canonical Documents
------------------------------------------------------------

/- An element with its texts merged and without gaps. -/
def Element.canonical (e : Element) : Element :=
  Element.normalize
    { e with children := Node.mergeTexts e.children }

/- A document with its texts merged and without gaps. -/
def Document.canonical (d : Document) : Document :=
  ⟨d.root.canonical⟩

/- The canonical form is canonical. -/
theorem Document.canonical_canonical
    (d : Document) :
    d.canonical.canonical = d.canonical := by
  have hMerged :
      Node.Merged d.root.canonical.children :=
    Node.merged_dropGaps
      (Node.merged_normalizeInside
        (Node.merged_mergeTexts d.root.children))
  have hSame :
      Element.normalize
          { d.root.canonical with
            children :=
              Node.mergeTexts d.root.canonical.children } =
        d.root.canonical := by
    rw [Node.mergeTexts_of_merged hMerged]
    exact Element.normalize_normalize
      { d.root with
        children := Node.mergeTexts d.root.children }
  exact congrArg Document.mk hSame

end AutomataStore
