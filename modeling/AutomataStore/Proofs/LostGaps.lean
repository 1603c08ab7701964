import AutomataStore.Proofs.ParsedDocuments
import AutomataStore.Proofs.SettledStructures

/-
  What normalizing leaves out.

  An element that is normalized loses its gaps, which are the
  blank texts beside elements, at every depth, and nothing
  else.  What is parsed lost them while its elements closed.
  What is written for a structure of any kind has none.

  Key definitions include:
    * `Node.LosesGaps`

  Main declarations:
    * `Node.losesGaps_iff`
    * `Element.eq_normalize_iff`
    * `Form.normalize_of_write`
    * `Document.normalize_projection`
-/

------------------------------------------------------------
-- Gaps
------------------------------------------------------------

namespace AutomataStore

open Markup (Attribute events forestOf)

namespace Node

variable {nodes kept : List Node}

/-
  What is kept of a forest that loses its gaps.  Elements and
  comments stay in their places, and the elements lose the
  gaps inside them.  A text is left out exactly if it is blank
  and there is an element in the forest it belongs to.
-/
inductive LosesGaps :
    Bool → List Node → List Node → Prop where
  | nil (beside : Bool) : LosesGaps beside [] []
  | element
      {beside : Bool}
      {tag : String}
      {attributes : List Attribute}
      {children keptChildren rest keptRest : List Node}
      (inside :
        LosesGaps (children.any isElement) children
          keptChildren)
      (behind : LosesGaps beside rest keptRest) :
      LosesGaps beside
        (.element tag attributes children :: rest)
        (.element tag attributes keptChildren :: keptRest)
  | comment
      {beside : Bool}
      {content : String}
      {rest keptRest : List Node}
      (behind : LosesGaps beside rest keptRest) :
      LosesGaps beside (.comment content :: rest)
        (.comment content :: keptRest)
  | text
      {beside : Bool}
      {content : String}
      {rest keptRest : List Node}
      (noGap : beside = true → ¬ Text.IsBlankText content)
      (behind : LosesGaps beside rest keptRest) :
      LosesGaps beside (.text content :: rest)
        (.text content :: keptRest)
  | gap
      {content : String}
      {rest keptRest : List Node}
      (blank : Text.IsBlankText content)
      (behind : LosesGaps true rest keptRest) :
      LosesGaps true (.text content :: rest) keptRest

/- Leave blank text out of a forest beside an element. -/
def leaveOut (beside : Bool) (nodes : List Node) : List Node :=
  if beside then
    nodes.filter fun n => !n.isBlankText
  else
    nodes

/- Gaps are left out if the forest has an element. -/
theorem dropGaps_normalizeInside_eq
    (nodes : List Node) :
    dropGaps (normalizeInside nodes) =
      leaveOut (nodes.any isElement)
        (normalizeInside nodes) := by
  rw [← any_isElement_normalizeInside]
  rfl

/- There is nothing to leave out of an empty forest. -/
theorem leaveOut_nil
    (beside : Bool) :
    leaveOut beside [] = [] := by
  cases beside <;> rfl

/- A node that is no blank text stays in its place. -/
theorem leaveOut_cons_of_not_blank
    {beside : Bool}
    {n : Node}
    (hn : beside = true → n.isBlankText = false)
    (nodes : List Node) :
    leaveOut beside (n :: nodes) =
      n :: leaveOut beside nodes := by
  cases beside with
  | false => rfl
  | true => simp [leaveOut, hn rfl]

/- A blank text is left out. -/
theorem leaveOut_cons_of_blank
    {n : Node}
    (hn : n.isBlankText = true)
    (nodes : List Node) :
    leaveOut true (n :: nodes) = leaveOut true nodes := by
  simp [leaveOut, hn]

/- Normalizing inside and leaving out gaps loses all gaps. -/
theorem losesGaps_normalizeInside
    (beside : Bool)
    (nodes : List Node) :
    LosesGaps beside nodes
      (leaveOut beside (normalizeInside nodes)) := by
  induction nodes using forestInduction generalizing beside with
  | nil =>
      rw [normalizeInside, leaveOut_nil]
      exact .nil beside
  | element tag attributes children rest ihChildren ihRest =>
      rw [normalizeInside, dropGaps_normalizeInside_eq,
        leaveOut_cons_of_not_blank (fun _ => rfl)]
      exact .element (ihChildren _) (ihRest beside)
  | text content rest ih =>
      rw [normalizeInside]
      by_cases hGap :
          beside = true ∧ Text.IsBlankText content
      · rcases hGap with ⟨rfl, hBlank⟩
        rw [leaveOut_cons_of_blank (by simpa using hBlank)]
        exact .gap hBlank (ih true)
      · rw [not_and] at hGap
        rw [leaveOut_cons_of_not_blank (by simpa using hGap)]
        exact .text hGap (ih beside)
  | comment content rest ih =>
      rw [normalizeInside,
        leaveOut_cons_of_not_blank (fun _ => rfl)]
      exact .comment (ih beside)

/- Nothing else is kept of a forest that loses its gaps. -/
theorem losesGaps_iff
    {beside : Bool} :
    LosesGaps beside nodes kept ↔
      kept = leaveOut beside (normalizeInside nodes) := by
  constructor
  · intro h
    induction h with
    | nil beside => rw [normalizeInside, leaveOut_nil]
    | element _ _ ihInside ihBehind =>
        rw [normalizeInside, dropGaps_normalizeInside_eq,
          leaveOut_cons_of_not_blank (fun _ => rfl),
          ihInside, ihBehind]
    | comment _ ih =>
        rw [normalizeInside,
          leaveOut_cons_of_not_blank (fun _ => rfl), ih]
    | text noGap _ ih =>
        rw [normalizeInside,
          leaveOut_cons_of_not_blank (by simpa using noGap), ih]
    | gap blank _ ih =>
        rw [normalizeInside,
          leaveOut_cons_of_blank (by simpa using blank), ih]
  · rintro rfl
    exact losesGaps_normalizeInside beside nodes

end Node

------------------------------------------------------------
-- Elements and Documents
------------------------------------------------------------

/- A normalized element has lost its gaps and nothing else. -/
theorem Element.eq_normalize_iff
    (e kept : Element) :
    kept = e.normalize ↔
      kept.tag = e.tag ∧ kept.attributes = e.attributes ∧
        Node.LosesGaps e.hasElements e.children
          kept.children := by
  rw [Node.losesGaps_iff, hasElements,
    ← Node.dropGaps_normalizeInside_eq]
  cases kept
  simp [normalize]

/- What a form writes has no gaps. -/
theorem Form.normalize_of_write
    {f : Form}
    {s : Structure}
    {d : Document}
    (hWrite : f.write s = .ok d) :
    d.normalize = d :=
  Document.normalize_of_regular (outcome_read_of_write hWrite).1

namespace Document

/-
  Normalizing an element a second time changes nothing, and a
  first time leaves out exactly its gaps, at every depth.
  What is parsed from any bytes is an element that the events
  spell, normalized as a whole.  Normalizing changes nothing
  in it, and in what is written in any form for any structure.
-/
theorem normalize_projection :
    (∀ e : Element, e.normalize.normalize = e.normalize) ∧
      (∀ e kept : Element,
        kept = e.normalize ↔
          kept.tag = e.tag ∧
            kept.attributes = e.attributes ∧
            Node.LosesGaps e.hasElements e.children
              kept.children) ∧
      (∀ bs d, parse bs = .ok d →
        ∃ root ∈ Node.elements (forestOf (events bs).items),
          d = normalize ⟨root⟩) ∧
      (∀ bs, (parse bs).map normalize = parse bs) ∧
      ∀ (f : Form) (s : Structure),
        (f.write s).map normalize = f.write s := by
  refine ⟨Element.normalize_normalize,
    Element.eq_normalize_iff, fun _ _ => exists_root_of_parse,
    ?_, ?_⟩
  · intro bs
    cases hParse : parse bs with
    | error m => rfl
    | ok d =>
        exact congrArg Except.ok (normalize_of_parse hParse)
  · intro f s
    cases hWrite : f.write s with
    | error p => rfl
    | ok d =>
        exact congrArg Except.ok
          (Form.normalize_of_write hWrite)

end Document

end AutomataStore
