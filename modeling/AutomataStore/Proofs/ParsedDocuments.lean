import AutomataStore.Proofs.EncodedPieces
import AutomataStore.Proofs.RecursiveReading
import AutomataStore.Proofs.WrittenDocuments

/-
  What parsing a text gives.

  A document that was parsed from a text has no gaps, no
  element with two attributes of one name and no comment that
  contains its end.  It can be written if its elements and
  attributes have names.

  Key definitions include:
    * `Event.OfText`
    * `Node.Spelled`, `Node.Named`

  Main declarations:
    * `Markup.spelled_forestOf`
    * `Document.spelled_of_parse`
    * `Document.normalize_of_parse`
-/

------------------------------------------------------------
-- Events
------------------------------------------------------------

namespace AutomataStore

open Markup

namespace Markup

/-
  An event of text: its attributes have distinct names, and a
  comment does not contain its end.
-/
def Event.OfText : Event → Prop
  | .start _ attributes =>
      (attributes.map Attribute.name).Nodup
  | .empty _ attributes =>
      (attributes.map Attribute.name).Nodup
  | .comment content => IsCommentText content
  | _ => True

/- The bytes of a text that contains a mark contain it. -/
theorem mark_infix_encode
    {ms : List Char}
    (hms : IsAscii ms)
    {s : String}
    (h : ms <:+: s.toList) :
    mark ms <:+: Utf8.encode s := by
  rcases h with ⟨front, back, hChars⟩
  refine
    ⟨Utf8.encodeChars front, Utf8.encodeChars back, ?_⟩
  rw [Utf8.encode, ← hChars, Utf8.encodeChars_append,
    Utf8.encodeChars_append, encodeChars_eq_mark hms]

/- A token of text that is read is an event of text. -/
theorem ofText_of_readToken
    {opened opened' : List Bytes}
    {t : Token}
    {e : Event}
    (hText : t.OfText)
    (hRead : readToken opened t = .ok (e, opened')) :
    e.OfText := by
  cases t with
  | text bs =>
      simp only [readToken] at hRead
      cases h : readText bs <;> rw [h] at hRead <;> cases hRead
      trivial
  | opening bs | empty bs =>
      simp only [readToken] at hRead
      cases h : attributesOf bs <;> rw [h] at hRead <;>
        cases hRead
      exact nodup_of_attributesOf hText.1 h
  | closing bs =>
      simp only [readToken] at hRead
      cases h : closeName opened bs <;> rw [h] at hRead <;>
        cases hRead
      trivial
  | comment bs =>
      cases hRead
      intro hEnd
      have hInner :=
        mark_infix_encode (by decide) hEnd
      have hBytes : Utf8.IsEncoded bs := hText.1
      rw [(Utf8.decode_of_isEncoded hBytes).2] at hInner
      exact hText.2 bs rfl hInner
  | cdata bs | instruction bs | doctype bs =>
      cases hRead
      trivial

/- Tokens of text are read as events of text. -/
theorem ofText_of_mem_eventsFrom
    {opened : List Bytes}
    {f : Feed Token}
    (hText : ∀ t ∈ f.items, t.OfText)
    {e : Event}
    (he : e ∈ (eventsFrom opened f).items) :
    e.OfText := by
  induction f generalizing opened with
  | complete offset => cases he
  | broken offset fault => cases he
  | item t offset rest ih =>
      simp only [Feed.items, List.forall_mem_cons] at hText
      simp only [eventsFrom] at he
      cases hRead : readToken opened t with
      | error fault =>
          rw [hRead] at he
          cases he
      | ok next =>
          rw [hRead] at he
          rcases List.mem_cons.mp he with rfl | he
          · exact ofText_of_readToken hText.1 hRead
          · exact ih hText.2 he

/- The events of a file of text are of text. -/
theorem ofText_of_mem_events
    {bs : Bytes}
    (hText : Utf8.IsEncoded bs)
    {e : Event}
    (he : e ∈ (events bs).items) :
    e.OfText :=
  ofText_of_mem_eventsFrom
    (fun _ ht => ofText_of_mem_tokens hText ht) he

end Markup

------------------------------------------------------------
-- Forests
------------------------------------------------------------

namespace Node

/-
  A forest that markup can spell: no element has two
  attributes of one name, and no comment contains its end.
-/
def Spelled : List Node → Prop
  | [] => True
  | .element _ attributes children :: rest =>
      (attributes.map Attribute.name).Nodup ∧
        Spelled children ∧ Spelled rest
  | .text _ :: rest => Spelled rest
  | .comment content :: rest =>
      IsCommentText content ∧ Spelled rest

/- The elements of a forest and their attributes have names. -/
def Named : List Node → Prop
  | [] => True
  | .element tag attributes children :: rest =>
      IsName tag ∧ (∀ a ∈ attributes, IsName a.name) ∧
        Named children ∧ Named rest
  | .text _ :: rest => Named rest
  | .comment _ :: rest => Named rest

/- A forest that is spelled by names can be written. -/
theorem writable_of_spelled
    {nodes : List Node}
    (hSpelled : Spelled nodes)
    (hNamed : Named nodes) :
    Writable nodes := by
  induction nodes using forestInduction with
  | nil => simp [Writable]
  | element tag attributes children rest ihInner ihRest =>
      simp only [Spelled] at hSpelled
      simp only [Named] at hNamed
      simp only [Writable, NamesApart]
      exact ⟨hNamed.1, ⟨hNamed.2.1, hSpelled.1⟩,
        ihInner hSpelled.2.1 hNamed.2.2.1,
        ihRest hSpelled.2.2 hNamed.2.2.2⟩
  | text content rest ih =>
      simp only [Spelled] at hSpelled
      simp only [Named] at hNamed
      simp only [Writable]
      exact ih hSpelled hNamed
  | comment content rest ih =>
      simp only [Spelled] at hSpelled
      simp only [Named] at hNamed
      simp only [Writable]
      exact ⟨hSpelled.1, ih hSpelled.2 hNamed⟩

/- Leaving out blank texts keeps a forest spelled. -/
theorem spelled_dropGaps
    {nodes : List Node}
    (h : Spelled nodes) :
    Spelled (dropGaps nodes) := by
  have hFilter :
      Spelled (nodes.filter fun n => !n.isBlankText) := by
    induction nodes using forestInduction with
    | nil => exact h
    | element tag attributes children rest _ ih =>
        simp only [Spelled] at h
        simp only [List.filter_cons, isBlankText_element,
          Bool.not_false, if_true, Spelled]
        exact ⟨h.1, h.2.1, ih h.2.2⟩
    | text content rest ih =>
        simp only [Spelled] at h
        rw [List.filter_cons]
        split
        · simp only [Spelled]
          exact ih h
        · exact ih h
    | comment content rest ih =>
        simp only [Spelled] at h
        simp only [List.filter_cons, isBlankText_comment,
          Bool.not_false, if_true, Spelled]
        exact ⟨h.1, ih h.2⟩
  unfold dropGaps
  split
  · exact hFilter
  · exact h

/- Leaving out gaps inside keeps a forest spelled. -/
theorem spelled_normalizeInside
    {nodes : List Node}
    (h : Spelled nodes) :
    Spelled (normalizeInside nodes) := by
  induction nodes using forestInduction with
  | nil => simp [normalizeInside, Spelled]
  | element tag attributes children rest ihInner ihRest =>
      simp only [Spelled] at h
      simp only [normalizeInside, Spelled]
      exact ⟨h.1, spelled_dropGaps (ihInner h.2.1),
        ihRest h.2.2⟩
  | text content rest ih =>
      simp only [Spelled] at h
      simp only [normalizeInside, Spelled]
      exact ih h
  | comment content rest ih =>
      simp only [Spelled] at h
      simp only [normalizeInside, Spelled]
      exact ⟨h.1, ih h.2⟩

/- An element of a spelled forest is spelled. -/
theorem spelled_of_mem_elements
    {nodes : List Node}
    (h : Spelled nodes)
    {e : Element}
    (he : e ∈ elements nodes) :
    Spelled [e.toNode] := by
  induction nodes using forestInduction with
  | nil => simp [elements] at he
  | element tag attributes children rest _ ih =>
      simp only [Spelled] at h
      simp only [elements, List.mem_cons] at he
      rcases he with rfl | he
      · simp only [Element.toNode, Spelled, and_true]
        exact ⟨h.1, h.2.1⟩
      · exact ih h.2.2 he
  | text content rest ih =>
      simp only [Spelled] at h
      exact ih h (by simpa [elements] using he)
  | comment content rest ih =>
      simp only [Spelled] at h
      exact ih h.2 (by simpa [elements] using he)

end Node

namespace Markup

/- What is left after reading is the end of the events. -/
theorem restOf_suffix
    (events : List Event) :
    restOf events <:+ events := by
  induction events using readingInduction with
  | nil => simp only [read_nil, List.suffix_refl]
  | finish events => simp only [read_finish, List.suffix_refl]
  | start tag attributes events ih ihTail =>
      simp only [read_start]
      exact ((ihTail.trans (List.tail_suffix _)).trans ih).trans
        (List.suffix_cons ..)
  | empty tag attributes events ih =>
      simp only [read_empty]
      exact ih.trans (List.suffix_cons ..)
  | text content events ih =>
      simp only [read_text]
      exact ih.trans (List.suffix_cons ..)
  | comment content events ih =>
      simp only [read_comment]
      exact ih.trans (List.suffix_cons ..)
  | skipped events ih =>
      simp only [read_skipped]
      exact ih.trans (List.suffix_cons ..)

/- Events of text are read as a spelled forest. -/
theorem spelled_forestOf
    {events : List Event}
    (hText : ∀ e ∈ events, e.OfText) :
    Node.Spelled (forestOf events) := by
  induction events using readingInduction with
  | nil => simp only [read_nil, Node.Spelled]
  | finish events => simp only [read_finish, Node.Spelled]
  | start tag attributes events ih ihTail =>
      rw [List.forall_mem_cons] at hText
      have hTail :=
        (List.tail_suffix _).trans (restOf_suffix events)
      simp only [read_start, Node.Spelled]
      exact ⟨hText.1, ih hText.2,
        ihTail fun e he => hText.2 e (hTail.subset he)⟩
  | empty tag attributes events ih =>
      rw [List.forall_mem_cons] at hText
      simp only [read_empty, Node.Spelled]
      exact ⟨hText.1, trivial, ih hText.2⟩
  | text content events ih =>
      rw [List.forall_mem_cons] at hText
      simp only [read_text, Node.Spelled]
      exact ih hText.2
  | comment content events ih =>
      rw [List.forall_mem_cons] at hText
      simp only [read_comment, Node.Spelled]
      exact ⟨hText.1, ih hText.2⟩
  | skipped events ih =>
      rw [List.forall_mem_cons] at hText
      simp only [read_skipped]
      exact ih hText.2

end Markup

------------------------------------------------------------
-- Documents
------------------------------------------------------------

namespace Document

/- A document is assembled only from a feed without a fault. -/
theorem complete_of_assemble
    {a : Assembly}
    {f : Feed Event}
    {d : Document}
    (hParse : assemble a f = .ok d) :
    f.Complete := by
  induction f generalizing a with
  | complete offset => rfl
  | broken offset fault => cases hParse
  | item e offset rest ih =>
      rw [assemble] at hParse
      split at hParse
      · exact ih hParse
      · cases hParse

/-
  What is parsed is one of the elements that the events are
  read as, without its gaps.
-/
theorem exists_root_of_parse
    {bs : Bytes}
    {d : Document}
    (hParse : parse bs = .ok d) :
    ∃ root ∈ Node.elements (forestOf (events bs).items),
      d = normalize ⟨root⟩ := by
  have hComplete := complete_of_assemble hParse
  rw [parse_eq_ok_iff_foldlM hComplete] at hParse
  have hRoot :=
    ((Assembly.foldlM_step_root_iff (balanced_events bs) none
      d.root).mp hParse).1
  rw [Option.toList_none, List.nil_append,
    List.map_eq_singleton_iff] at hRoot
  rcases hRoot with ⟨root, hElements, hNormal⟩
  refine ⟨root, by simp [hElements], ?_⟩
  rw [normalize, hNormal]

/- What is parsed has no gaps. -/
theorem normalize_of_parse
    {bs : Bytes}
    {d : Document}
    (hParse : parse bs = .ok d) :
    d.normalize = d := by
  rcases exists_root_of_parse hParse with ⟨root, _, rfl⟩
  exact congrArg Document.mk root.normalize_normalize

/- What is parsed from text can be spelled. -/
theorem spelled_of_parse
    {bs : Bytes}
    (hText : Utf8.IsEncoded bs)
    {d : Document}
    (hParse : parse bs = .ok d) :
    Node.Spelled [d.root.toNode] := by
  rcases exists_root_of_parse hParse with ⟨root, hRoot, rfl⟩
  have hForest :=
    spelled_forestOf fun _ he => ofText_of_mem_events hText he
  have hElement :=
    Node.spelled_normalizeInside
      (Node.spelled_of_mem_elements hForest hRoot)
  simp only [Element.toNode, Node.normalizeInside]
    at hElement
  exact hElement

/- What is parsed from text with names can be written. -/
theorem writable_of_parse
    {bs : Bytes}
    (hText : Utf8.IsEncoded bs)
    {d : Document}
    (hParse : parse bs = .ok d)
    (hNamed : Node.Named [d.root.toNode]) :
    d.Writable :=
  Node.writable_of_spelled (spelled_of_parse hText hParse)
    hNamed

end Document

end AutomataStore
