import AutomataStore.Document.Tree
import AutomataStore.Markup.Event

/-
  Reading documents.

  Events are assembled with a stack of open elements.  An
  element that closes loses its gaps and becomes a child of
  the element around it, or the root.  Comments outside the
  root are dropped, blank text outside it is ignored.

  Key definitions include:
    * `Document.assemble`
    * `Document.parse`
-/

------------------------------------------------------------
-- Open Elements
------------------------------------------------------------

namespace AutomataStore

open Markup (Attribute Event Fault Malformed Feed)

/- An element whose end was not reached, newest child first. -/
structure OpenElement where
  tag : String
  attributes : List Attribute
  newestFirst : List Node := []
deriving DecidableEq, Repr

namespace OpenElement

/- Add a child at the end. -/
def append (e : OpenElement) (n : Node) : OpenElement :=
  { e with newestFirst := n :: e.newestFirst }

/- The finished element, without its gaps. -/
def close (e : OpenElement) : Element :=
  Element.dropGaps
    ⟨e.tag, e.attributes, e.newestFirst.reverse⟩

end OpenElement

------------------------------------------------------------
-- Assembling
------------------------------------------------------------

/-
  What was read so far: the open elements, innermost first,
  and the root once it is complete.
-/
structure Assembly where
  opened : List OpenElement := []
  root : Option Element := none
deriving DecidableEq, Repr

namespace Assembly

/- Add a node to the innermost open element, if there is one. -/
def appendNode (a : Assembly) (n : Node) : Assembly :=
  match a.opened with
  | [] => a
  | parent :: outer =>
      { a with opened := parent.append n :: outer }

/- Put a finished element where it belongs. -/
def place
    (a : Assembly)
    (e : Element) : Except Fault Assembly :=
  match a.opened, a.root with
  | _ :: _, _ => .ok (a.appendNode e.toNode)
  | [], none => .ok { a with root := some e }
  | [], some _ => .error .extraRoot

/- Take in one event. -/
def step (a : Assembly) : Event → Except Fault Assembly
  | .start tag attributes =>
      .ok { a with
        opened := { tag, attributes } :: a.opened }
  | .empty tag attributes =>
      a.place { tag, attributes }
  | .finish =>
      match a.opened with
      | [] => .error .extraClose
      | e :: outer =>
          place { a with opened := outer } e.close
  | .text content =>
      if a.opened = [] ∧ ¬ Text.IsBlankText content then
        .error .strayText
      else
        .ok (a.appendNode (.text content))
  | .comment content =>
      .ok (a.appendNode (.comment content))
  | .skipped => .ok a

/- The document, once all events were taken in. -/
def finish
    (a : Assembly)
    (offset : Nat) : Except Malformed Document :=
  match a.opened, a.root with
  | e :: _, _ => .error ⟨offset, .unclosedElement e.tag⟩
  | [], some root => .ok ⟨root⟩
  | [], none => .error ⟨0, .noRoot⟩

end Assembly

namespace Document

/- Assemble the document that a feed of events spells. -/
def assemble
    (a : Assembly) : Feed Event → Except Malformed Document
  | .complete offset => a.finish offset
  | .broken offset fault => .error ⟨offset, fault⟩
  | .item e offset rest =>
      match a.step e with
      | .ok a => assemble a rest
      | .error fault => .error ⟨offset, fault⟩

/- The document that bytes spell. -/
def parse (bs : Bytes) : Except Malformed Document :=
  assemble {} (Markup.events bs)

end Document

end AutomataStore
