import AutomataStore.Markup.Attribute

/-
  Events of a marked-up file.

  An event is a token whose content was decoded and whose
  place among the open elements was checked: an end tag must
  repeat, byte by byte, the name that was opened last.

  Key definitions include:
    * `Markup.Event`
    * `Markup.readToken`
    * `Markup.events`
-/

------------------------------------------------------------
-- Events
------------------------------------------------------------

namespace AutomataStore

namespace Markup

/-
  What a token says about the document.  Character data and
  CDATA are both text.  Declarations, instructions and
  doctypes say nothing.
-/
inductive Event where
  | start (tag : String) (attributes : List Attribute)
  | empty (tag : String) (attributes : List Attribute)
  | finish
  | text (content : String)
  | comment (content : String)
  | skipped
deriving DecidableEq, Repr

/-
  The name of an end tag.  Spaces after the name are left
  out, but a name that is all spaces stays.
-/
def closingName (content : Bytes) : Bytes :=
  if content.all isSpace then
    content
  else
    (content.reverse.dropWhile isSpace).reverse

/- A name inside a message; one that is no UTF-8 is empty. -/
def nameText (name : Bytes) : String :=
  match Utf8.decode name with
  | .ok s => s
  | .error _ => ""

/- Check an end tag against the innermost open name. -/
def closeName
    (opened : List Bytes)
    (content : Bytes) : Except Fault (List Bytes) :=
  let name := closingName content
  match opened with
  | [] => .error (.unopenedClose (nameText name))
  | expected :: rest =>
      if name = expected then
        .ok rest
      else
        .error (.mismatchedClose
          (nameText expected) (nameText name))

/-
  The event of a token while the names `opened` are open,
  innermost first, and the names open after it.
-/
def readToken
    (opened : List Bytes) :
    Token → Except Fault (Event × List Bytes)
  | .text bs => do
      let s ← readText bs
      return (.text s, opened)
  | .opening bs => do
      let attributes ← attributesOf bs
      let name := tagName bs
      return (.start (Utf8.decodeLossy name) attributes,
        name :: opened)
  | .empty bs => do
      let attributes ← attributesOf bs
      return (.empty (Utf8.decodeLossy (tagName bs))
        attributes, opened)
  | .closing bs => do
      let rest ← closeName opened bs
      return (.finish, rest)
  | .comment bs =>
      .ok (.comment (Utf8.decodeLossy bs), opened)
  | .cdata bs =>
      .ok (.text (Utf8.decodeLossy bs), opened)
  | .instruction _ => .ok (.skipped, opened)
  | .doctype _ => .ok (.skipped, opened)

/- The events of tokens while the names `opened` are open. -/
def eventsFrom
    (opened : List Bytes) : Feed Token → Feed Event
  | .complete offset => .complete offset
  | .broken offset fault => .broken offset fault
  | .item t offset rest =>
      match readToken opened t with
      | .ok (e, opened) =>
          .item e offset (eventsFrom opened rest)
      | .error fault => .broken offset fault

/- The events of a file. -/
def events (bs : Bytes) : Feed Event :=
  eventsFrom [] (tokens bs)

end Markup

end AutomataStore
