import AutomataStore.Markup.Reference
import AutomataStore.Text.Utf8

/-
  Faults of marked-up text.

  A fault is a cause; `Fault.message` words it.  A fault at
  a place in the input is a `Malformed` report.

  Key definitions include:
    * `Markup.AttributeFault`
    * `Markup.Fault`
    * `Markup.Malformed`
-/

------------------------------------------------------------
-- Causes
------------------------------------------------------------

namespace AutomataStore

namespace Markup

/-
  Why the attributes of a tag cannot be read.  Places are
  counted in bytes from the start of the tag's content.
-/
inductive AttributeFault where
  | missingEquals (place : Nat)
  | duplicated (place earlier : Nat)
  | missingValue (place : Nat)
  | unquotedValue (place : Nat)
  | missingQuote (place : Nat) (quote : Char)
deriving DecidableEq, Repr

/- The text of an attribute fault. -/
def AttributeFault.message : AttributeFault → String
  | .missingEquals place =>
      s!"position {place}: attribute key must be " ++
        "directly followed by `=` or space"
  | .duplicated place earlier =>
      s!"position {place}: duplicated attribute, " ++
        s!"previous declaration at position {earlier}"
  | .missingValue place =>
      s!"position {place}: `=` must be followed by " ++
        "an attribute value"
  | .unquotedValue place =>
      s!"position {place}: attribute value must be " ++
        "enclosed in `\"` or `'`"
  | .missingQuote place quote =>
      s!"position {place}: missing closing quote " ++
        s!"`{quote}` in attribute value"

/-
  Why bytes are no document.  The first seven causes concern
  one piece of markup, the next two its nesting, then come
  the contents, and the last five concern the tree.
-/
inductive Fault where
  | unknownMarkup
  | unclosedComment
  | unclosedCData
  | unclosedDoctype
  | unclosedInstruction
  | unclosedTag
  | namelessDoctype
  | unopenedClose (name : String)
  | mismatchedClose (expected found : String)
  | attribute (fault : AttributeFault)
  | encoding (fault : Utf8.Fault)
  | reference (fault : Reference.Fault)
  | extraClose
  | extraRoot
  | strayText
  | unclosedElement (tag : String)
  | noRoot
deriving DecidableEq, Repr

/- The text of a fault. -/
def Fault.message : Fault → String
  | .unknownMarkup =>
      "syntax error: unknown or missed symbol in markup"
  | .unclosedComment =>
      "syntax error: comment not closed: " ++
        "`-->` not found before end of input"
  | .unclosedCData =>
      "syntax error: CDATA not closed: " ++
        "`]]>` not found before end of input"
  | .unclosedDoctype =>
      "syntax error: DOCTYPE not closed: " ++
        "`>` not found before end of input"
  | .unclosedInstruction =>
      "syntax error: processing instruction or xml " ++
        "declaration not closed: " ++
        "`?>` not found before end of input"
  | .unclosedTag =>
      "syntax error: tag not closed: " ++
        "`>` not found before end of input"
  | .namelessDoctype =>
      "ill-formed document: `<!DOCTYPE>` declaration " ++
        "does not contain a name of a document type"
  | .unopenedClose name =>
      s!"ill-formed document: close tag `</{name}>` " ++
        "does not match any open tag"
  | .mismatchedClose expected found =>
      s!"ill-formed document: expected `</{expected}>`, " ++
        s!"but `</{found}>` was found"
  | .attribute fault => fault.message
  | .encoding fault =>
      "cannot decode input using UTF-8: " ++ fault.message
  | .reference fault => fault.message
  | .extraClose => "unexpected closing tag"
  | .extraRoot => "more than one root element"
  | .strayText => "text outside the root element"
  | .unclosedElement tag =>
      s!"element <{tag}> is never closed"
  | .noRoot => "document has no root element"

------------------------------------------------------------
-- Reports
------------------------------------------------------------

/- A fault and the number of bytes read when it was found. -/
structure Malformed where
  position : Nat
  fault : Fault
deriving DecidableEq, Repr

/- The text of a report. -/
def Malformed.message (m : Malformed) : String :=
  s!"Malformed document at byte {m.position}: " ++
    m.fault.message

end Markup

end AutomataStore
