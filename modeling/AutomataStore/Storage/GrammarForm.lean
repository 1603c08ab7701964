import AutomataStore.Storage.MachineForm

/-
  Grammars in documents.

  A document lists productions, each with its two sides.  On
  reading, the elements may stand at any depth, and a side
  that is missing is empty.

  Key definitions include:
    * `GrammarForm.document`
    * `GrammarForm.read`
-/

------------------------------------------------------------
-- Writing
------------------------------------------------------------

namespace AutomataStore

namespace GrammarForm

/- The tag of a document that holds a grammar. -/
def tag : String :=
  "grammar"

/- The element of a production.  Empty sides have one too. -/
def productionElement (p : Production) : Element :=
  { tag := "production"
    children :=
      [(Element.withText "left" p.left).toNode,
       (Element.withText "right" p.right).toNode] }

/- The document of a grammar. -/
def document (g : Grammar) : Document :=
  ⟨{ tag := tag
     children :=
       MachineForm.listed "The list of productions."
         (g.productions.map productionElement) }⟩

------------------------------------------------------------
-- Reading
------------------------------------------------------------

/- The production that an element declares. -/
def readProduction (e : Element) : Production where
  left := (MachineForm.childText? e "left").getD ""
  right := (MachineForm.childText? e "right").getD ""

/- The grammar that a document holds. -/
def read (d : Document) : Grammar :=
  ⟨(d.root.descendantsByTag "production").map
    readProduction⟩

end GrammarForm

end AutomataStore
