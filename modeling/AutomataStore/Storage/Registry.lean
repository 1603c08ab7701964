import AutomataStore.Storage.GrammarForm
import AutomataStore.Text.Quoted

/-
  Transducers and their registry.

  A transducer turns structures of one kind into documents
  and back.  A registry finds the transducer for a structure
  by its kind and the one for a document by its tag; the one
  registered last is found first.

  Key definitions include:
    * `Form`, `Transducer`
    * `Transducer.toDocument`, `Transducer.ofDocument`
    * `Document.typeTag`
    * `Registry`
    * `Registry.forStructure`, `Registry.forDocument`
-/

------------------------------------------------------------
-- Transducers
------------------------------------------------------------

namespace AutomataStore

/- How structures of one kind stand in documents. -/
inductive Form where
  | grammar
  | automaton (kind : TransitionKind)
deriving DecidableEq, Inhabited, Repr

namespace Form

/- The tag of the documents that a form writes. -/
def tag : Form → String
  | .grammar => GrammarForm.tag
  | .automaton kind => kind.tag

/- The kind of structures that have a form. -/
def kind : Form → StructureKind
  | .grammar => .grammar
  | .automaton kind => .automaton kind

/- The document of a structure in a form. -/
def write
    (f : Form)
    (s : Structure) : Except Problem Document :=
  match f with
  | .grammar =>
      match s.grammar? with
      | some g => .ok (GrammarForm.document g)
      | none => .error (.unsupportedStructure s.kind)
  | .automaton kind =>
      match s.automaton? with
      | some a =>
          if a.kind = kind ∧ s.isBareDependency = false then
            .ok (MachineForm.document a)
          else
            .error (.unsupportedStructure s.kind)
      | none => .error (.unsupportedStructure s.kind)

/- The structure in a form that a document holds. -/
def read (f : Form) (d : Document) : Traced Structure := do
  match f with
  | .grammar =>
      let g := GrammarForm.read d
      .notify (.decodedGrammar g.productions.length)
      return .grammar g
  | .automaton kind =>
      let a ← MachineForm.read kind d
      .notify (.decodedAutomaton kind
        a.states.length a.transitions.length)
      return .ofAutomaton a

end Form

/- A form and the tag under which documents ask for it. -/
structure Transducer where
  tag : String
  form : Form
deriving DecidableEq, Inhabited, Repr

namespace Transducer

/- A form under the tag of the documents it writes. -/
def ofForm (f : Form) : Transducer :=
  ⟨f.tag, f⟩

/- The kind of structures a transducer encodes. -/
def kind (t : Transducer) : StructureKind :=
  t.form.kind

/- The document of a structure. -/
def toDocument
    (t : Transducer)
    (s : Structure) : Except Problem Document :=
  t.form.write s

/- The structure that a document holds. -/
def ofDocument
    (t : Transducer)
    (d : Document) : Traced Structure :=
  t.form.read d

end Transducer

------------------------------------------------------------
-- Types of Documents
------------------------------------------------------------

/-
  The tag that says what a document holds: its root tag, or
  in a document wrapped in `structure` the text of the first
  `type` element.
-/
def Document.typeTag (d : Document) : String :=
  if d.root.tag = "structure" then
    match d.root.child? "type" with
    | some e => Text.trim e.text
    | none => d.root.tag
  else
    d.root.tag

------------------------------------------------------------
-- Registries
------------------------------------------------------------

/- The transducers that were registered, newest first. -/
structure Registry where
  newestFirst : List Transducer := []
deriving DecidableEq, Inhabited, Repr

namespace Registry

/-
  Register a transducer in place of earlier ones for the same
  kind, and in place of earlier ones with the same tag.
-/
def register (r : Registry) (t : Transducer) : Registry :=
  ⟨t :: r.newestFirst⟩

/- The registry of the transducers in a list. -/
def ofList (ts : List Transducer) : Registry :=
  ts.foldl register {}

/- The registry of all forms under their own tags. -/
def standard : Registry :=
  ofList (.ofForm .grammar ::
    TransitionKind.all.map fun k => .ofForm (.automaton k))

/- The transducer for structures of a kind. -/
def ofKind?
    (r : Registry)
    (k : StructureKind) : Option Transducer :=
  r.newestFirst.find? fun t => t.kind = k

/- The transducer for documents with a tag. -/
def ofTag? (r : Registry) (tag : String) : Option Transducer :=
  r.newestFirst.find? fun t => t.tag = tag

/- Whether structures of a kind have a transducer. -/
def supports (r : Registry) (k : StructureKind) : Bool :=
  (r.ofKind? k).isSome

/- Choose the transducer for a structure. -/
def forStructure
    (r : Registry)
    (s : Structure) : Traced Transducer :=
  match r.ofKind? s.kind with
  | none => .fail (.unsupportedStructure s.kind)
  | some t => do
      .notify (.choseForStructure s.kind t.tag)
      return t

/- Choose the transducer for a document. -/
def forDocument
    (r : Registry)
    (d : Document) : Traced Transducer :=
  match r.ofTag? d.typeTag with
  | none => .fail (.unsupportedFormat d.typeTag)
  | some t => do
      .notify (.choseForDocument d.typeTag)
      return t

/- The tags of the transducers, each once, in order. -/
def tags (r : Registry) : List String :=
  ((r.newestFirst.map Transducer.tag).eraseDups).mergeSort
    fun s t => decide (s ≤ t)

/- A registry as it is shown. -/
def display (r : Registry) : String :=
  "TransducerRegistry \x7b tags: [" ++
    ", ".intercalate (r.tags.map Text.quoted) ++ "] \x7d"

end Registry

end AutomataStore
