import AutomataStore.Structure

/-
  Notices.

  A notice tells what happened on the way to a result: which
  transducer was chosen, what was decoded or written, and
  which parts of a document look wrong.

  Key definitions include:
    * `Notice`
    * `Notice.level`, `Notice.fields`
-/

------------------------------------------------------------
-- Notices
------------------------------------------------------------

namespace AutomataStore

inductive Notice where
  | choseForStructure (kind : StructureKind) (tag : String)
  | choseForDocument (tag : String)
  | secondInitial (first ignored : StateId)
  | missingReference (field : String)
  | badReference (field value : String)
  | decodedAutomaton
      (kind : TransitionKind)
      (states transitions : Nat)
  | decodedGrammar (productions : Nat)
  | decodedDocument (tag : String)
  | encodedStructure (path tag : String)
deriving DecidableEq, Repr

/- How serious a notice is. -/
inductive NoticeLevel where
  | debug
  | warning
deriving DecidableEq, Repr

namespace Notice

/- Parts of a document that look wrong are warnings. -/
def level : Notice → NoticeLevel
  | .secondInitial _ _ => .warning
  | .missingReference _ => .warning
  | .badReference _ _ => .warning
  | _ => .debug

/- The sentence of a notice. -/
def message : Notice → String
  | .choseForStructure _ _ =>
      "selected transducer for structure"
  | .choseForDocument _ =>
      "selected transducer for document"
  | .secondInitial _ _ =>
      "second initial state marker, keeping the first"
  | .missingReference _ => "missing state reference"
  | .badReference _ _ => "state reference is not an integer"
  | .decodedAutomaton _ _ _ => "decoded automaton"
  | .decodedGrammar _ => "decoded grammar"
  | .decodedDocument _ => "decoded document"
  | .encodedStructure _ _ => "encoded structure"

/- The facts of a notice by name, its sentence among them. -/
def fields (n : Notice) : List (String × String) :=
  ("message", n.message) ::
    match n with
    | .choseForStructure kind tag =>
        [("kind", kind.display), ("tag", tag)]
    | .choseForDocument tag => [("tag", tag)]
    | .secondInitial first ignored =>
        [("first", first.display),
         ("ignored", ignored.display)]
    | .missingReference field => [("field", field)]
    | .badReference field value =>
        [("field", field), ("value", value)]
    | .decodedAutomaton kind states transitions =>
        [("kind", kind.tag),
         ("states", Numeral.decimal states),
         ("transitions", Numeral.decimal transitions)]
    | .decodedGrammar productions =>
        [("productions", Numeral.decimal productions)]
    | .decodedDocument tag => [("tag", tag)]
    | .encodedStructure path tag =>
        [("path", path), ("tag", tag)]

end Notice

end AutomataStore
