import AutomataStore.Machine.Component
import AutomataStore.Storage.Codec

/-
  Summaries of files.

  A summary lists the connected components of the automaton
  in a file, by the names of its states.  Of a grammar it
  lists the components of the dependency graph.

  Key definitions include:
    * `Summary.ofAutomaton`
    * `Summary.ofStructure`
    * `Summary.ofSource`
-/

------------------------------------------------------------
-- Summaries
------------------------------------------------------------

namespace AutomataStore

/-
  What is printed, and the problem that ended it, if there
  was one.
-/
structure Summary where
  output : String
  problem : Option Problem := none
deriving DecidableEq, Repr

/- What a summary is made of. -/
inductive SummarySource where
  | builtIn
  | file (path : String) (content : Option Bytes)
deriving DecidableEq, Repr

namespace Summary

/- A file that ends in a problem has an exit code of its own. -/
def exitCode (s : Summary) : UInt32 :=
  if s.problem.isSome then 101 else 0

/- Put a text in front of what is printed. -/
def after (s : Summary) (text : String) : Summary :=
  { s with output := text ++ s.output }

/- The names of the states in a set, in order of their ids. -/
def names (a : Automaton) (s : StateSet) : List String :=
  (s.members.filterMap a.state?).map State.name

/- The lines for sets, counted from a number. -/
def setLines
    (a : Automaton)
    (n : Nat) : List StateSet → List String
  | [] => []
  | s :: rest =>
      ("Set " ++ Numeral.decimal n ++ ": " ++
          ", ".intercalate (names a s) ++ "\n") ::
        setLines a (n + 1) rest

/- The components of an automaton. -/
def ofAutomaton (a : Automaton) : Summary where
  output := a.kind.tag ++ " automaton with " ++
    Numeral.decimal a.states.length ++ " states\n\n" ++
    String.join (setLines a 1 a.disjointSets)

/- The components of a grammar's dependency graph. -/
def ofGrammar (g : Grammar) : Summary :=
  let heading := "Grammar with " ++
    Numeral.decimal g.productions.length ++ " productions\n"
  match g.dependencyGraph .uppercase with
  | .ok d => (ofAutomaton d.automaton).after heading
  | .error fault => ⟨heading, some (.refused fault)⟩

/- The components of what a structure stands for. -/
def ofStructure (s : Structure) : Summary :=
  match s.resolve? with
  | none => ⟨"Nothing selected\n", none⟩
  | some (.grammar g) => ofGrammar g
  | some target =>
      match target.automaton? with
      | some a => ofAutomaton a
      | none => ⟨"Nothing to analyze\n", none⟩

------------------------------------------------------------
-- Sources
------------------------------------------------------------

/- The heading of every summary. -/
def title : String :=
  "=== Disjoint Sets Example ===\n\n"

/- An automaton with two components, as a file. -/
def sample : String :=
  "<?xml version=\"1.0\" encoding=\"UTF-8\" " ++
    "standalone=\"no\"?>\n<fa>\n" ++
    "  <state id=\"0\" name=\"q0\"><initial/></state>\n" ++
    "  <state id=\"1\" name=\"q1\"><final/></state>\n" ++
    "  <state id=\"2\" name=\"q2\"/>\n" ++
    "  <state id=\"3\" name=\"q3\"/>\n" ++
    "  <transition><from>0</from><to>1</to>" ++
    "<read>a</read></transition>\n" ++
    "  <transition><from>2</from><to>3</to>" ++
    "<read>b</read></transition>\n</fa>"

/- The line that says what is summarized. -/
def sourceLine : SummarySource → String
  | .builtIn => "No file given, using the built-in sample\n"
  | .file path _ => "Decoding " ++ path ++ "\n"

/- Decode what a source holds. -/
def decode : SummarySource → Except Problem Structure
  | .builtIn => (Codec.decode {} (Utf8.encode sample)).outcome
  | .file path none => .error (.unreadable path)
  | .file _ (some content) =>
      (Codec.decode {} content).outcome

/- The summary of what a source holds. -/
def ofSource (s : SummarySource) : Summary :=
  let heading := title ++ sourceLine s
  match decode s with
  | .ok found => (ofStructure found).after heading
  | .error p => ⟨heading, some p⟩

end Summary

end AutomataStore
