/-
  Kinds of transitions and their labels.

  Every automaton has one kind.  A label carries what its
  kind needs: the text a transition reads, and for a Mealy
  machine also the text it writes.

  Key definitions include:
    * `TransitionKind`
    * `TransitionKind.tag`, `TransitionKind.ofTag?`
    * `TransitionLabel`

  Correctness is proven by:
    * `TransitionKind.ofTag?_tag`
    * `TransitionKind.tag_of_ofTag?`
-/

------------------------------------------------------------
-- Kinds
------------------------------------------------------------

namespace AutomataStore

/-
  What the transitions of an automaton do: read (finite),
  read and write (Mealy), read towards states that write
  (Moore), or link a grammar variable to one it depends on.
-/
inductive TransitionKind where
  | finite
  | mealy
  | moore
  | dependency
deriving DecidableEq, Inhabited, Repr

namespace TransitionKind

/- Every kind, in the order of registration. -/
def all : List TransitionKind :=
  [.finite, .mealy, .moore, .dependency]

/- The tag of a document that holds an automaton of a kind. -/
def tag : TransitionKind → String
  | .finite => "fa"
  | .mealy => "mealy"
  | .moore => "moore"
  | .dependency => "vdg"

/- The kind that a tag names. -/
def ofTag? (s : String) : Option TransitionKind :=
  all.find? fun k => k.tag = s

/- The tag of a kind names it. -/
theorem ofTag?_tag
    (k : TransitionKind) :
    ofTag? k.tag = some k := by
  cases k <;> decide

/- A tag that names a kind is its tag. -/
theorem tag_of_ofTag?
    {s : String}
    {k : TransitionKind}
    (h : ofTag? s = some k) :
    k.tag = s := by
  simpa using List.find?_some h

end TransitionKind

------------------------------------------------------------
-- Labels
------------------------------------------------------------

inductive TransitionLabel where
  | finite (read : String)
  | mealy (read output : String)
  | moore (read : String)
  | dependency
deriving DecidableEq, Inhabited, Repr

namespace TransitionLabel

/- The kind of automaton a label belongs to. -/
def kind : TransitionLabel → TransitionKind
  | .finite _ => .finite
  | .mealy _ _ => .mealy
  | .moore _ => .moore
  | .dependency => .dependency

/- The text a transition reads, if it reads. -/
def read? : TransitionLabel → Option String
  | .finite read => some read
  | .mealy read _ => some read
  | .moore read => some read
  | .dependency => none

/- The text a transition writes, if it writes. -/
def output? : TransitionLabel → Option String
  | .mealy _ output => some output
  | _ => none

/-
  The label of a kind that reads and writes the given texts,
  as far as the kind does.
-/
def ofKind
    (k : TransitionKind)
    (read output : String) : TransitionLabel :=
  match k with
  | .finite => .finite read
  | .mealy => .mealy read output
  | .moore => .moore read
  | .dependency => .dependency

end TransitionLabel

end AutomataStore
