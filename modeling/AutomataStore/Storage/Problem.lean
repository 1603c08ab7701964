import AutomataStore.Markup.Fault
import AutomataStore.Storage.Notice

/-
  Problems of storage and traced results.

  A problem is the cause that ends an encoding or a decoding.
  A traced result carries the notices that were given on the
  way, also when it ends in a problem.

  Key definitions include:
    * `Problem`, `Problem.category`, `Problem.message`
    * `Traced`
-/

------------------------------------------------------------
-- Problems
------------------------------------------------------------

namespace AutomataStore

inductive Problem where
  | malformed (m : Markup.Malformed)
  | missingReference (field : String)
  | badReference (field text : String)
  | refused (fault : EditFault)
  | unreadable (path : String)
  | unsupportedFormat (tag : String)
  | unsupportedStructure (kind : StructureKind)
  | unwritable (path reason : String)
deriving DecidableEq, Repr

/- What a problem is about. -/
inductive ProblemCategory where
  | parseFailure
  | unsupportedFormat
  | unsupportedStructure
  | writeFailure
  | invalidReference
deriving DecidableEq, Repr

namespace Problem

/-
  A decoded reference to a state that was never declared is
  a category of its own; other refusals are parse failures.
-/
def category : Problem → ProblemCategory
  | .malformed _ => .parseFailure
  | .missingReference _ => .parseFailure
  | .badReference _ _ => .parseFailure
  | .refused (.unknownState _) => .invalidReference
  | .refused _ => .parseFailure
  | .unreadable _ => .parseFailure
  | .unsupportedFormat _ => .unsupportedFormat
  | .unsupportedStructure _ => .unsupportedStructure
  | .unwritable _ _ => .writeFailure

/- The cause of a problem without its category. -/
def detail : Problem → String
  | .malformed m => m.message
  | .missingReference field => s!"missing state {field}"
  | .badReference field text =>
      s!"state {field} '{text}' is not an integer"
  | .refused fault => fault.message
  | .unreadable path => s!"could not read {path}"
  | .unsupportedFormat tag => tag
  | .unsupportedStructure kind => kind.display
  | .unwritable path reason => s!"{path}: {reason}"

/- The text of a problem. -/
def message (p : Problem) : String :=
  match p.category with
  | .parseFailure => "Could not parse document: " ++ p.detail
  | .unsupportedFormat =>
      s!"No transducer available for documents of type " ++
        s!"'{p.detail}'"
  | .unsupportedStructure =>
      s!"No transducer available for {p.detail} structures"
  | .writeFailure => "Could not write " ++ p.detail
  | .invalidReference =>
      "Document is inconsistent: " ++ p.detail

end Problem

------------------------------------------------------------
-- Traced Results
------------------------------------------------------------

/- A result or a problem, and the notices before it. -/
structure Traced (α : Type) where
  outcome : Except Problem α
  notices : List Notice := []

namespace Traced

variable {α β : Type}

/- A result without notices. -/
def ok (a : α) : Traced α :=
  ⟨.ok a, []⟩

/- A problem without notices. -/
def fail (p : Problem) : Traced α :=
  ⟨.error p, []⟩

/- Give one notice. -/
def notify (n : Notice) : Traced Unit :=
  ⟨.ok (), [n]⟩

/- A result of an operation on an automaton. -/
def ofEdit (x : Except EditFault α) : Traced α :=
  ⟨x.mapError .refused, []⟩

/- Go on from a result; a problem ends everything. -/
def andThen (x : Traced α) (f : α → Traced β) : Traced β :=
  match x.outcome with
  | .error p => ⟨.error p, x.notices⟩
  | .ok a =>
      let y := f a
      ⟨y.outcome, x.notices ++ y.notices⟩

instance : Monad Traced where
  pure := ok
  bind := andThen

@[simp]
theorem outcome_pure
    (a : α) :
    (pure a : Traced α).outcome = .ok a :=
  rfl

/- Outcomes go on as results without notices do. -/
@[simp]
theorem outcome_bind
    (x : Traced α)
    (f : α → Traced β) :
    (x >>= f).outcome =
      x.outcome.bind fun a => (f a).outcome := by
  change (andThen x f).outcome = _
  unfold andThen
  cases h : x.outcome <;> rfl

end Traced

end AutomataStore
