import AutomataStore.Proofs.LimitedSinks
import AutomataStore.Proofs.Registrations
import AutomataStore.Proofs.SelectedStructures

/-
  Which structures can be encoded.

  A structure can be encoded if its kind has a transducer and
  it is no automaton of kind dependency outside a graph.  The
  question is answered without a document, but exactly then
  there is one: what has a transducer has its kind, and a form
  refuses nothing else of its kind.  Whatever transducers are
  registered and under which tags, the answer is right.

  Key definitions include:
    * `Structure.storedKind`

  Main declarations:
    * `Form.exists_write`
    * `Form.write_of_isBareDependency`
    * `Codec.canEncode_iff`
    * `Codec.exists_documentFor_of_canEncode`
    * `Codec.documentFor_of_not_canEncode`
    * `Codec.encodeTo_eq_ok_iff_canEncode`
-/

------------------------------------------------------------
-- Forms
------------------------------------------------------------

namespace AutomataStore

namespace Form

/-
  A form writes the structures of its kind, but for automata
  of kind dependency outside graphs.
-/
theorem exists_write
    {f : Form}
    {s : Structure}
    (hKind : f.kind = s.kind)
    (hBare : s.isBareDependency = false) :
    ∃ d, f.write s = .ok d := by
  cases f with
  | grammar =>
      cases s with
      | grammar g => exact ⟨_, rfl⟩
      | _ => cases hKind
  | automaton k =>
      cases s with
      | automaton a =>
          have hSame : k = a.kind :=
            StructureKind.automaton.inj hKind
          refine ⟨MachineForm.document a, ?_⟩
          simp [write, Structure.automaton?, hSame, hBare]
      | dependencyGraph g =>
          have hSame : k = g.automaton.kind :=
            (StructureKind.automaton.inj hKind).trans
              g.kind_eq.symm
          refine ⟨MachineForm.document g.automaton, ?_⟩
          simp [write, Structure.automaton?, hSame, hBare]
      | _ => cases hKind

/-
  Every form refuses automata of kind dependency outside
  graphs.
-/
theorem write_of_isBareDependency
    {s : Structure}
    (hBare : s.isBareDependency = true)
    (f : Form) :
    f.write s = .error (.unsupportedStructure s.kind) := by
  cases s with
  | automaton a =>
      cases f with
      | grammar => rfl
      | automaton k =>
          simp [write, Structure.automaton?, hBare]
  | _ => cases hBare

end Form

------------------------------------------------------------
-- Documents
------------------------------------------------------------

/-
  The kind of what is encoded for a structure.  A chooser that
  stands for nothing is refused as a chooser.
-/
def Structure.storedKind (s : Structure) : StructureKind :=
  s.resolve?.elim .chooser kind

namespace Codec

/-
  A structure can be encoded if it stands for one whose kind
  has a transducer, and that is no bare automaton.
-/
theorem canEncode_iff
    {c : Codec}
    {s : Structure} :
    c.canEncode s = true ↔
      ∃ target, s.resolve? = some target ∧
        target.isBareDependency = false ∧
        c.registry.supports target.kind = true := by
  cases hResolve : s.resolve? with
  | none => simp [canEncode, hResolve]
  | some target => simp [canEncode, hResolve]

/- A structure that can be encoded has a document. -/
theorem exists_documentFor_of_canEncode
    {c : Codec}
    {s : Structure}
    (hEncode : c.canEncode s = true) :
    ∃ d, (c.documentFor s).outcome = .ok d := by
  rcases canEncode_iff.mp hEncode with
    ⟨target, hResolve, hBare, hSupports⟩
  rcases Option.isSome_iff_exists.mp hSupports with ⟨t, hKind⟩
  have hForm : t.form.kind = target.kind :=
    Registry.kind_of_ofKind? hKind
  rcases Form.exists_write hForm hBare with ⟨d, hWrite⟩
  refine ⟨d.normalize, ?_⟩
  simp [documentFor, hResolve, Registry.forStructure, hKind,
    Transducer.toDocument, hWrite, Traced.notify, Except.bind]

/-
  A structure that cannot be encoded is refused for the kind
  of what it stands for.
-/
theorem documentFor_of_not_canEncode
    {c : Codec}
    {s : Structure}
    (hEncode : c.canEncode s = false) :
    (c.documentFor s).outcome =
      .error (.unsupportedStructure s.storedKind) := by
  cases hResolve : s.resolve? with
  | none =>
      simp [documentFor, Structure.storedKind, hResolve,
        Traced.fail]
  | some target =>
      cases hKind : c.registry.ofKind? target.kind with
      | none =>
          simp [documentFor, Structure.storedKind, hResolve,
            Registry.forStructure, hKind, Traced.fail,
            Except.bind]
      | some t =>
          have hBare : target.isBareDependency = true := by
            simpa [canEncode, hResolve, Registry.supports,
              hKind] using hEncode
          simp [documentFor, Structure.storedKind, hResolve,
            Registry.forStructure, hKind,
            Transducer.toDocument,
            Form.write_of_isBareDependency hBare,
            Traced.notify, Except.bind]

/- A structure with a document can be encoded. -/
theorem canEncode_of_documentFor
    {c : Codec}
    {s : Structure}
    {d : Document}
    (hDocument : (c.documentFor s).outcome = .ok d) :
    c.canEncode s = true := by
  rw [← Bool.not_eq_false]
  intro hNot
  rw [documentFor_of_not_canEncode hNot] at hDocument
  cases hDocument

------------------------------------------------------------
-- Encoding
------------------------------------------------------------

/-
  Whatever transducers a codec has, a structure is encoded
  exactly if it can be.  Otherwise nothing is written, and the
  structure is refused for the kind of what it stands for.
-/
theorem encodeTo_eq_ok_iff_canEncode
    (c : Codec)
    (s : Structure)
    (sink : Sink)
    (hSink : sink.Unfailing) :
    (c.canEncode s = true ↔
      (c.encodeTo s sink).2.outcome = .ok ()) ∧
    (c.canEncode s = false →
      (c.encodeTo s sink).1 = sink ∧
      (c.encodeTo s sink).2.outcome =
        .error (.unsupportedStructure s.storedKind)) := by
  refine ⟨⟨fun hEncode => ?_, fun hOk => ?_⟩,
    fun hEncode => ?_⟩
  · rcases exists_documentFor_of_canEncode hEncode with
      ⟨d, hDocument⟩
    exact (encodeTo_of_unfailing hDocument hSink).1
  · rcases exists_documentFor_of_encodeTo_eq_ok hOk with
      ⟨d, hDocument, _⟩
    exact canEncode_of_documentFor hDocument
  · rw [encodeTo_of_error (documentFor_of_not_canEncode hEncode)]
    exact ⟨rfl, rfl⟩

/-
  A codec that has dependency graphs under another tag, and
  nothing else.
-/
def sketchbook : Codec :=
  ⟨({} : Registry).register ⟨"sketch", .automaton .dependency⟩,
    {}⟩

/-
  It encodes a dependency graph, but not the automaton of the
  graph, which a chooser selects.
-/
theorem encodeTo_eq_ok_iff_canEncode_sketchbook :
    let bare : Structure :=
      .chooser
        [.grammar ⟨[]⟩, .automaton { kind := .dependency }] 1
    Sink.Unfailing {} ∧
      (sketchbook.encodeTo (.dependencyGraph .empty)
        {}).2.outcome = .ok () ∧
      sketchbook.canEncode bare = false ∧
      (sketchbook.encodeTo bare {}).2.outcome =
        .error
          (.unsupportedStructure (.automaton .dependency)) := by
  intro bare
  have hSink : Sink.Unfailing {} := ⟨rfl, rfl⟩
  have hGraph :=
    encodeTo_eq_ok_iff_canEncode sketchbook
      (.dependencyGraph .empty) {} hSink
  have hBare :=
    encodeTo_eq_ok_iff_canEncode sketchbook bare {} hSink
  have hNot : sketchbook.canEncode bare = false := by cbv
  have hKind :
      bare.storedKind = .automaton .dependency := by
    cbv
  refine ⟨hSink, hGraph.1.mp (by cbv), hNot, ?_⟩
  rw [(hBare.2 hNot).2, hKind]

end Codec

end AutomataStore
