import AutomataStore.Proofs.ReadDocuments
import AutomataStore.Storage.Codec

/-
  Structures are read back from the files they are kept in.

  Grammars, well-formed automata and graphs over well-formed
  automata have a form.  They are written as regular
  documents, which are parsed as they are in every layout,
  and read back from them by the transducer of their form.

  Key definitions include:
    * `Structure.Storable`
    * `Sink.Unfailing`

  Main declarations:
    * `Codec.encodeTo_of_unfailing`
    * `Codec.exists_documentFor_of_storable`
    * `Codec.decode_of_encodeTo`
-/

------------------------------------------------------------
-- Sinks that Never Fail
------------------------------------------------------------

namespace AutomataStore

open Markup (Token)

namespace Sink

/- A sink that takes bytes without limit and can be flushed. -/
def Unfailing (s : Sink) : Prop :=
  s.room = none ∧ s.refusesFlush = false

/- Every chunk is written into a sink without limit. -/
theorem writeAll_of_room_eq_none
    {s : Sink}
    (hRoom : s.room = none)
    (chunks : List Bytes) :
    s.writeAll chunks =
      ({ s with
        newestFirst := chunks.reverse ++ s.newestFirst },
        .ok ()) := by
  induction chunks generalizing s with
  | nil => rfl
  | cons chunk chunks ih =>
      have hWrite :
          s.write chunk =
            ({ s with newestFirst := chunk :: s.newestFirst },
              .ok ()) := by
        simp only [write, hRoom]
      have hNext :
          Sink.room
              { s with newestFirst := chunk :: s.newestFirst } =
            none :=
        hRoom
      rw [writeAll, hWrite]
      simp only
      rw [ih hNext]
      simp

end Sink

namespace Document

/- The chunks of a document are its bytes. -/
theorem flatten_chunks
    (ts : List Token) :
    (ts.flatMap Token.chunks).flatten =
      ts.flatMap Token.spell := by
  induction ts with
  | nil => rfl
  | cons t ts ih =>
      rw [List.flatMap_cons, List.flatten_append, ih,
        List.flatMap_cons]
      simp [Token.chunks, Token.spell]

/- A sink that never fails takes the bytes of a document. -/
theorem writeTo_of_unfailing
    (d : Document)
    (l : Layout)
    {s : Sink}
    (hs : s.Unfailing) :
    (d.writeTo l s).2 = .ok () ∧
      (d.writeTo l s).1.held = s.held ++ d.toBytes l := by
  have hAll :=
    Sink.writeAll_of_room_eq_none hs.1
      ((d.toTokens l).flatMap Token.chunks)
  simp only [writeTo, hAll]
  constructor
  · simp [Sink.flush, hs.2]
  · simp only [Sink.held, List.reverse_append,
      List.reverse_reverse, List.flatten_append,
      flatten_chunks]
    rfl

end Document

namespace Codec

/-
  A sink that never fails takes the document of a structure,
  laid out as the options ask.
-/
theorem encodeTo_of_unfailing
    {c : Codec}
    {s : Structure}
    {d : Document}
    (hDocument : (c.documentFor s).outcome = .ok d)
    {sink : Sink}
    (hSink : sink.Unfailing) :
    (c.encodeTo s sink).2.outcome = .ok () ∧
      (c.encodeTo s sink).1.held =
        sink.held ++ d.toBytes c.options.layout := by
  have hWrite :=
    d.writeTo_of_unfailing c.options.layout hSink
  simp only [encodeTo, hDocument]
  refine ⟨?_, hWrite.2⟩
  rw [hWrite.1]
  rfl

end Codec

------------------------------------------------------------
-- Forms of Structures
------------------------------------------------------------

/-
  What a file can hold: a grammar, a well-formed automaton of
  a kind other than dependency, or a dependency graph over a
  well-formed automaton.
-/
def Structure.Storable : Structure → Prop
  | .automaton a => a.kind ≠ .dependency ∧ a.WellFormed
  | .dependencyGraph g => g.automaton.WellFormed
  | .grammar _ => True
  | .chooser _ _ => False

namespace Registry

/- The transducer for structures that have a form. -/
theorem ofKind?_standard
    (f : Form) :
    standard.ofKind? f.kind = some (.ofForm f) := by
  cases f with
  | grammar => rfl
  | automaton k => cases k <;> rfl

/- The transducer for documents in a form. -/
theorem ofTag?_standard
    (f : Form) :
    standard.ofTag? f.tag = some (.ofForm f) := by
  cases f with
  | grammar => decide
  | automaton k => cases k <;> decide

end Registry

/- The document of an automaton says what its kind is. -/
theorem MachineForm.typeTag_document
    (a : Automaton) :
    (document a).typeTag = a.kind.tag := by
  have hTag : a.kind.tag ≠ "structure" := by
    cases a.kind <;> decide
  rw [Document.typeTag, document, if_neg hTag]

/- The document of a grammar says that it is one. -/
theorem GrammarForm.typeTag_document
    (g : Grammar) :
    (document g).typeTag = tag := by
  have hTag : tag ≠ "structure" := by decide
  rw [Document.typeTag, document, if_neg hTag]

/- An automaton is read in the form of its kind. -/
theorem Form.outcome_read_automaton
    {a : Automaton}
    (ha : a.WellFormed) :
    ((automaton a.kind).read
        (MachineForm.document a)).outcome =
      .ok (.ofAutomaton a) := by
  rw [outcome_read_eq_map, MachineForm.read_document ha]
  rfl

namespace Structure

/-
  A structure that can be stored is written in some form as a
  regular document of that form, and read back from it.
-/
theorem exists_form_of_storable
    {s : Structure}
    (hs : s.Storable) :
    ∃ (f : Form) (d : Document),
      s.kind = f.kind ∧ f.write s = .ok d ∧ d.Regular ∧
      d.typeTag = f.tag ∧ (f.read d).outcome = .ok s := by
  cases s with
  | automaton a =>
      have hRead := Form.outcome_read_automaton hs.2
      rw [ofAutomaton, dif_neg hs.1] at hRead
      refine ⟨.automaton a.kind, MachineForm.document a, rfl,
        ?_, MachineForm.regular_document a,
        MachineForm.typeTag_document a, hRead⟩
      simp [Form.write, automaton?, isBareDependency, hs.1]
  | dependencyGraph g =>
      have hRead := Form.outcome_read_automaton hs
      rw [ofAutomaton, dif_pos g.kind_eq] at hRead
      refine ⟨.automaton g.automaton.kind,
        MachineForm.document g.automaton, ?_, ?_,
        MachineForm.regular_document g.automaton,
        MachineForm.typeTag_document g.automaton, hRead⟩
      · simp [kind, Form.kind, g.kind_eq]
      · simp [Form.write, automaton?, isBareDependency]
  | grammar g =>
      refine ⟨.grammar, GrammarForm.document g, rfl, rfl,
        GrammarForm.regular_document g,
        GrammarForm.typeTag_document g, ?_⟩
      simp only [Form.read, GrammarForm.read_document]
      rfl
  | chooser options selected => exact hs.elim

/- A structure that can be stored stands for itself. -/
theorem resolve?_of_storable
    {s : Structure}
    (hs : s.Storable) :
    s.resolve? = some s := by
  cases s with
  | chooser options selected => exact hs.elim
  | _ => simp [resolve?, resolveAt?]

end Structure

------------------------------------------------------------
-- The Round Trip
------------------------------------------------------------

namespace Codec

/-
  Every layout of a regular document of a form is decoded as
  the form reads it.
-/
theorem outcome_decode_eq_read
    (f : Form)
    {d : Document}
    (hRegular : d.Regular)
    (hTag : d.typeTag = f.tag)
    (o : CodecOptions)
    (l : Layout) :
    (decode ⟨.standard, o⟩ (d.toBytes l)).outcome =
      (f.read d).outcome := by
  have hParse :
      (parse (d.toBytes l)).outcome = .ok d := by
    rw [parse, Document.parse_toBytes_of_regular hRegular]
    rfl
  have hChoose :
      (Registry.standard.forDocument d).outcome =
        .ok (.ofForm f) := by
    rw [Registry.forDocument, hTag,
      Registry.ofTag?_standard]
    rfl
  simp only [decode, Traced.outcome_bind, hParse,
    Except.bind, hChoose, Transducer.ofForm,
    Transducer.ofDocument]
  cases (f.read d).outcome <;> rfl

/-
  A structure that can be stored has a document, and is
  decoded from every layout of it.
-/
theorem exists_documentFor_of_storable
    {s : Structure}
    (hs : s.Storable)
    (o : CodecOptions) :
    ∃ d, (documentFor ⟨.standard, o⟩ s).outcome = .ok d ∧
      ∀ l, (decode ⟨.standard, o⟩ (d.toBytes l)).outcome =
        .ok s := by
  rcases Structure.exists_form_of_storable hs with
    ⟨f, d, hKind, hWrite, hRegular, hTag, hRead⟩
  have hChoose :
      (Registry.standard.forStructure s).outcome =
        .ok (.ofForm f) := by
    rw [Registry.forStructure, hKind,
      Registry.ofKind?_standard]
    rfl
  have hDecode :=
    outcome_decode_eq_read f hRegular hTag o
  refine ⟨d, ?_, fun l => (hDecode l).trans hRead⟩
  simp only [documentFor,
    Structure.resolve?_of_storable hs,
    Traced.outcome_bind, hChoose, Except.bind,
    Transducer.ofForm, Transducer.toDocument, hWrite,
    Document.normalize_of_regular hRegular]
  rfl

/-
  Encoding a structure that can be stored succeeds, whatever
  the options are, and the bytes are decoded as the structure.
-/
theorem decode_of_encodeTo
    (o : CodecOptions)
    (s : Structure)
    (sink : Sink)
    (hs : s.Storable)
    (hSink : sink.Unfailing) :
    (encodeTo ⟨.standard, o⟩ s sink).2.outcome = .ok () ∧
      ∃ bs,
        (encodeTo ⟨.standard, o⟩ s sink).1.held =
          sink.held ++ bs ∧
        (decode ⟨.standard, o⟩ bs).outcome = .ok s := by
  rcases exists_documentFor_of_storable hs o with
    ⟨d, hDocument, hDecode⟩
  have hWritten := encodeTo_of_unfailing hDocument hSink
  exact ⟨hWritten.1, d.toBytes o.layout, hWritten.2,
    hDecode o.layout⟩

/- A turnstile whose texts have blanks and markup in them. -/
def turnstile : Automaton where
  kind := .mealy
  states :=
    [⟨⟨7⟩, "<locked> & \"shut\"", some " "⟩,
     ⟨⟨0⟩, "", none⟩]
  transitions :=
    [⟨⟨7⟩, ⟨0⟩, .mealy "coin\n" ""⟩,
     ⟨⟨0⟩, ⟨7⟩, .mealy "" "\t"⟩,
     ⟨⟨0⟩, ⟨0⟩, .mealy "]]>" "'"⟩]
  initial := some ⟨7⟩
  finals := .ofList [⟨0⟩]

/- The turnstile is well formed. -/
theorem wellFormed_turnstile :
    turnstile.WellFormed := by
  decide

/- The turnstile is decoded from its bytes. -/
theorem decode_of_encodeTo_turnstile :
    (Structure.automaton turnstile).Storable ∧
      Sink.Unfailing {} ∧
      ∃ bs,
        (encodeTo ⟨.standard, {}⟩
            (.automaton turnstile) {}).1.held = bs ∧
          (decode ⟨.standard, {}⟩ bs).outcome =
            .ok (.automaton turnstile) := by
  have hStorable : (Structure.automaton turnstile).Storable :=
    ⟨by decide, wellFormed_turnstile⟩
  have hSink : Sink.Unfailing {} := ⟨rfl, rfl⟩
  rcases (decode_of_encodeTo {} (.automaton turnstile) {}
    hStorable hSink).2 with ⟨bs, hHeld, hDecode⟩
  exact ⟨hStorable, hSink, bs, hHeld, hDecode⟩

end Codec

end AutomataStore
