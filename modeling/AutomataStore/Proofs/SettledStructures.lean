import AutomataStore.Proofs.LimitedSinks
import Mathlib

/-
  What files keep of structures that nobody checked.

  An automaton may be written whose states are declared twice
  or not at all, whose marks are on ids that no state has, or
  whose labels are of another kind.  The first two are found
  when the file is read.  The others are not: the automaton
  that is read lacks these marks and has other labels.

  Key definitions include:
    * `Structure.Declared`, `Structure.Fits`
    * `Structure.settled`

  Main declarations:
    * `Structure.settled_eq_self_iff`
    * `Form.outcome_read_of_write`
    * `Codec.documentFor_eq_ok_iff`
    * `Codec.decode_of_unchecked`
-/

------------------------------------------------------------
-- Settled Structures
------------------------------------------------------------

namespace AutomataStore

namespace Structure

/- Every automaton in a structure declares its states. -/
def Declared (s : Structure) : Prop :=
  ∀ a, s.automaton? = some a → a.Declared

/- Every automaton in a structure fits into a file. -/
def Fits (s : Structure) : Prop :=
  ∀ a, s.automaton? = some a → a.Fits

/- A structure with its automaton as it is settled in a file. -/
def settled : Structure → Structure
  | .automaton a => .automaton a.settled
  | .dependencyGraph g =>
      .dependencyGraph ⟨g.automaton.settled, g.kind_eq⟩
  | .grammar g => .grammar g
  | .chooser options selected => .chooser options selected

/- A structure stays as it is exactly if it fits. -/
theorem settled_eq_self_iff
    (s : Structure) :
    s.settled = s ↔ s.Fits := by
  cases s with
  | automaton a =>
      simp [settled, Fits, automaton?,
        Automaton.settled_eq_self_iff]
  | dependencyGraph g =>
      rcases g with ⟨a, hKind⟩
      have hGraph :
          Fits (.dependencyGraph ⟨a, hKind⟩) ↔
            a.settled = a := by
        simp [Fits, automaton?, Automaton.settled_eq_self_iff]
      rw [hGraph]
      constructor
      · intro hSame
        simpa [settled, automaton?] using
          congrArg automaton? hSame
      · intro hSame
        simp only [settled, hSame]
  | grammar g => simp [settled, Fits, automaton?]
  | chooser options selected =>
      simp [settled, Fits, automaton?]

/- An automaton stands for itself. -/
@[simp]
theorem resolve?_automaton
    (a : Automaton) :
    (automaton a).resolve? = some (automaton a) := by
  simp [resolve?, resolveAt?]

/- The automaton of an automaton as a structure. -/
@[simp]
theorem automaton?_ofAutomaton
    (a : Automaton) :
    (ofAutomaton a).automaton? = some a := by
  unfold ofAutomaton
  split <;> rfl

/- An automaton is settled in whatever structure it is. -/
theorem settled_ofAutomaton
    (a : Automaton) :
    (ofAutomaton a).settled = ofAutomaton a.settled := by
  have hSame : a.settled.kind = a.kind := rfl
  by_cases hKind : a.kind = .dependency
  · rw [ofAutomaton, dif_pos hKind, ofAutomaton,
      dif_pos (hSame.trans hKind)]
    rfl
  · rw [ofAutomaton, dif_neg hKind, ofAutomaton, dif_neg]
    · rfl
    · rwa [hSame]

end Structure

------------------------------------------------------------
-- Writing and Reading in a Form
------------------------------------------------------------

namespace Form

/- What a form writes is a grammar or an automaton. -/
theorem of_write_eq_ok
    {f : Form}
    {s : Structure}
    {d : Document}
    (hWrite : f.write s = .ok d) :
    (∃ g, f = .grammar ∧ s = .grammar g ∧
        d = GrammarForm.document g) ∨
      ∃ a, f = .automaton a.kind ∧ s = .ofAutomaton a ∧
        d = MachineForm.document a := by
  cases f with
  | grammar =>
      cases s with
      | grammar g =>
          exact Or.inl
            ⟨g, rfl, rfl, (Except.ok.inj hWrite).symm⟩
      | _ => cases hWrite
  | automaton k =>
      cases s with
      | automaton a =>
          simp only [write, Structure.automaton?] at hWrite
          split at hWrite
          · rename_i hForm
            have hKind : a.kind ≠ .dependency := by
              simpa [Structure.isBareDependency] using hForm.2
            exact Or.inr
              ⟨a, by rw [hForm.1],
                by rw [Structure.ofAutomaton, dif_neg hKind],
                (Except.ok.inj hWrite).symm⟩
          · cases hWrite
      | dependencyGraph g =>
          simp only [write, Structure.automaton?] at hWrite
          split at hWrite
          · rename_i hForm
            exact Or.inr
              ⟨g.automaton, by rw [hForm.1],
                by rw [Structure.ofAutomaton,
                  dif_pos g.kind_eq],
                (Except.ok.inj hWrite).symm⟩
          · cases hWrite
      | _ => cases hWrite

/-
  The form of an automaton reads its document as the settled
  automaton, and refuses it unless the states are declared.
-/
theorem outcome_read_document_eq_ok_iff
    (a : Automaton)
    (t : Structure) :
    ((automaton a.kind).read
        (MachineForm.document a)).outcome = .ok t ↔
      a.Declared ∧ t = .ofAutomaton a.settled := by
  rw [outcome_read_eq_map]
  by_cases ha : a.Declared
  · rw [MachineForm.read_document_of_declared ha]
    simp [ha, Except.map, eq_comm]
  · rcases MachineForm.read_document_of_not_declared ha with
      ⟨i, hError | ⟨_, hError⟩⟩ <;>
    simp [ha, hError, Except.map]

/-
  What a form wrote is a regular document of the form, and is
  read as the settled structure, if the states are declared.
-/
theorem outcome_read_of_write
    {f : Form}
    {s : Structure}
    {d : Document}
    (hWrite : f.write s = .ok d) :
    d.Regular ∧ d.typeTag = f.tag ∧
      ∀ t, (f.read d).outcome = .ok t ↔
        s.Declared ∧ t = s.settled := by
  rcases of_write_eq_ok hWrite with
    ⟨g, rfl, rfl, rfl⟩ | ⟨a, rfl, rfl, rfl⟩
  · refine ⟨GrammarForm.regular_document g,
      GrammarForm.typeTag_document g, fun t => ?_⟩
    simp [read, GrammarForm.read_document, Traced.notify,
      Except.bind, Structure.Declared, Structure.automaton?,
      Structure.settled, eq_comm]
  · refine ⟨MachineForm.regular_document a,
      MachineForm.typeTag_document a, fun t => ?_⟩
    rw [outcome_read_document_eq_ok_iff,
      Structure.settled_ofAutomaton]
    simp [Structure.Declared]

end Form

------------------------------------------------------------
-- Files
------------------------------------------------------------

/- The transducer for structures in the standard registry. -/
theorem Registry.eq_ofForm_of_forStructure
    {s : Structure}
    {t : Transducer}
    (hChoose : (standard.forStructure s).outcome = .ok t) :
    ∃ f, t = .ofForm f := by
  have hForm :
      ∀ f, s.kind = Form.kind f → t = .ofForm f := by
    intro f hKind
    rw [forStructure, hKind, ofKind?_standard] at hChoose
    exact (Except.ok.inj hChoose).symm
  cases hKind : s.kind with
  | automaton k => exact ⟨_, hForm (.automaton k) hKind⟩
  | grammar => exact ⟨_, hForm .grammar hKind⟩
  | chooser =>
      rw [forStructure, hKind] at hChoose
      cases hChoose

namespace Codec

/-
  The document of a structure is what the transducer for the
  structure it resolves to makes of that, normalized.
-/
theorem documentFor_eq_ok_iff
    {c : Codec}
    {s : Structure}
    {d : Document} :
    (c.documentFor s).outcome = .ok d ↔
      ∃ target t made,
        s.resolve? = some target ∧
        (c.registry.forStructure target).outcome = .ok t ∧
        t.toDocument target = .ok made ∧
        made.normalize = d := by
  unfold documentFor
  cases hResolve : s.resolve? with
  | none => simp [Traced.fail]
  | some target =>
      simp only [Traced.outcome_bind, Traced.outcome_pure]
      cases hChoose :
          (c.registry.forStructure target).outcome with
      | error p => simp [Except.bind, hChoose]
      | ok t =>
          cases hMade : t.toDocument target with
          | error p => simp [Except.bind, hChoose, hMade]
          | ok made => simp [Except.bind, hChoose, hMade]

/-
  Bytes to which a structure was encoded are decoded exactly
  if the structure it resolves to declares its states, and
  then as that structure with its automaton settled.  This is
  the same structure exactly if it fits.
-/
theorem decode_of_unchecked
    (o : CodecOptions)
    (s : Structure)
    (sink : Sink)
    (bs : Bytes)
    (hEncode :
      (encodeTo ⟨.standard, o⟩ s sink).2.outcome = .ok ())
    (hWritten :
      (encodeTo ⟨.standard, o⟩ s sink).1.held =
        sink.held ++ bs) :
    ∃ target,
      s.resolve? = some target ∧
      (∀ t, (decode ⟨.standard, o⟩ bs).outcome = .ok t ↔
        target.Declared ∧ t = target.settled) ∧
      (target.settled = target ↔ target.Fits) := by
  rcases exists_documentFor_of_encodeTo_eq_ok hEncode with
    ⟨d, hDocument, hHeld⟩
  have hBytes : bs = d.toBytes o.layout :=
    List.append_cancel_left (hWritten.symm.trans hHeld)
  rcases documentFor_eq_ok_iff.mp hDocument with
    ⟨target, t, made, hResolve, hChoose, hMade, rfl⟩
  rcases Registry.eq_ofForm_of_forStructure hChoose with
    ⟨f, rfl⟩
  have hMade : f.write target = .ok made := hMade
  rcases Form.outcome_read_of_write hMade with
    ⟨hRegular, hTag, hRead⟩
  refine ⟨target, hResolve, fun t => ?_,
    target.settled_eq_self_iff⟩
  rw [hBytes, Document.normalize_of_regular hRegular,
    outcome_decode_eq_read f hRegular hTag, hRead]

/-
  An automaton that declares its states, but has marks on ids
  that no state has and a label of another kind.
-/
def unfitting : Automaton where
  kind := .finite
  states := [⟨⟨0⟩, "q0", none⟩]
  transitions := [⟨⟨0⟩, ⟨0⟩, .mealy "a" "b"⟩]
  initial := some ⟨7⟩
  finals := .ofList [⟨0⟩, ⟨9⟩]

/- It is written, and read as another automaton. -/
theorem decode_of_unchecked_unfitting :
    (encodeTo ⟨.standard, {}⟩ (.automaton unfitting)
        {}).2.outcome = .ok () ∧
      ∃ bs,
        (encodeTo ⟨.standard, {}⟩ (.automaton unfitting)
            {}).1.held = bs ∧
          (decode ⟨.standard, {}⟩ bs).outcome =
            .ok (.automaton {
              unfitting with
              transitions := [⟨⟨0⟩, ⟨0⟩, .finite "a"⟩]
              initial := none
              finals := .ofList [⟨0⟩] }) ∧
          Structure.settled (.automaton unfitting) ≠
            .automaton unfitting := by
  have hDocument :
      (documentFor ⟨.standard, {}⟩
        (.automaton unfitting)).outcome =
        .ok (MachineForm.document unfitting) :=
    documentFor_eq_ok_iff.mpr
      ⟨_, _, _, Structure.resolve?_automaton unfitting,
        rfl, rfl,
        Document.normalize_of_regular
          (MachineForm.regular_document unfitting)⟩
  have hSink : Sink.Unfailing {} := ⟨rfl, rfl⟩
  have hWritten := encodeTo_of_unfailing hDocument hSink
  rcases decode_of_unchecked {} _ {} _ hWritten.1
    hWritten.2 with ⟨target, hResolve, hDecode, hSame⟩
  obtain rfl : Structure.automaton unfitting = target := by
    simpa using hResolve
  have hDeclared :
      Structure.Declared (.automaton unfitting) := by
    rintro _ ⟨⟩
    exact ⟨by decide, by decide⟩
  have hNot : ¬Structure.Fits (.automaton unfitting) := by
    intro hFits
    exact absurd ((hFits _ rfl).initial_mem _ rfl) (by decide)
  refine ⟨hWritten.1, _, hWritten.2, ?_, mt hSame.mp hNot⟩
  exact (hDecode _).mpr
    ⟨hDeclared, congrArg Structure.automaton (by decide)⟩

/- An automaton with its initial mark on no state. -/
def misplaced : Automaton where
  kind := .finite
  states := [⟨⟨0⟩, "q0", none⟩]
  initial := some ⟨7⟩

/-
  The loss is silent: an automaton with its initial mark on
  no state is written and read without the mark.
-/
theorem initial_mark_lost :
    (terse.encodeTo (.automaton misplaced) {}).2.outcome =
        .ok () ∧
      (Structure.automaton misplaced).resolve? =
        some (.automaton misplaced) ∧
      (terse.decode
        (terse.encodeTo (.automaton misplaced)
          {}).1.held).outcome =
        .ok (.automaton { misplaced with initial := none }) ∧
      Structure.automaton { misplaced with initial := none } ≠
        .automaton misplaced := by
  refine ⟨by cbv, Structure.resolve?_automaton misplaced,
    by cbv, ?_⟩
  simp [misplaced]

end Codec

end AutomataStore
