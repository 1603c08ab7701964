import AutomataStore.Proofs.StoredStructures

/-
  What decoding can give.

  Every traced result ends in a value or in a problem.  The
  steps of reading a document end in well-formed automata of
  the wanted kind or in problems of decoding, so that what is
  decoded can be stored, and is decoded again from there.

  Key definitions include:
    * `Traced.Ends`
    * `Problem.OfDecoding`
    * `MachineForm.Reading`

  Main declarations:
    * `Traced.ends_foldlM`
    * `MachineForm.ends_read`
    * `Codec.ends_decode`
    * `Codec.stable_decode`
-/

------------------------------------------------------------
-- Ends of Traced Results
------------------------------------------------------------

namespace AutomataStore

/- A result with a property, or a problem with another one. -/
def Traced.Ends
    {α : Type}
    (x : Traced α)
    (good : α → Prop)
    (bad : Problem → Prop) : Prop :=
  match x.outcome with
  | .ok a => good a
  | .error p => bad p

namespace Traced

variable {α β : Type}
variable {bad : Problem → Prop}

/- A result ends as itself. -/
theorem ends_pure
    {good : α → Prop}
    {a : α}
    (ha : good a) :
    (pure a : Traced α).Ends good bad :=
  ha

/- A problem ends as itself. -/
theorem ends_fail
    {good : α → Prop}
    {p : Problem}
    (hp : bad p) :
    (fail p : Traced α).Ends good bad :=
  hp

/- What goes on from a result ends as the last step does. -/
theorem ends_bind
    {good : α → Prop}
    {better : β → Prop}
    {x : Traced α}
    {f : α → Traced β}
    (hx : x.Ends good bad)
    (hf : ∀ a, good a → (f a).Ends better bad) :
    (x >>= f).Ends better bad := by
  unfold Ends at *
  rw [outcome_bind]
  cases h : x.outcome with
  | ok a =>
      rw [h] at hx
      exact hf a hx
  | error p =>
      rw [h] at hx
      exact hx

/- A notice changes nothing about the end. -/
theorem ends_notify_bind
    {good : β → Prop}
    {n : Notice}
    {f : Unit → Traced β}
    (hf : (f ()).Ends good bad) :
    (notify n >>= f).Ends good bad := by
  have hn : (notify n).Ends (fun _ => True) bad := trivial
  exact ends_bind hn fun _ _ => hf

/- What every step of a fold keeps holds at its end. -/
theorem ends_foldlM
    {good : β → Prop}
    {f : β → α → Traced β}
    (hStep : ∀ b a, good b → (f b a).Ends good bad)
    (l : List α)
    {b : β}
    (hb : good b) :
    (l.foldlM f b).Ends good bad := by
  induction l generalizing b with
  | nil => exact ends_pure hb
  | cons a l ih =>
      rw [List.foldlM_cons]
      exact ends_bind (hStep b a hb) fun c hc => ih hc

end Traced

------------------------------------------------------------
-- Problems of Decoding
------------------------------------------------------------

/- The problems that decoding ends in. -/
def Problem.OfDecoding (p : Problem) : Prop :=
  p.category = .parseFailure ∨
    p.category = .unsupportedFormat ∨
    p.category = .invalidReference

/- An operation on an automaton ends in its result. -/
theorem Traced.ends_ofEdit
    {α : Type}
    {good : α → Prop}
    {x : Except EditFault α}
    (hx : ∀ a, x = .ok a → good a) :
    (ofEdit x).Ends good Problem.OfDecoding := by
  cases x with
  | ok a => exact hx a rfl
  | error fault =>
      change Problem.OfDecoding (.refused fault)
      cases fault <;>
        simp [Problem.OfDecoding, Problem.category]

------------------------------------------------------------
-- Reading Automata
------------------------------------------------------------

namespace MachineForm

/- What holds of an automaton of a kind while it is read. -/
def Reading (k : TransitionKind) (a : Automaton) : Prop :=
  a.WellFormed ∧ a.kind = k

/- A reference is read, or it is missing or bad. -/
theorem ends_readReference
    (field : String)
    (text : Option String) :
    (readReference field text).Ends (fun _ => True)
      Problem.OfDecoding := by
  unfold readReference
  cases text with
  | none =>
      exact Traced.ends_notify_bind
        (Traced.ends_fail (Or.inl rfl))
  | some s =>
      simp only
      split
      · exact Traced.ends_pure trivial
      · exact Traced.ends_notify_bind
          (Traced.ends_fail (Or.inl rfl))

/- A state is read, or its id is missing or bad. -/
theorem ends_readState
    (e : Element) :
    (readState e).Ends (fun _ => True)
      Problem.OfDecoding := by
  unfold readState
  exact Traced.ends_bind (ends_readReference _ _)
    fun _ _ => trivial

/- Marking a state as initial goes on with the reading. -/
theorem ends_markInitial
    {k : TransitionKind}
    {a : Automaton}
    (ha : Reading k a)
    (i : StateId) :
    (markInitial a i).Ends (Reading k)
      Problem.OfDecoding := by
  unfold markInitial
  split
  · apply Traced.ends_ofEdit
    intro b hb
    exact
      ⟨Automaton.wellFormed_setInitial ha.1 hb,
        (Automaton.kind_of_setInitial hb).trans ha.2⟩
  · exact Traced.ends_notify_bind ha

/- Taking in a state goes on with the reading. -/
theorem ends_takeState
    {k : TransitionKind}
    {a : Automaton}
    (ha : Reading k a)
    (e : Element) :
    (takeState a e).Ends (Reading k)
      Problem.OfDecoding := by
  have hFinal :
      ∀ b i, Reading k b →
        (if (e.child? "final").isSome then
            Traced.ofEdit (b.addFinal i)
          else
            pure b).Ends (Reading k)
          Problem.OfDecoding := by
    intro b i hb
    split
    · apply Traced.ends_ofEdit
      intro c hc
      exact
        ⟨Automaton.wellFormed_addFinal hb.1 hc,
          (Automaton.kind_of_addFinal hc).trans hb.2⟩
    · exact hb
  have hInsert :
      ∀ s, (Traced.ofEdit (a.insertState s)).Ends
        (Reading k) Problem.OfDecoding := by
    intro s
    apply Traced.ends_ofEdit
    intro b hb
    refine ⟨Automaton.wellFormed_insertState ha.1 hb, ?_⟩
    rcases (Automaton.insertState_eq_ok_iff a b s).mp hb with
      ⟨_, rfl⟩
    exact ha.2
  unfold takeState
  apply Traced.ends_bind (ends_readState e)
  intro s _
  apply Traced.ends_bind (hInsert s)
  intro b hb
  extract_lets finish
  have hFinish :
      ∀ c, Reading k c →
        (finish c).Ends (Reading k) Problem.OfDecoding :=
    fun c hc => hFinal c s.id hc
  split
  · exact Traced.ends_bind (ends_markInitial hb s.id) hFinish
  · exact Traced.ends_bind (Traced.ends_pure hb) hFinish

/- Taking in a transition goes on with the reading. -/
theorem ends_takeTransition
    {k : TransitionKind}
    {a : Automaton}
    (ha : Reading k a)
    (e : Element) :
    (takeTransition a e).Ends (Reading k)
      Problem.OfDecoding := by
  unfold takeTransition
  apply Traced.ends_bind (ends_readReference _ _)
  intro i _
  apply Traced.ends_bind (ends_readReference _ _)
  intro j _
  apply Traced.ends_ofEdit
  intro b hb
  exact
    ⟨Automaton.wellFormed_addTransition ha.1 hb,
      (Automaton.kind_of_addTransition hb).trans ha.2⟩

/-
  Whatever a document holds, the automaton of a kind that is
  read from it is well formed and of the kind.
-/
theorem ends_read
    (k : TransitionKind)
    (d : Document) :
    (read k d).Ends (Reading k) Problem.OfDecoding := by
  have hStart : Reading k { kind := k } :=
    ⟨Automaton.wellFormed_empty k, rfl⟩
  unfold read
  apply Traced.ends_bind
  · exact Traced.ends_foldlM
      (fun b e hb => ends_takeState hb e) _ hStart
  · intro a ha
    exact Traced.ends_foldlM
      (fun b e hb => ends_takeTransition hb e) _ ha

end MachineForm

------------------------------------------------------------
-- Decoding
------------------------------------------------------------

namespace Structure

/- Well-formed automata can be stored, in a graph or not. -/
theorem storable_ofAutomaton
    {a : Automaton}
    (ha : a.WellFormed) :
    (ofAutomaton a).Storable := by
  unfold ofAutomaton
  split
  · exact ha
  · rename_i hKind
    exact ⟨hKind, ha⟩

/- A structure that can be stored is no chooser. -/
theorem kind_ne_chooser_of_storable
    {s : Structure}
    (hs : s.Storable) :
    s.kind ≠ .chooser := by
  cases s with
  | chooser options selected => exact hs.elim
  | _ => simp [kind]

/- Dependency automata are stored in graphs only. -/
theorem isBareDependency_of_storable
    {s : Structure}
    (hs : s.Storable) :
    s.isBareDependency = false := by
  cases s with
  | automaton a => simp [isBareDependency, hs.1]
  | _ => rfl

/- The automaton of a structure that can be stored. -/
theorem wellFormed_of_storable
    {s : Structure}
    (hs : s.Storable)
    (a : Automaton)
    (ha : s.automaton? = some a) :
    a.WellFormed := by
  cases s with
  | automaton b =>
      cases ha
      exact hs.2
  | dependencyGraph g =>
      cases ha
      exact hs
  | _ => cases ha

end Structure

/- Every form reads structures that can be stored. -/
theorem Form.ends_read
    (f : Form)
    (d : Document) :
    (f.read d).Ends Structure.Storable
      Problem.OfDecoding := by
  unfold Form.read
  cases f with
  | grammar => exact Traced.ends_notify_bind trivial
  | automaton k =>
      apply Traced.ends_bind (MachineForm.ends_read k d)
      intro a ha
      exact Traced.ends_notify_bind
        (Structure.storable_ofAutomaton ha.1)

namespace Codec

/- Every codec decodes structures that can be stored. -/
theorem ends_decode
    (c : Codec)
    (bs : Bytes) :
    (c.decode bs).Ends Structure.Storable
      Problem.OfDecoding := by
  have hParse :
      (parse bs).Ends (fun _ => True) Problem.OfDecoding := by
    unfold parse
    split
    · exact Traced.ends_pure trivial
    · exact Traced.ends_fail (Or.inl rfl)
  have hChoose :
      ∀ d, (c.registry.forDocument d).Ends (fun _ => True)
        Problem.OfDecoding := by
    intro d
    unfold Registry.forDocument
    split
    · exact Traced.ends_fail (Or.inr (Or.inl rfl))
    · exact Traced.ends_notify_bind
        (Traced.ends_pure trivial)
  unfold decode
  apply Traced.ends_bind hParse
  intro d _
  apply Traced.ends_bind (hChoose d)
  intro t _
  apply Traced.ends_bind (Form.ends_read t.form d)
  intro s hs
  exact Traced.ends_notify_bind hs

/- A structure that can be stored can be encoded. -/
theorem canEncode_of_storable
    {s : Structure}
    (hs : s.Storable)
    (o : CodecOptions) :
    canEncode ⟨.standard, o⟩ s = true := by
  rcases Structure.exists_form_of_storable hs with
    ⟨f, _, hKind, _⟩
  simp [canEncode, Structure.resolve?_of_storable hs,
    Structure.isBareDependency_of_storable hs,
    Registry.supports, hKind, Registry.ofKind?_standard]

/-
  Whatever bytes are decoded, the result is a structure with
  a form over a well-formed automaton, which can be encoded
  and is decoded again from its bytes, or the problem is one
  of decoding.
-/
theorem stable_decode
    (o : CodecOptions)
    (bs : Bytes) :
    match (decode ⟨.standard, o⟩ bs).outcome with
    | .ok s =>
        s.kind ≠ .chooser ∧
          s.isBareDependency = false ∧
          (∀ a, s.automaton? = some a → a.WellFormed) ∧
          canEncode ⟨.standard, o⟩ s = true ∧
          ∀ sink : Sink, sink.Unfailing →
            (encodeTo ⟨.standard, o⟩ s sink).2.outcome =
                .ok () ∧
              ∃ again,
                (encodeTo ⟨.standard, o⟩ s sink).1.held =
                    sink.held ++ again ∧
                  (decode ⟨.standard, o⟩ again).outcome =
                    .ok s
    | .error p =>
        p.category = .parseFailure ∨
          p.category = .unsupportedFormat ∨
          p.category = .invalidReference := by
  have hEnds := ends_decode ⟨.standard, o⟩ bs
  unfold Traced.Ends at hEnds
  cases hOutcome : (decode ⟨.standard, o⟩ bs).outcome with
  | error p =>
      rw [hOutcome] at hEnds
      exact hEnds
  | ok s =>
      rw [hOutcome] at hEnds
      have hs : s.Storable := hEnds
      refine
        ⟨Structure.kind_ne_chooser_of_storable hs,
          Structure.isBareDependency_of_storable hs,
          Structure.wellFormed_of_storable hs,
          canEncode_of_storable hs o, ?_⟩
      intro sink hSink
      rcases exists_documentFor_of_storable hs o with
        ⟨d, hDocument, hDecode⟩
      have hWritten := encodeTo_of_unfailing hDocument hSink
      exact ⟨hWritten.1, d.toBytes o.layout, hWritten.2,
        hDecode o.layout⟩

/- The turnstile is decoded, encoded and decoded again. -/
theorem stable_decode_turnstile :
    (decode ⟨.standard, {}⟩
          ((MachineForm.document turnstile).toBytes
            { indent := 0 })).outcome =
        .ok (.automaton turnstile) ∧
      canEncode ⟨.standard, {}⟩ (.automaton turnstile) =
        true ∧
      ∃ again,
        (encodeTo ⟨.standard, {}⟩
            (.automaton turnstile) {}).1.held = again ∧
          (decode ⟨.standard, {}⟩ again).outcome =
            .ok (.automaton turnstile) := by
  have hRead :
      ((Form.automaton .mealy).read
          (MachineForm.document turnstile)).outcome =
        .ok (.automaton turnstile) :=
    Form.outcome_read_automaton wellFormed_turnstile
  have hDecode :=
    outcome_decode_eq_read (.automaton .mealy)
      (MachineForm.regular_document turnstile)
      (MachineForm.typeTag_document turnstile) {}
      { indent := 0 }
  have hStable :=
    stable_decode {}
      ((MachineForm.document turnstile).toBytes
        { indent := 0 })
  rw [hRead] at hDecode
  rw [hDecode] at hStable
  rcases hStable with ⟨_, _, _, hCan, hAgain⟩
  exact ⟨hDecode, hCan, (hAgain {} ⟨rfl, rfl⟩).2⟩

end Codec

end AutomataStore
