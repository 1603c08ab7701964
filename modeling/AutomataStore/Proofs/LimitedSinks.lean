import AutomataStore.Proofs.StoredStructures
import Mathlib

/-
  Limited sinks get a prefix and always report it.

  A sink with room for a number of bytes is left with that
  many bytes of what is written into it, wherever the cut
  falls, and writing succeeds exactly if everything fits and
  the sink can be flushed.

  Key definitions include:
    * `Sink.CutAt`
    * `Sink.Takes`, `Sink.TakesAll`

  Main declarations:
    * `Sink.cutAt_writeAll`
    * `Sink.cutAt_of_takesAll`
    * `Document.writeTo_of_room`
    * `Codec.encodeTo_of_room`
    * `Codec.cut_at_room`
-/

------------------------------------------------------------
-- Where a Sink Cuts
------------------------------------------------------------

namespace AutomataStore

open Markup (Token)

namespace Sink

/-
  What writing bytes into a sink with room for `n` more comes
  to: the sink holds as many of them as there was room for,
  and it fails exactly if these are not all.
-/
structure CutAt
    (n : Nat)
    (s : Sink)
    (out : Bytes)
    (result : Sink × Except SinkFault Unit) : Prop where
  held_eq : result.1.held = s.held ++ out.take n
  room_eq : result.1.room = some (n - out.length)
  refusesFlush_eq : result.1.refusesFlush = s.refusesFlush
  outcome_eq :
    result.2 =
      if out.length ≤ n then
        .ok ()
      else
        .error .full

/- Writing nothing cuts nothing. -/
theorem CutAt.nil
    {n : Nat}
    {s : Sink}
    (hRoom : s.room = some n) :
    CutAt n s [] (s, .ok ()) where
  held_eq := by simp
  room_eq := by simp [hRoom]
  refusesFlush_eq := rfl
  outcome_eq := by simp

/-
  After bytes that fit, the rest is cut where the room that
  is left ends.
-/
theorem CutAt.append
    {n : Nat}
    {s s' : Sink}
    {out rest : Bytes}
    {result : Sink × Except SinkFault Unit}
    (hOut : CutAt n s out (s', .ok ()))
    (hRest : CutAt (n - out.length) s' rest result) :
    CutAt n s (out ++ rest) result := by
  have hFits : out.length ≤ n := by
    apply Decidable.byContradiction
    intro hNot
    simpa [hNot] using hOut.outcome_eq
  have hHeld : s'.held = s.held ++ out := by
    simpa [List.take_of_length_le hFits] using hOut.held_eq
  have hAll :
      rest.length ≤ n - out.length ↔
        (out ++ rest).length ≤ n := by
    rw [List.length_append]
    omega
  exact {
    held_eq := by
      rw [hRest.held_eq, hHeld, List.take_append,
        List.take_of_length_le hFits, List.append_assoc]
    room_eq := by
      rw [hRest.room_eq, List.length_append, Nat.sub_sub]
    refusesFlush_eq :=
      hRest.refusesFlush_eq.trans hOut.refusesFlush_eq
    outcome_eq := by
      rw [hRest.outcome_eq]
      simp only [hAll] }

/- Nothing is written after bytes that did not fit. -/
theorem CutAt.append_of_error
    {n : Nat}
    {s s' : Sink}
    {out : Bytes}
    {fault : SinkFault}
    (hOut : CutAt n s out (s', .error fault))
    (rest : Bytes) :
    CutAt n s (out ++ rest) (s', .error fault) := by
  have hFull : n < out.length := by
    apply Decidable.byContradiction
    intro hNot
    simpa [Nat.le_of_not_lt hNot] using hOut.outcome_eq
  have hAll : ¬(out ++ rest).length ≤ n := by
    rw [List.length_append]
    omega
  exact {
    held_eq := by
      rw [hOut.held_eq,
        List.take_append_of_le_length (Nat.le_of_lt hFull)]
    room_eq := by
      rw [hOut.room_eq, List.length_append]
      congr 1
      omega
    refusesFlush_eq := hOut.refusesFlush_eq
    outcome_eq := by
      rw [hOut.outcome_eq, if_neg (Nat.not_le.mpr hFull),
        if_neg hAll] }

------------------------------------------------------------
-- Chunk after Chunk
------------------------------------------------------------

/- A chunk is cut where the room ends. -/
theorem cutAt_write
    {n : Nat}
    {s : Sink}
    (hRoom : s.room = some n)
    (chunk : Bytes) :
    CutAt n s chunk (s.write chunk) := by
  simp only [write, hRoom]
  split <;>
    exact ⟨by simp [held], rfl, rfl, by simp [*]⟩

/- A run of chunks is cut as if it were one chunk. -/
theorem cutAt_writeAll
    {n : Nat}
    {s : Sink}
    (hRoom : s.room = some n)
    (chunks : List Bytes) :
    CutAt n s chunks.flatten (s.writeAll chunks) := by
  induction chunks generalizing s n with
  | nil => exact .nil hRoom
  | cons chunk rest ih =>
      have hChunk := cutAt_write hRoom chunk
      rw [writeAll, List.flatten_cons]
      rcases hWrite : s.write chunk with ⟨s', outcome⟩
      rw [hWrite] at hChunk
      cases outcome with
      | ok _ => exact hChunk.append (ih hChunk.room_eq)
      | error fault => exact hChunk.append_of_error _

------------------------------------------------------------
-- Portions of a Chunk
------------------------------------------------------------

/-
  What may become of a limited sink that takes a chunk in
  portions of its own choice: it takes nonempty portions as
  long as it has room for them, and refuses what is left once
  it has none.
-/
inductive Takes :
    Sink → Bytes → Sink × Except SinkFault Unit → Prop where
  | done
      (s : Sink) : Takes s [] (s, .ok ())
  | portion
      {s : Sink}
      {n : Nat}
      {portion rest : Bytes}
      {result : Sink × Except SinkFault Unit}
      (hRoom : s.room = some n)
      (hFits : portion.length ≤ n)
      (hSome : portion ≠ [])
      (hRest :
        Takes
          { s with
            newestFirst := portion :: s.newestFirst
            room := some (n - portion.length) }
          rest result) :
      Takes s (portion ++ rest) result
  | refused
      {s : Sink}
      {chunk : Bytes}
      (hRoom : s.room = some 0)
      (hSome : chunk ≠ []) :
      Takes s chunk (s, .error .full)

/- What may become of it with chunks, up to a failure. -/
inductive TakesAll :
    Sink → List Bytes → Sink × Except SinkFault Unit →
      Prop where
  | nil
      (s : Sink) : TakesAll s [] (s, .ok ())
  | cons
      {s s' : Sink}
      {chunk : Bytes}
      {rest : List Bytes}
      {result : Sink × Except SinkFault Unit}
      (hChunk : s.Takes chunk (s', .ok ()))
      (hRest : TakesAll s' rest result) :
      TakesAll s (chunk :: rest) result
  | fault
      {s s' : Sink}
      {chunk : Bytes}
      {rest : List Bytes}
      {fault : SinkFault}
      (hChunk : s.Takes chunk (s', .error fault)) :
      TakesAll s (chunk :: rest) (s', .error fault)

/- The portions of a chunk do not move the cut. -/
theorem cutAt_of_takes
    {n : Nat}
    {s : Sink}
    {chunk : Bytes}
    {result : Sink × Except SinkFault Unit}
    (hTakes : s.Takes chunk result)
    (hRoom : s.room = some n) :
    CutAt n s chunk result := by
  induction hTakes generalizing n with
  | done s => exact .nil hRoom
  | @portion s m portion rest result hRoom' hFits _ _ ih =>
      obtain rfl : m = n :=
        Option.some.inj (hRoom'.symm.trans hRoom)
      have hPortion := cutAt_write hRoom portion
      simp only [write, hRoom, if_pos hFits,
        List.take_of_length_le hFits] at hPortion
      exact hPortion.append (ih rfl)
  | @refused s chunk hRoom' hSome =>
      obtain rfl : 0 = n :=
        Option.some.inj (hRoom'.symm.trans hRoom)
      exact
        ⟨by simp, by simp [hRoom], rfl, by simp [hSome]⟩

/- The portions of a run of chunks do not move the cut. -/
theorem cutAt_of_takesAll
    {n : Nat}
    {s : Sink}
    {chunks : List Bytes}
    {result : Sink × Except SinkFault Unit}
    (hTakes : s.TakesAll chunks result)
    (hRoom : s.room = some n) :
    CutAt n s chunks.flatten result := by
  induction hTakes generalizing n with
  | nil s => exact .nil hRoom
  | cons hChunk _ ih =>
      have hCut := cutAt_of_takes hChunk hRoom
      exact hCut.append (ih hCut.room_eq)
  | fault hChunk =>
      exact
        (cutAt_of_takes hChunk hRoom).append_of_error _

end Sink

------------------------------------------------------------
-- Documents
------------------------------------------------------------

/-
  A limited sink gets what it has room for of the bytes of a
  document, and is flushed if it gets all of them.
-/
theorem Document.writeTo_of_room
    (d : Document)
    (l : Layout)
    {s : Sink}
    {n : Nat}
    (hRoom : s.room = some n) :
    (d.writeTo l s).1.held =
        s.held ++ (d.toBytes l).take n ∧
      (d.writeTo l s).2 =
        if (d.toBytes l).length ≤ n then
          s.flush
        else
          .error .full := by
  have hCut :=
    Sink.cutAt_writeAll hRoom
      ((d.toTokens l).flatMap Token.chunks)
  rw [flatten_chunks] at hCut
  rw [toBytes, writeTo]
  rcases hAll :
    s.writeAll ((d.toTokens l).flatMap Token.chunks) with
    ⟨s', outcome⟩
  rw [hAll] at hCut
  refine ⟨?_, ?_⟩
  · rw [← hCut.held_eq]
    cases outcome <;> rfl
  · have hOutcome := hCut.outcome_eq
    by_cases hFits :
        ((d.toTokens l).flatMap Token.spell).length ≤ n
    · simp only [if_pos hFits] at hOutcome ⊢
      subst hOutcome
      have hSame : s'.refusesFlush = s.refusesFlush :=
        hCut.refusesFlush_eq
      simp only [Sink.flush, hSame]
    · simp only [if_neg hFits] at hOutcome ⊢
      subst hOutcome
      rfl

/- A sink is flushed unless it refuses. -/
theorem Sink.flush_eq_ok_iff
    (s : Sink) :
    s.flush = .ok () ↔ s.refusesFlush = false := by
  cases h : s.refusesFlush <;> simp [flush, h]

/- Writing succeeds exactly if all fits and is flushed. -/
theorem Document.writeTo_eq_ok_iff_of_room
    (d : Document)
    (l : Layout)
    {s : Sink}
    {n : Nat}
    (hRoom : s.room = some n) :
    (d.writeTo l s).2 = .ok () ↔
      (d.toBytes l).length ≤ n ∧ s.refusesFlush = false := by
  rw [(d.writeTo_of_room l hRoom).2, ← s.flush_eq_ok_iff]
  split <;> simp [*]

/-
  Whatever room a sink has, success means that it got all of
  the bytes.
-/
theorem Document.held_of_writeTo_eq_ok
    {d : Document}
    {l : Layout}
    {s : Sink}
    (hOk : (d.writeTo l s).2 = .ok ()) :
    (d.writeTo l s).1.held = s.held ++ d.toBytes l := by
  cases hRoom : s.room with
  | none =>
      have hFlush : s.refusesFlush = false := by
        rw [writeTo, Sink.writeAll_of_room_eq_none hRoom,
          Sink.flush_eq_ok_iff] at hOk
        exact hOk
      exact (d.writeTo_of_unfailing l ⟨hRoom, hFlush⟩).2
  | some n =>
      have hFits :=
        ((d.writeTo_eq_ok_iff_of_room l hRoom).mp hOk).1
      rw [(d.writeTo_of_room l hRoom).1,
        List.take_of_length_le hFits]

------------------------------------------------------------
-- Structures
------------------------------------------------------------

/- A form refuses a structure only for what it is. -/
theorem Form.write_of_error
    {f : Form}
    {s : Structure}
    {p : Problem}
    (hError : f.write s = .error p) :
    p = .unsupportedStructure s.kind := by
  cases f <;> simp only [write] at hError <;>
    split at hError
  · cases hError
  · exact (Except.error.inj hError).symm
  · split at hError
    · cases hError
    · exact (Except.error.inj hError).symm
  · exact (Except.error.inj hError).symm

namespace Codec

/- No document is built only if a structure has no form. -/
theorem documentFor_of_error
    {c : Codec}
    {s : Structure}
    {p : Problem}
    (hError : (c.documentFor s).outcome = .error p) :
    ∃ k, p = .unsupportedStructure k := by
  unfold documentFor at hError
  cases hResolve : s.resolve? with
  | none =>
      rw [hResolve] at hError
      exact ⟨.chooser, (Except.error.inj hError).symm⟩
  | some target =>
      simp only [hResolve, Registry.forStructure,
        Traced.outcome_bind] at hError
      cases hKind : c.registry.ofKind? target.kind with
      | none =>
          simp only [hKind] at hError
          exact ⟨target.kind, (Except.error.inj hError).symm⟩
      | some t =>
          cases hWrite : t.toDocument target with
          | ok d =>
              simp [hKind, hWrite, Traced.notify,
                Except.bind] at hError
          | error q =>
              have hForm := Form.write_of_error hWrite
              simp [hKind, hWrite, Traced.notify,
                Except.bind] at hError
              exact ⟨target.kind, hError ▸ hForm⟩

/-
  Encoding in a sink writes the document of the structure.
-/
theorem encodeTo_of_ok
    {c : Codec}
    {s : Structure}
    {d : Document}
    (hDocument : (c.documentFor s).outcome = .ok d)
    (sink : Sink) :
    (c.encodeTo s sink).1 =
        (d.writeTo c.options.layout sink).1 ∧
      (c.encodeTo s sink).2.outcome =
        (d.writeTo c.options.layout sink).2.mapError
          fun f => .unwritable "" f.message := by
  simp [encodeTo, hDocument]

/- Without a document a sink is left as it was. -/
theorem encodeTo_of_error
    {c : Codec}
    {s : Structure}
    {p : Problem}
    (hError : (c.documentFor s).outcome = .error p)
    (sink : Sink) :
    c.encodeTo s sink =
      (sink, ⟨.error p, (c.documentFor s).notices⟩) := by
  simp [encodeTo, hError]

/-
  Success means that a structure has a document, and that the
  sink got all of its bytes.
-/
theorem exists_documentFor_of_encodeTo_eq_ok
    {c : Codec}
    {s : Structure}
    {sink : Sink}
    (hOk : (c.encodeTo s sink).2.outcome = .ok ()) :
    ∃ d, (c.documentFor s).outcome = .ok d ∧
      (c.encodeTo s sink).1.held =
        sink.held ++ d.toBytes c.options.layout := by
  cases hDocument : (c.documentFor s).outcome with
  | error p =>
      rw [encodeTo_of_error hDocument] at hOk
      cases hOk
  | ok d =>
      rcases encodeTo_of_ok hDocument sink with
        ⟨hSink, hOutcome⟩
      have hWritten :
          (d.writeTo c.options.layout sink).2 = .ok () := by
        rw [hOutcome] at hOk
        cases hFault :
            (d.writeTo c.options.layout sink).2 with
        | ok _ => rfl
        | error f =>
            rw [hFault] at hOk
            cases hOk
      refine ⟨d, rfl, ?_⟩
      rw [hSink, Document.held_of_writeTo_eq_ok hWritten]

/-
  A limited sink gets what it has room for of the bytes of a
  structure, and anything but complete success is reported
  as a failure to write.
-/
theorem encodeTo_of_room
    {c : Codec}
    {s : Structure}
    {d : Document}
    (hDocument : (c.documentFor s).outcome = .ok d)
    {sink : Sink}
    {n : Nat}
    (hRoom : sink.room = some n) :
    (c.encodeTo s sink).1.held =
        sink.held ++ (d.toBytes c.options.layout).take n ∧
      ((c.encodeTo s sink).2.outcome = .ok () ↔
        (d.toBytes c.options.layout).length ≤ n ∧
          sink.refusesFlush = false) ∧
      ∀ p, (c.encodeTo s sink).2.outcome = .error p →
        p.category = .writeFailure := by
  rcases encodeTo_of_ok hDocument sink with
    ⟨hSink, hOutcome⟩
  have hPrefix := d.writeTo_of_room c.options.layout hRoom
  have hSuccess :=
    d.writeTo_eq_ok_iff_of_room c.options.layout hRoom
  refine ⟨by rw [hSink, hPrefix.1], ?_, ?_⟩
  · rw [hOutcome, ← hSuccess]
    cases (d.writeTo c.options.layout sink).2 <;>
      simp [Except.mapError]
  · intro p hError
    rw [hOutcome] at hError
    cases hFault : (d.writeTo c.options.layout sink).2 with
    | ok _ =>
        rw [hFault] at hError
        cases hError
    | error f =>
        rw [hFault] at hError
        rw [← Except.error.inj hError]
        rfl

------------------------------------------------------------
-- The Prefix Law
------------------------------------------------------------

/-
  A sink with room for `n` bytes gets the first `n` bytes of
  what a sink that never fails gets, and success is reported
  exactly if these are all and the sink can be flushed.  It
  does not matter in which portions the sink takes them.  A
  structure without a document leaves the sink as it was.
-/
theorem cut_at_room
    {n : Nat}
    {sink plain : Sink}
    (hRoom : sink.room = some n)
    (hPlain : plain.Unfailing) :
    (∀ (d : Document) (l : Layout), ∃ out,
      (d.writeTo l plain).2 = .ok () ∧
      (d.writeTo l plain).1.held = plain.held ++ out ∧
      (d.writeTo l sink).1.held =
        sink.held ++ out.take n ∧
      ((d.writeTo l sink).2 = .ok () ↔
        out.length ≤ n ∧ sink.refusesFlush = false) ∧
      ∀ result,
        sink.TakesAll ((d.toTokens l).flatMap Token.chunks)
          result →
        result.1.held = (d.writeTo l sink).1.held ∧
        (result.2 = .ok () ↔ out.length ≤ n)) ∧
    ∀ (c : Codec) (s : Structure),
      (∀ p, (c.documentFor s).outcome = .error p →
        p.category = .unsupportedStructure ∧
        (c.encodeTo s sink).1 = sink ∧
        (c.encodeTo s sink).2.outcome = .error p) ∧
      ∀ d, (c.documentFor s).outcome = .ok d → ∃ out,
        (c.encodeTo s plain).2.outcome = .ok () ∧
        (c.encodeTo s plain).1.held = plain.held ++ out ∧
        (c.encodeTo s sink).1.held =
          sink.held ++ out.take n ∧
        ((c.encodeTo s sink).2.outcome = .ok () ↔
          out.length ≤ n ∧ sink.refusesFlush = false) ∧
        ∀ p, (c.encodeTo s sink).2.outcome = .error p →
          p.category = .writeFailure := by
  refine
    ⟨fun d l => ?_,
      fun c s => ⟨?_, fun d hDocument => ?_⟩⟩
  · have hWhole := d.writeTo_of_unfailing l hPlain
    refine ⟨d.toBytes l, hWhole.1, hWhole.2,
      (d.writeTo_of_room l hRoom).1,
      d.writeTo_eq_ok_iff_of_room l hRoom,
      fun result hTakes => ?_⟩
    have hCut := Sink.cutAt_of_takesAll hTakes hRoom
    rw [Document.flatten_chunks, ← Document.toBytes] at hCut
    refine ⟨?_, ?_⟩
    · rw [hCut.held_eq, (d.writeTo_of_room l hRoom).1]
    · rw [hCut.outcome_eq]
      split <;> simp [*]
  · intro p hError
    rcases documentFor_of_error hError with ⟨k, rfl⟩
    have hNothing := encodeTo_of_error hError sink
    exact ⟨rfl, by rw [hNothing], by rw [hNothing]⟩
  · have hWhole := encodeTo_of_unfailing hDocument hPlain
    exact ⟨d.toBytes c.options.layout, hWhole.1, hWhole.2,
      encodeTo_of_room hDocument hRoom⟩

/- A codec that writes neither lines nor a declaration. -/
def terse : Codec :=
  ⟨.standard, { indent := 0, writeDeclaration := false }⟩

/-
  The document of the empty grammar is cut in its tag, and if
  all of it fits, a sink that cannot be flushed is reported.
-/
theorem cut_at_room_grammar :
    let cut : Sink := { room := some 4 }
    let wide : Sink := { room := some 10, refusesFlush := true }
    cut.room = some 4 ∧ wide.room = some 10 ∧
      Sink.Unfailing {} ∧
      (terse.encodeTo (.grammar ⟨[]⟩) cut).1.held =
        Utf8.encode "<gra" ∧
      (terse.encodeTo (.grammar ⟨[]⟩) cut).2.outcome ≠
        .ok () ∧
      (terse.encodeTo (.grammar ⟨[]⟩) wide).1.held =
        Utf8.encode "<grammar/>" ∧
      (terse.encodeTo (.grammar ⟨[]⟩) wide).2.outcome ≠
        .ok () := by
  intro cut wide
  have hPlain : Sink.Unfailing {} := ⟨rfl, rfl⟩
  have hDocument :
      (terse.documentFor (.grammar ⟨[]⟩)).outcome =
        .ok ⟨⟨"grammar", [], []⟩⟩ := by
    cbv
  have hWhole :
      (terse.encodeTo (.grammar ⟨[]⟩) {}).1.held =
        Utf8.encode "<grammar/>" := by
    cbv
  have hLength : (Utf8.encode "<grammar/>").length = 10 := by
    decide
  have hNarrow : cut.room = some 4 := rfl
  have hWide : wide.room = some 10 := rfl
  rcases ((cut_at_room hNarrow hPlain).2 terse
    (.grammar ⟨[]⟩)).2 _ hDocument with
    ⟨out, -, hOut, hCut, hCutOk, -⟩
  rcases ((cut_at_room hWide hPlain).2 terse
    (.grammar ⟨[]⟩)).2 _ hDocument with
    ⟨out', -, hOut', hAll, hAllOk, -⟩
  have hBytes : out = Utf8.encode "<grammar/>" :=
    hOut.symm.trans hWhole
  have hBytes' : out' = Utf8.encode "<grammar/>" :=
    hOut'.symm.trans hWhole
  subst hBytes hBytes'
  refine ⟨hNarrow, hWide, hPlain, hCut.trans (by decide),
    ?_, hAll.trans (by decide), ?_⟩
  · rw [Ne, hCutOk, hLength]
    simp
  · rw [Ne, hAllOk, hLength]
    simp [wide]

end Codec

end AutomataStore
