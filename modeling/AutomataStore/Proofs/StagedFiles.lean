import AutomataStore.Proofs.EncodableStructures
import AutomataStore.Proofs.WrittenFiles

/-
  Files are replaced as a whole or not at all.

  A structure is encoded into a staged file, which then takes
  the place of the destination.  Whatever a medium refuses on
  the way, the files are left as they were, without the staged
  one.  If it refuses nothing, exactly the destination changes
  and holds the bytes of the structure.

  Key definitions include:
    * `Medium.Admits`
    * `Files.Stageable`
    * `Files.Replaceable`

  Main declarations:
    * `Files.isSome_freshName?`
    * `Files.deliver_of_error`
    * `Files.deliver_eq_ok_iff`
    * `Codec.encodeFile_of_error`
    * `Codec.encodeFile_eq_ok_iff`
    * `Codec.outcome_encodeFile_eq_ok_iff`
    * `Codec.encodeFile_all_or_nothing`
-/

------------------------------------------------------------
-- Media
------------------------------------------------------------

namespace AutomataStore

/- A medium takes some bytes and refuses nothing after that. -/
structure Medium.Admits (m : Medium) (n : Nat) : Prop where
  fits : ∀ room, m.room = some room → n ≤ room
  flushes : m.refusesFlush = false
  syncs : m.refusesSync = false
  moves : m.refusesMove = false

/- A medium that refuses nothing takes any bytes. -/
theorem Medium.admits_plain (n : Nat) :
    Medium.plain.Admits n := by
  refine ⟨fun room hRoom => ?_, rfl, rfl, rfl⟩
  cases hRoom

/-
  A sink takes a document exactly if all of it fits and the
  sink can be flushed.
-/
theorem Document.writeTo_eq_ok_iff
    (d : Document)
    (l : Layout)
    (s : Sink) :
    (d.writeTo l s).2 = .ok () ↔
      (∀ room, s.room = some room →
        (d.toBytes l).length ≤ room) ∧
      s.refusesFlush = false := by
  cases hRoom : s.room with
  | none =>
      rw [writeTo, Sink.writeAll_of_room_eq_none hRoom,
        Sink.flush_eq_ok_iff]
      simp
  | some n =>
      rw [d.writeTo_eq_ok_iff_of_room l hRoom]
      simp

namespace Files

/- Names of staging files differ. -/
theorem stagingName_injective :
    Function.Injective stagingName := by
  intro n k hName
  have hDigits : sixDigits n = sixDigits k :=
    String.append_right_inj ".tmp" |>.mp hName
  have hValue :
      ∀ i, Nat.ofDigitChars 10 (sixDigits i).toList 0 = i := by
    intro i
    simp [sixDigits, Numeral.decimal, Nat.ofDigitChars_append,
      Nat.ofDigitChars_replicate_zero,
      Nat.ofDigitChars_toDigits]
  rw [← hValue n, hDigits, hValue k]

/-
  One of more names than there are entries is free in a
  folder.
-/
theorem isSome_freshName?
    (fs : Files)
    (folder : Location) :
    (fs.freshName? folder).isSome := by
  apply Decidable.byContradiction
  intro hNone
  let candidates : List Location :=
    (List.range (fs.entries.length + 1)).map
      fun n => folder ++ [stagingName n]
  -- if all are taken, the entries are too few for them
  have hTaken : candidates ⊆ fs.entries.map Prod.fst := by
    intro l hl
    rcases List.mem_map.mp hl with ⟨n, hn, rfl⟩
    apply Decidable.byContradiction
    intro hFree
    have hEntry :
        fs.entry? (folder ++ [stagingName n]) = none := by
      rw [entry?_of_ne_nil fs (by simp),
        List.lookup_eq_none_iff]
      intro x hx
      rw [bne_iff_ne]
      intro hEq
      exact hFree (hEq ▸ List.mem_map_of_mem hx)
    rw [Option.not_isSome_iff_eq_none, freshName?,
      List.find?_eq_none] at hNone
    exact hNone _ (List.mem_map_of_mem hn) (by simp [hEntry])
  have hDistinct : candidates.Nodup := by
    refine List.nodup_range.map ?_
    intro n k hEq
    exact stagingName_injective (by simpa using hEq)
  have hLength := hDistinct.length_le_of_subset hTaken
  simp [candidates] at hLength

------------------------------------------------------------
-- Staging and Delivery
------------------------------------------------------------

/- A file is staged, empty, where there was nothing. -/
theorem of_stage?_eq_some
    {fs staged : Files}
    {m : Medium}
    {path : String}
    {l : Location}
    (hStage : fs.stage? m path = some (l, staged)) :
    fs.entry? l = none ∧ fs.put l (.file []) = staged := by
  simp only [stage?] at hStage
  split at hStage
  · cases hStage
  · split at hStage
    · rcases Option.map_eq_some_iff.mp hStage with
        ⟨name, hName, hEq⟩
      rcases Prod.mk.inj hEq with ⟨rfl, rfl⟩
      exact ⟨m.entry?_of_freshName? hName, rfl⟩
    · cases hStage

/- A staged file is moved as a file is written. -/
theorem persist?_put
    {fs : Files}
    {l : Location}
    (hFree : fs.entry? l = none)
    (m : Medium)
    (content : Bytes)
    (path : String) :
    (fs.put l (.file content)).persist? m l path =
      if m.refusesMove then
        none
      else
        fs.write? path content := by
  have hThere :
      entry? (fs.put l (.file content)) l =
        some (.file content) := by
    rw [entry?_put fs (ne_nil_of_entry?_eq_none hFree),
      if_pos rfl]
  simp only [persist?, hThere, remove_put hFree]

/-
  Whatever is refused after staging, removing the staged file
  gives the files back as they were.
-/
theorem deliver_of_error
    {fs : Files}
    {l : Location}
    (hFree : fs.entry? l = none)
    {m : Medium}
    {d : Document}
    {layout : Layout}
    {path : String}
    {f : FileFault}
    (hError :
      ((fs.put l (.file [])).deliver m l d layout path).2 =
        .error f) :
    ((fs.put l (.file [])).deliver m l d layout
      path).1.remove l = fs := by
  simp only [deliver, put_put hFree] at hError ⊢
  -- each refusal leaves the staged file, with some content
  generalize d.writeTo layout m.sink = out at hError ⊢
  rcases out with ⟨sink, fault | _⟩
  · exact remove_put hFree _
  · cases hSync : m.refusesSync with
    | true => exact remove_put hFree _
    | false =>
        simp only [hSync, Bool.false_eq_true, if_false]
          at hError ⊢
        cases hMove :
            (fs.put l (.file sink.held)).persist? m l path with
        | none => exact remove_put hFree _
        | some moved =>
            simp only [hMove] at hError
            cases hError

/-
  A staged file is delivered exactly if the medium takes all
  of its bytes and refuses nothing, and the path leads to a
  place that is no folder.  Then this place alone is replaced.
-/
theorem deliver_eq_ok_iff
    {fs : Files}
    {l : Location}
    (hFree : fs.entry? l = none)
    (m : Medium)
    (d : Document)
    (layout : Layout)
    (path : String)
    (after : Files) :
    (fs.put l (.file [])).deliver m l d layout path =
        (after, .ok ()) ↔
      m.Admits (d.toBytes layout).length ∧
      fs.write? path (d.toBytes layout) = some after := by
  have hWritten := d.writeTo_eq_ok_iff layout m.sink
  have hHeld :
      (d.writeTo layout m.sink).2 = .ok () →
        (d.writeTo layout m.sink).1.held =
          d.toBytes layout :=
    fun hOk => Document.held_of_writeTo_eq_ok hOk
  have hRefused :
      ∀ (left : Files) (f : FileFault),
        ¬ m.Admits (d.toBytes layout).length →
        ((left, Except.error f) = (after, Except.ok ()) ↔
          m.Admits (d.toBytes layout).length ∧
          fs.write? path (d.toBytes layout) = some after) :=
    fun _ _ hNot =>
      iff_of_false (by simp) fun hDone => hNot hDone.1
  simp only [deliver, put_put hFree]
  generalize d.writeTo layout m.sink = out
    at hWritten hHeld ⊢
  rcases out with ⟨sink, fault | _⟩
  · refine hRefused _ _ fun hAdmits => ?_
    cases hWritten.mpr ⟨hAdmits.fits, hAdmits.flushes⟩
  · rcases hWritten.mp rfl with ⟨hFits, hFlush⟩
    have hHeld := hHeld rfl
    simp only at hHeld ⊢
    rw [hHeld, persist?_put hFree]
    cases hSync : m.refusesSync with
    | true =>
        refine hRefused _ _ fun hAdmits => ?_
        cases hSync.symm.trans hAdmits.syncs
    | false =>
        cases hMove : m.refusesMove with
        | true =>
            refine hRefused _ _ fun hAdmits => ?_
            cases hMove.symm.trans hAdmits.moves
        | false =>
            have hAdmits :
                m.Admits (d.toBytes layout).length :=
              ⟨hFits, hFlush, hSync, hMove⟩
            cases hPut : fs.write? path (d.toBytes layout) <;>
              simp [hAdmits]

/-
  A file can be staged for a path: the folder that holds the
  path is there, a name in it is usable, and the medium gives
  one.
-/
def Stageable
    (fs : Files)
    (m : Medium)
    (path : String) : Prop :=
  PathName.isUsable
      (fs.absolutePath (PathName.parent path) ++ "/" ++
        stagingName 0) = true ∧
    ∃ folder,
      fs.resolve? (PathName.parent path) = some folder ∧
      fs.entry? folder = some .folder ∧
      (m.freshName? fs folder).isSome

/- A path leads to a place that is no folder. -/
def Replaceable (fs : Files) (path : String) : Prop :=
  ∃ place, fs.resolve? path = some place ∧
    fs.entry? place ≠ some .folder

/- A medium that refuses nothing gives a name in any folder. -/
theorem stageable_plain_iff
    (fs : Files)
    (path : String) :
    fs.Stageable .plain path ↔
      PathName.isUsable
          (fs.absolutePath (PathName.parent path) ++ "/" ++
            stagingName 0) = true ∧
        (fs.resolve? (PathName.parent path)).bind fs.entry? =
          some .folder := by
  have hName :
      ∀ folder, (Medium.plain.freshName? fs folder).isSome :=
    fs.isSome_freshName?
  simp only [Stageable, hName, and_true,
    Option.bind_eq_some_iff]

/- Staging succeeds exactly where a file can be staged. -/
theorem isSome_stage?_iff
    (fs : Files)
    (m : Medium)
    (path : String) :
    (fs.stage? m path).isSome ↔ fs.Stageable m path := by
  simp only [stage?, Stageable]
  cases fs.resolve? (PathName.parent path) with
  | none => simp
  | some folder =>
      simp only [Option.some.injEq, exists_eq_left']
      split
      · rename_i hFolder
        simp [hFolder]
      · rename_i hNot
        simp only [Option.isSome_none, Bool.false_eq_true,
          false_iff]
        rintro ⟨hUsable, hFolder, _⟩
        exact hNot ⟨hUsable, hFolder⟩

end Files

------------------------------------------------------------
-- Structures in Files
------------------------------------------------------------

namespace Codec

variable {c : Codec} {fs : Files} {s : Structure}
variable {path : String} {m : Medium}

/-
  Whatever goes wrong, the files are left as they were.  It is
  the structure that is refused, or the file.
-/
theorem encodeFile_of_error
    {p : Problem}
    (hError :
      (c.encodeFile fs s path m).2.outcome = .error p) :
    (c.encodeFile fs s path m).1 = fs ∧
      ((c.documentFor s).outcome = .error p ∨
        ∃ f : FileFault, p = .unwritable path f.message) := by
  simp only [encodeFile] at hError ⊢
  cases hDocument : (c.documentFor s).outcome with
  | error q =>
      simp only [hDocument] at hError ⊢
      exact ⟨trivial,
        Or.inl (congrArg Except.error
          (Except.error.inj hError))⟩
  | ok d =>
      simp only [hDocument] at hError ⊢
      cases hStage : fs.stage? m path with
      | none =>
          simp only [hStage] at hError ⊢
          exact ⟨trivial, Or.inr
            ⟨.unstaged, (Except.error.inj hError).symm⟩⟩
      | some staged =>
          rcases staged with ⟨l, staged⟩
          rcases Files.of_stage?_eq_some hStage with
            ⟨hFree, rfl⟩
          simp only [hStage] at hError ⊢
          have hLeft :
              ∀ f, ((fs.put l (.file [])).deliver m l d
                  c.options.layout path).2 = .error f →
                ((fs.put l (.file [])).deliver m l d
                  c.options.layout path).1.remove l = fs :=
            fun _ => Files.deliver_of_error hFree
          -- `hLeft` is all that is needed of the delivery
          generalize
            (fs.put l (.file [])).deliver m l d
              c.options.layout path = delivered
            at hError hLeft ⊢
          rcases delivered with ⟨left, f | _⟩
          · exact ⟨hLeft f rfl, Or.inr
              ⟨f, (Except.error.inj hError).symm⟩⟩
          · cases hError

/-
  A structure is encoded into a file exactly if it has a
  document, a file can be staged, the medium takes the bytes
  of the document and refuses nothing, and a file with these
  bytes can be written at the path.
-/
theorem encodeFile_eq_ok_iff
    {after : Files}
    {written : String} :
    (c.encodeFile fs s path m).1 = after ∧
        (c.encodeFile fs s path m).2.outcome = .ok written ↔
      written = path ∧
      ∃ d, (c.documentFor s).outcome = .ok d ∧
        fs.Stageable m path ∧
        m.Admits (d.toBytes c.options.layout).length ∧
        fs.write? path (d.toBytes c.options.layout) =
          some after := by
  rw [← Files.isSome_stage?_iff]
  simp only [encodeFile]
  cases hDocument : (c.documentFor s).outcome with
  | error q => simp
  | ok d =>
      simp only [Except.ok.injEq, exists_eq_left']
      cases hStage : fs.stage? m path with
      | none => simp
      | some staged =>
          rcases staged with ⟨l, staged⟩
          rcases Files.of_stage?_eq_some hStage with
            ⟨hFree, rfl⟩
          have hDeliver :=
            Files.deliver_eq_ok_iff hFree m d
              c.options.layout path after
          simp only [Option.isSome_some, true_and, ← hDeliver]
          rcases (fs.put l (.file [])).deliver m l d
            c.options.layout path with ⟨left, f | _⟩
          · simp
          · simp [and_comm, eq_comm]

/- Encoding into a file gives its path or an error. -/
theorem exists_error_of_ne_ok
    (hNot : (c.encodeFile fs s path m).2.outcome ≠ .ok path) :
    ∃ p, (c.encodeFile fs s path m).2.outcome = .error p := by
  cases hOutcome : (c.encodeFile fs s path m).2.outcome with
  | error p => exact ⟨p, rfl⟩
  | ok written =>
      obtain ⟨rfl, _⟩ :=
        encodeFile_eq_ok_iff.mp ⟨rfl, hOutcome⟩
      exact absurd hOutcome hNot

/- What is encoded from well-formed automata can be stored. -/
theorem storable_of_canEncode
    {target : Structure}
    (hEncode : c.canEncode s = true)
    (hResolve : s.resolve? = some target)
    (hWellFormed :
      ∀ a, target.automaton? = some a → a.WellFormed) :
    target.Storable := by
  rcases canEncode_iff.mp hEncode with
    ⟨_, hSame, hBare, _⟩
  obtain rfl := Option.some.inj (hResolve.symm.trans hSame)
  cases target with
  | automaton a =>
      have hKind : a.kind ≠ .dependency := by
        simpa [Structure.isBareDependency] using hBare
      exact ⟨hKind, hWellFormed a rfl⟩
  | dependencyGraph g => exact hWellFormed g.automaton rfl
  | grammar g => trivial
  | chooser options selected =>
      have hSettled :=
        ((s.resolve?_eq_some_iff _).mp hResolve).2
      exact absurd ⟨⟨options, selected⟩, rfl⟩ hSettled

/-
  The bytes of a structure with a well-formed automaton are
  decoded as what it stands for.
-/
theorem decode_of_documentFor
    {o : CodecOptions}
    {target : Structure}
    {d : Document}
    (hDocument :
      (documentFor ⟨.standard, o⟩ s).outcome = .ok d)
    (hResolve : s.resolve? = some target)
    (hStorable : target.Storable)
    (l : Layout) :
    (decode ⟨.standard, o⟩ (d.toBytes l)).outcome =
      .ok target := by
  rcases exists_documentFor_of_storable hStorable o with
    ⟨d', hDocument', hDecode⟩
  rw [documentFor_of_resolve?_eq_some hResolve,
    hDocument'] at hDocument
  rw [← Except.ok.inj hDocument]
  exact hDecode l

/-
  Encoding into a file succeeds exactly if the structure can
  be encoded, a file can be staged, the medium takes the bytes
  of the structure and refuses nothing, and the path leads to
  no folder.
-/
theorem outcome_encodeFile_eq_ok_iff
    (c : Codec)
    (fs : Files)
    (s : Structure)
    (path : String)
    (m : Medium) :
    (c.encodeFile fs s path m).2.outcome = .ok path ↔
      c.canEncode s = true ∧ fs.Stageable m path ∧
        m.Admits (c.encodeTo s {}).1.held.length ∧
        fs.Replaceable path := by
  have hPlain : Sink.Unfailing {} := ⟨rfl, rfl⟩
  constructor
  · intro hOk
    rcases encodeFile_eq_ok_iff.mp ⟨rfl, hOk⟩ with
      ⟨_, d, hDocument, hStage, hAdmits, hWrite⟩
    rcases (Files.write?_eq_some_iff ..).mp hWrite with
      ⟨place, hPlace, hFile, _⟩
    have hHeld := (encodeTo_of_unfailing hDocument hPlain).2
    refine ⟨canEncode_of_documentFor hDocument, hStage, ?_,
      place, hPlace, hFile⟩
    rwa [hHeld]
  · rintro ⟨hEncode, hStage, hAdmits, place, hPlace, hFile⟩
    rcases exists_documentFor_of_canEncode hEncode with
      ⟨d, hDocument⟩
    have hHeld := (encodeTo_of_unfailing hDocument hPlain).2
    rw [hHeld] at hAdmits
    exact (encodeFile_eq_ok_iff.mpr
      ⟨rfl, d, hDocument, hStage, hAdmits,
        (Files.write?_eq_some_iff ..).mpr
          ⟨place, hPlace, hFile, rfl⟩⟩).2

/-
  On a medium that refuses nothing it takes a structure that
  can be encoded, a folder that holds the path, and a place
  that is no folder.
-/
theorem outcome_encodeFile_plain_eq_ok_iff
    (c : Codec)
    (fs : Files)
    (s : Structure)
    (path : String) :
    (c.encodeFile fs s path).2.outcome = .ok path ↔
      c.canEncode s = true ∧
        PathName.isUsable
          (fs.absolutePath (PathName.parent path) ++ "/" ++
            Files.stagingName 0) = true ∧
        (fs.resolve? (PathName.parent path)).bind fs.entry? =
          some .folder ∧
        fs.Replaceable path := by
  rw [outcome_encodeFile_eq_ok_iff,
    Files.stageable_plain_iff, and_assoc]
  simp only [Medium.admits_plain, true_and]

------------------------------------------------------------
-- All or Nothing
------------------------------------------------------------

/-
  Encoding a structure into a file succeeds exactly if the
  structure can be encoded, a file can be staged, the medium
  takes the bytes of the structure and refuses nothing, and
  the path leads to no folder.  Otherwise all files are left
  as they were.  If it succeeds, exactly the place of the path
  has changed; it holds the bytes that a sink gets, and these
  are decoded as what the structure stands for if that is well
  formed.
-/
theorem encodeFile_all_or_nothing
    (c : Codec)
    (fs : Files)
    (s : Structure)
    (path : String)
    (m : Medium) :
    (∀ p, (c.encodeFile fs s path m).2.outcome = .error p →
      (c.encodeFile fs s path m).1 = fs ∧
      (p = .unsupportedStructure s.storedKind ∨
        ∃ f : FileFault, p = .unwritable path f.message)) ∧
    (∀ written,
      (c.encodeFile fs s path m).2.outcome = .ok written →
      written = path ∧
      ∃ place content target,
        fs.resolve? path = some place ∧
        fs.ReplacedAt (c.encodeFile fs s path m).1 place
          content ∧
        (∀ sink, sink.Unfailing →
          (c.encodeTo s sink).2.outcome = .ok () ∧
          (c.encodeTo s sink).1.held =
            sink.held ++ content) ∧
        s.resolve? = some target ∧
        (c.registry = .standard →
          (∀ a, target.automaton? = some a →
            a.WellFormed) →
          (c.decodeFile (c.encodeFile fs s path m).1
            path).outcome = .ok target)) ∧
    ((c.encodeFile fs s path m).2.outcome = .ok path ↔
      c.canEncode s = true ∧ fs.Stageable m path ∧
        m.Admits (c.encodeTo s {}).1.held.length ∧
        fs.Replaceable path) := by
  refine ⟨fun p hError => ?_, fun written hOk => ?_,
    outcome_encodeFile_eq_ok_iff c fs s path m⟩
  · rcases encodeFile_of_error hError with
      ⟨hSame, hStructure | hFile⟩
    · refine ⟨hSame, Or.inl ?_⟩
      cases hEncode : c.canEncode s with
      | true =>
          rcases exists_documentFor_of_canEncode hEncode with
            ⟨d, hDocument⟩
          rw [hDocument] at hStructure
          cases hStructure
      | false =>
          rw [documentFor_of_not_canEncode hEncode] at hStructure
          exact (Except.error.inj hStructure).symm
    · exact ⟨hSame, Or.inr hFile⟩
  · rcases encodeFile_eq_ok_iff.mp ⟨rfl, hOk⟩ with
      ⟨hPath, d, hDocument, _, _, hWrite⟩
    rcases (Files.write?_eq_some_iff ..).mp hWrite with
      ⟨place, hPlace, hFile, hAfter⟩
    have hEncode := canEncode_of_documentFor hDocument
    rcases canEncode_iff.mp hEncode with
      ⟨target, hResolve, _⟩
    refine ⟨hPath, place, d.toBytes c.options.layout, target,
      hPlace, ?_,
      fun sink hSink => encodeTo_of_unfailing hDocument hSink,
      hResolve, fun hStandard hWellFormed => ?_⟩
    · rw [← hAfter]
      exact Files.replacedAt_put_file hFile _
    · rcases c with ⟨registry, o⟩
      obtain rfl : registry = .standard := hStandard
      have hStorable :=
        storable_of_canEncode hEncode hResolve hWellFormed
      simp only [decodeFile, ← hAfter,
        Files.read?_put_file hPlace hFile]
      exact decode_of_documentFor hDocument hResolve hStorable _

/- A working folder with a file and a folder in it. -/
def desk : Files where
  entries :=
    [(["home"], .folder),
     (["home", "g.jff"], .file (Utf8.encode "old")),
     (["home", "box"], .folder)]
  working := ["home"]

/- A medium with room for four more bytes. -/
def cramped : Medium :=
  { Medium.plain with room := some 4 }

/-
  A grammar replaces the file and is decoded from it.  It is
  not put in place of the folder, and a medium with too little
  room keeps the old file.
-/
theorem encodeFile_all_or_nothing_desk :
    let g : Structure := .grammar ⟨[]⟩
    (terse.encodeFile desk g "g.jff").2.outcome =
        .ok "g.jff" ∧
      (terse.decodeFile (terse.encodeFile desk g "g.jff").1
        "g.jff").outcome = .ok g ∧
      (terse.encodeFile desk g "box").2.outcome ≠ .ok "box" ∧
      (terse.encodeFile desk g "box").1 = desk ∧
      (terse.encodeFile desk g "g.jff" cramped).2.outcome ≠
        .ok "g.jff" ∧
      (terse.encodeFile desk g "g.jff" cramped).1 = desk := by
  intro g
  have hEncode : terse.canEncode g = true := by cbv
  have hHeld :
      (terse.encodeTo g {}).1.held =
        Utf8.encode "<grammar/>" := by
    cbv
  have hStage : desk.Stageable .plain "g.jff" := by
    rw [Files.stageable_plain_iff]
    decide +kernel
  have hFile : desk.Replaceable "g.jff" :=
    ⟨["home", "g.jff"], by decide +kernel⟩
  have hFolder : ¬ desk.Replaceable "box" := by
    rintro ⟨place, hPlace, hNot⟩
    have hBox : desk.resolve? "box" = some ["home", "box"] := by
      decide +kernel
    obtain rfl := Option.some.inj (hBox.symm.trans hPlace)
    exact hNot (by decide)
  have hNarrow : ¬ cramped.Admits 10 :=
    fun hAdmits => absurd (hAdmits.fits 4 rfl) (by decide)
  obtain ⟨-, hWritten, hOk⟩ :=
    encodeFile_all_or_nothing terse desk g "g.jff" .plain
  obtain ⟨hBoxFiles, -, hBox⟩ :=
    encodeFile_all_or_nothing terse desk g "box" .plain
  obtain ⟨hCrampedFiles, -, hCramped⟩ :=
    encodeFile_all_or_nothing terse desk g "g.jff" cramped
  have hDone := hOk.mpr
    ⟨hEncode, hStage, Medium.admits_plain _, hFile⟩
  have hBoxFails := fun hDone => hFolder (hBox.mp hDone).2.2.2
  have hCrampedFails := fun hDone => hNarrow (by
    have hAdmits := (hCramped.mp hDone).2.2.1
    rwa [hHeld] at hAdmits)
  obtain ⟨_, _, _, target, _, _, _, hResolve, hDecode⟩ :=
    hWritten _ hDone
  obtain rfl : g = target := by
    simpa [g, Structure.resolve?, Structure.resolveAt?] using
      hResolve
  obtain ⟨_, hBoxError⟩ := exists_error_of_ne_ok hBoxFails
  obtain ⟨_, hCrampedError⟩ :=
    exists_error_of_ne_ok hCrampedFails
  exact ⟨hDone, hDecode rfl (by rintro _ ⟨⟩),
    hBoxFails, (hBoxFiles _ hBoxError).1,
    hCrampedFails, (hCrampedFiles _ hCrampedError).1⟩

end Codec

end AutomataStore
