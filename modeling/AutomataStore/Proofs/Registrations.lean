import AutomataStore.Proofs.StoredStructures

/-
  When both directions of a registry agree.

  A registry finds the transducer registered last for a kind
  and the one registered last under a tag.  The transducer
  that writes structures of a kind also reads the documents
  with its tag exactly if no transducer registered after it
  has the same tag; otherwise one for another kind reads them.

  Key definitions include:
    * `Registry.since`
    * `Registry.Agrees`

  Main declarations:
    * `Registry.agrees_register_iff`
    * `Registry.agrees_iff`
    * `Registry.forDocument_of_forStructure`
-/

------------------------------------------------------------
-- Entries under Two Keys
------------------------------------------------------------

namespace AutomataStore

namespace Registry

/-
  The first entry with one key that has the other key of the
  first entry with some value of the first key stands before
  that entry, or is that entry.
-/
theorem find?_eq_getD_takeWhile
    {α β γ : Type}
    [DecidableEq β]
    [DecidableEq γ]
    (f : α → β)
    (g : α → γ)
    {l : List α}
    {b : β}
    {a : α}
    (hFirst : l.find? (fun x => f x = b) = some a) :
    l.find? (fun x => g x = g a) =
      some (((l.takeWhile fun x => f x ≠ b).find?
        fun x => g x = g a).getD a) := by
  induction l with
  | nil => cases hFirst
  | cons x l ih =>
      by_cases hKey : f x = b
      · obtain rfl : x = a := by
          simpa [hKey] using hFirst
        simp [hKey]
      · have hLater :
            l.find? (fun x => f x = b) = some a := by
          simpa [hKey] using hFirst
        by_cases hOther : g x = g a
        · simp [hKey, hOther]
        · simpa [hKey, hOther] using ih hLater

------------------------------------------------------------
-- One Registration
------------------------------------------------------------

/- The transducers registered since the last one for a kind. -/
def since
    (r : Registry)
    (k : StructureKind) : List Transducer :=
  r.newestFirst.takeWhile fun t => t.kind ≠ k

/- A registration replaces the transducer for its kind. -/
@[simp]
theorem ofKind?_register
    (r : Registry)
    (t : Transducer)
    (k : StructureKind) :
    (r.register t).ofKind? k =
      if t.kind = k then
        some t
      else
        r.ofKind? k := by
  by_cases hKind : t.kind = k <;>
    simp [register, ofKind?, hKind]

/- A registration replaces the transducer under its tag. -/
@[simp]
theorem ofTag?_register
    (r : Registry)
    (t : Transducer)
    (tag : String) :
    (r.register t).ofTag? tag =
      if t.tag = tag then
        some t
      else
        r.ofTag? tag := by
  by_cases hTag : t.tag = tag <;>
    simp [register, ofTag?, hTag]

/- A registration comes after the last one of other kinds. -/
@[simp]
theorem since_register
    (r : Registry)
    (t : Transducer)
    (k : StructureKind) :
    (r.register t).since k =
      if t.kind = k then
        []
      else
        t :: r.since k := by
  by_cases hKind : t.kind = k <;>
    simp [register, since, hKind]

/- The transducer for a kind is one for that kind. -/
theorem kind_of_ofKind?
    {r : Registry}
    {k : StructureKind}
    {t : Transducer}
    (hKind : r.ofKind? k = some t) :
    t.kind = k := by
  simpa using List.find?_some hKind

/- The transducer under a tag has that tag. -/
theorem tag_of_ofTag?
    {r : Registry}
    {tag : String}
    {t : Transducer}
    (hTag : r.ofTag? tag = some t) :
    t.tag = tag := by
  simpa using List.find?_some hTag

/- No transducer registered since is one for the kind. -/
theorem kind_ne_of_mem_since
    {r : Registry}
    {k : StructureKind}
    {t : Transducer}
    (hSince : t ∈ r.since k) :
    t.kind ≠ k := by
  simpa using List.all_eq_true.mp List.all_takeWhile t hSince

/-
  The documents with the tag of the transducer for a kind are
  read by the last transducer registered since with that tag,
  which is one for another kind, and by itself if there is
  none.
-/
theorem exists_ofTag?_of_ofKind?
    {r : Registry}
    {k : StructureKind}
    {t : Transducer}
    (hKind : r.ofKind? k = some t) :
    ∃ u, r.ofTag? t.tag = some u ∧
      (u = t ↔ ∀ v ∈ r.since k, v.tag ≠ t.tag) ∧
      (u ≠ t → u.kind ≠ k) := by
  have hRead :
      r.ofTag? t.tag =
        some (((r.since k).find? fun u => u.tag = t.tag).getD
          t) :=
    find?_eq_getD_takeWhile Transducer.kind Transducer.tag
      hKind
  refine ⟨_, hRead, ?_⟩
  cases hFound :
      (r.since k).find? fun u => u.tag = t.tag with
  | none => simpa using hFound
  | some u =>
      have hSince : u ∈ r.since k :=
        List.mem_of_find?_eq_some hFound
      have hSame : u.tag = t.tag := by
        simpa using List.find?_some hFound
      have hOther : u.kind ≠ k := kind_ne_of_mem_since hSince
      have hNot : u ≠ t := by
        rintro rfl
        exact hOther (kind_of_ofKind? hKind)
      simp only [Option.getD_some]
      exact
        ⟨iff_of_false hNot fun hNone =>
            hNone u hSince hSame,
          fun _ => hOther⟩

/-
  The transducer for a kind reads the documents with its tag
  exactly if its tag was not registered since.
-/
theorem ofTag?_eq_some_iff_since
    {r : Registry}
    {k : StructureKind}
    {t : Transducer}
    (hKind : r.ofKind? k = some t) :
    r.ofTag? t.tag = some t ↔
      ∀ u ∈ r.since k, u.tag ≠ t.tag := by
  rcases exists_ofTag?_of_ofKind? hKind with
    ⟨u, hRead, hSame, -⟩
  rw [hRead, Option.some.injEq, hSame]

------------------------------------------------------------
-- Agreement
------------------------------------------------------------

/-
  Both directions of a registry agree: what encodes some kind
  of structures also decodes the documents with its tag.
-/
def Agrees (r : Registry) : Prop :=
  ∀ k t, r.ofKind? k = some t → r.ofTag? t.tag = some t

/- A registry without transducers agrees. -/
theorem agrees_empty : Agrees {} := by
  intro k t hKind
  cases hKind

/-
  A registration keeps the agreement exactly if its tag is
  not the tag of the transducer for another kind.
-/
theorem agrees_register_iff
    {r : Registry}
    (hAgrees : r.Agrees)
    (t : Transducer) :
    (r.register t).Agrees ↔
      ∀ k u, r.ofKind? k = some u → u.tag = t.tag →
        k = t.kind := by
  constructor
  · intro hAfter k u hKind hTag
    apply Decidable.byContradiction
    intro hOther
    have hLater : (r.register t).ofKind? k = some u := by
      simpa [Ne.symm hOther] using hKind
    have hFound := hAfter k u hLater
    simp only [ofTag?_register, hTag, if_true,
      Option.some.injEq] at hFound
    exact hOther (hFound ▸ (kind_of_ofKind? hKind).symm)
  · intro hApart k u hKind
    by_cases hSame : t.kind = k
    · obtain rfl : t = u := by
        simpa [hSame] using hKind
      simp
    · have hBefore : r.ofKind? k = some u := by
        simpa [hSame] using hKind
      have hTag : t.tag ≠ u.tag := by
        intro hTag
        exact hSame (hApart k u hBefore hTag.symm).symm
      simpa [hTag] using hAgrees k u hBefore

/-
  A registry agrees exactly if no transducer in use for a
  kind was followed by one with the same tag.
-/
theorem agrees_iff
    (r : Registry) :
    r.Agrees ↔
      ∀ k t, r.ofKind? k = some t →
        ∀ u ∈ r.since k, u.tag ≠ t.tag := by
  constructor
  · intro hAgrees k t hKind
    exact (ofTag?_eq_some_iff_since hKind).mp
      (hAgrees k t hKind)
  · intro hSince k t hKind
    exact (ofTag?_eq_some_iff_since hKind).mpr
      (hSince k t hKind)

/-
  Registrations one after the other keep the agreement if
  none of them takes the tag of another kind.
-/
theorem agrees_foldl_register
    {start : Registry}
    (hStart : start.Agrees)
    (ts : List Transducer)
    (hApart :
      ∀ t ∈ ts, (∀ k u, start.ofKind? k = some u →
          u.tag = t.tag → k = t.kind) ∧
        ∀ u ∈ ts, u.tag = t.tag → u.kind = t.kind) :
    (ts.foldl register start).Agrees := by
  induction ts generalizing start with
  | nil => exact hStart
  | cons t ts ih =>
      have hNext : (start.register t).Agrees :=
        (agrees_register_iff hStart t).mpr
          (hApart t List.mem_cons_self).1
      refine ih hNext fun v hv => ⟨?_, ?_⟩
      · intro k u hKind hTag
        have hLater := hApart v (List.mem_cons_of_mem t hv)
        by_cases hSame : t.kind = k
        · obtain rfl : t = u := by
            simpa [hSame] using hKind
          exact hSame ▸ hLater.2 t List.mem_cons_self hTag
        · have hBefore : start.ofKind? k = some u := by
            simpa [hSame] using hKind
          exact hLater.1 k u hBefore hTag
      · intro u hu
        exact (hApart v (List.mem_cons_of_mem t hv)).2 u
          (List.mem_cons_of_mem t hu)

/- The standard registry agrees. -/
theorem agrees_standard : standard.Agrees := by
  have hForm :
      ∀ f t, standard.ofKind? (Form.kind f) = some t →
        standard.ofTag? t.tag = some t := by
    intro f t hKind
    rw [ofKind?_standard] at hKind
    rw [← Option.some.inj hKind]
    exact ofTag?_standard f
  intro k t hKind
  cases k with
  | grammar => exact hForm .grammar t hKind
  | automaton kind => exact hForm (.automaton kind) t hKind
  | chooser => cases hKind

------------------------------------------------------------
-- Choosing Transducers
------------------------------------------------------------

/- The transducer chosen for a structure is that of its kind. -/
theorem forStructure_eq_ok_iff
    (r : Registry)
    (s : Structure)
    (t : Transducer) :
    (r.forStructure s).outcome = .ok t ↔
      r.ofKind? s.kind = some t := by
  rw [forStructure]
  cases r.ofKind? s.kind with
  | none => simp [Traced.fail]
  | some u => simp [Traced.notify, Except.bind]

/- The transducer chosen for a document is that of its tag. -/
theorem forDocument_eq_ok_iff
    (r : Registry)
    (d : Document)
    (t : Transducer) :
    (r.forDocument d).outcome = .ok t ↔
      r.ofTag? d.typeTag = some t := by
  rw [forDocument]
  cases r.ofTag? d.typeTag with
  | none => simp [Traced.fail]
  | some u => simp [Traced.notify, Except.bind]

/-
  After any history of registrations, a document with the tag
  of the transducer for a structure is read by a transducer
  with that tag.  It is the same transducer exactly if none
  registered after it has its tag, and it is one for another
  kind of structures otherwise.
-/
theorem forDocument_of_forStructure
    (start : Registry)
    (ts : List Transducer)
    (s : Structure)
    (d : Document)
    (t : Transducer)
    (hStructure :
      ((ts.foldl register start).forStructure s).outcome =
        .ok t)
    (hTag : d.typeTag = t.tag) :
    ∃ u,
      ((ts.foldl register start).forDocument d).outcome =
        .ok u ∧
      u.tag = t.tag ∧
      (u = t ↔
        ∀ v ∈ (ts.foldl register start).since s.kind,
          v.tag ≠ t.tag) ∧
      (u ≠ t → u.kind ≠ s.kind) := by
  rw [forStructure_eq_ok_iff] at hStructure
  rcases exists_ofTag?_of_ofKind? hStructure with
    ⟨u, hRead, hSame, hOther⟩
  refine ⟨u, ?_, tag_of_ofTag? hRead, hSame, hOther⟩
  rw [forDocument_eq_ok_iff, hTag, hRead]

/- A transducer for finite automata under the grammar's tag. -/
def masquerading : Transducer :=
  ⟨GrammarForm.tag, .automaton .finite⟩

/-
  Registered in the standard registry, it reads the document
  that the transducer for grammars writes.
-/
theorem forDocument_of_forStructure_masquerading :
    ∃ d u,
      (Form.grammar.write (.grammar ⟨[]⟩)) = .ok d ∧
      (([masquerading].foldl register standard).forStructure
        (.grammar ⟨[]⟩)).outcome = .ok (.ofForm .grammar) ∧
      d.typeTag = (Transducer.ofForm .grammar).tag ∧
      (([masquerading].foldl register standard).forDocument
        d).outcome = .ok u ∧
      u.tag = (Transducer.ofForm .grammar).tag ∧
      u.kind ≠ .grammar := by
  have hStructure :
      (([masquerading].foldl register standard).forStructure
        (.grammar ⟨[]⟩)).outcome =
        .ok (.ofForm .grammar) := by
    rfl
  have hTag := GrammarForm.typeTag_document ⟨[]⟩
  rcases forDocument_of_forStructure standard [masquerading]
    _ _ _ hStructure hTag with
    ⟨u, hRead, hSame, hStays, hOther⟩
  have hTaken : u ≠ .ofForm .grammar := by
    rw [Ne, hStays]
    intro hNone
    exact hNone masquerading (by decide) rfl
  exact ⟨_, u, rfl, hStructure, hTag, hRead, hSame,
    hOther hTaken⟩

/-
  The two directions do not always agree: the grammar that
  one transducer wrote is read by the masquerading one.
-/
theorem grammar_of_masquerading :
    ((standard.register masquerading).forStructure
        (.grammar ⟨[]⟩)).outcome =
        .ok (.ofForm .grammar) ∧
      (GrammarForm.document ⟨[]⟩).typeTag =
        (Transducer.ofForm .grammar).tag ∧
      ((standard.register masquerading).forDocument
        (GrammarForm.document ⟨[]⟩)).outcome =
        .ok masquerading ∧
      masquerading ≠ .ofForm .grammar := by
  refine ⟨rfl, GrammarForm.typeTag_document ⟨[]⟩, ?_, ?_⟩
  · rfl
  · decide

end Registry

end AutomataStore
