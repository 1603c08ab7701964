import AutomataStore.Storage.Codec
import Mathlib

/-
  Choosers stand for what they select.

  A chooser leads to its selected option, and through choosers
  inside choosers to the structure at the end.  There is none
  exactly if some chooser on the way selects a place past its
  last option.  Files know only the structure at the end.
  Choosers that are built with an option and changed by
  selections alone always lead to one.

  Key definitions include:
    * `Structure.Selects`, `Structure.LeadsTo`
    * `Structure.SelectsNothing`
    * `Structure.Assembled`

  Main declarations:
    * `Structure.resolve?_eq_some_iff`
    * `Structure.resolve?_eq_none_iff`
    * `Codec.encodeTo_of_resolve?_eq_some`
    * `Chooser.selected_selectAll_lt`
    * `Structure.exists_resolve?_of_assembled`
    * `Codec.encodeTo_through_selections`
-/

------------------------------------------------------------
-- Chains of Selections
------------------------------------------------------------

namespace AutomataStore

namespace Structure

/- A chooser selects its current option. -/
def Selects (s t : Structure) : Prop :=
  ∃ c : Chooser, s = c.toStructure ∧ c.current? = some t

/- The structures on the chain of selections from another. -/
def LeadsTo : Structure → Structure → Prop :=
  Relation.ReflTransGen Selects

/- A chooser selects nothing past its last option. -/
def SelectsNothing (s : Structure) : Prop :=
  ∃ c : Chooser, s = c.toStructure ∧
    c.options.length ≤ c.selected.toNat

/- A place of a list stands for the structure at that place. -/
theorem resolveAt?_eq_bind
    (l : List Structure)
    (n : Nat) :
    resolveAt? l n = l[n]?.bind resolve? := by
  induction l generalizing n with
  | nil => simp [resolveAt?]
  | cons s rest ih =>
      cases n with
      | zero => cases s <;> simp [resolve?, resolveAt?]
      | succ n => cases s <;> simp [resolveAt?, ih]

/- A chooser stands for what its current option stands for. -/
theorem resolve?_toStructure
    (c : Chooser) :
    c.toStructure.resolve? = c.current?.bind resolve? := by
  rw [Chooser.current?, ← resolveAt?_eq_bind]
  simp [resolve?, Chooser.toStructure, resolveAt?]

/- What is no chooser stands for itself. -/
theorem resolve?_of_not_isChooser
    {s : Structure}
    (hs : ¬ s.IsChooser) :
    s.resolve? = some s := by
  cases s with
  | chooser options selected =>
      exact absurd ⟨⟨options, selected⟩, rfl⟩ hs
  | _ => simp [resolve?, resolveAt?]

/- A chooser that selects nothing stands for nothing. -/
theorem resolve?_of_selectsNothing
    {s : Structure}
    (hs : s.SelectsNothing) :
    s.resolve? = none := by
  rcases hs with ⟨c, rfl, hPast⟩
  rw [resolve?_toStructure, Chooser.current?,
    List.getElem?_eq_none hPast, Option.bind_none]

/- Everything on a chain stands for the same structure. -/
theorem resolve?_of_leadsTo
    {s t : Structure}
    (hLeads : s.LeadsTo t) :
    s.resolve? = t.resolve? := by
  induction hLeads with
  | refl => rfl
  | tail _ hStep ih =>
      rcases hStep with ⟨c, rfl, hCurrent⟩
      rw [ih, resolve?_toStructure, hCurrent,
        Option.bind_some]

/-
  Every chain ends, in what is no chooser or in a chooser
  that selects nothing.
-/
theorem exists_end_of_chain
    (s : Structure) :
    ∃ t, s.LeadsTo t ∧ (¬ t.IsChooser ∨ t.SelectsNothing) := by
  induction s using inductionOnOptions with
  | settled s hs => exact ⟨s, .refl, Or.inl hs⟩
  | chooser c ih =>
      cases hCurrent : c.current? with
      | none =>
          have hPast : c.options.length ≤ c.selected.toNat :=
            List.getElem?_eq_none_iff.mp hCurrent
          exact
            ⟨c.toStructure, .refl, Or.inr ⟨c, rfl, hPast⟩⟩
      | some t =>
          -- the chain goes on from one of the options
          have hMem : t ∈ c.options :=
            List.mem_of_getElem? hCurrent
          rcases ih t hMem with ⟨u, hLeads, hEnd⟩
          exact ⟨u, .head ⟨c, rfl, hCurrent⟩ hLeads, hEnd⟩

/-
  A structure stands for what is no chooser at the end of its
  chain.
-/
theorem resolve?_eq_some_iff
    (s t : Structure) :
    s.resolve? = some t ↔ s.LeadsTo t ∧ ¬ t.IsChooser := by
  constructor
  · intro hResolve
    rcases exists_end_of_chain s with ⟨u, hLeads, hEnd⟩
    have hSame := resolve?_of_leadsTo hLeads
    rcases hEnd with hSettled | hNothing
    · rw [hResolve, resolve?_of_not_isChooser hSettled,
        Option.some.injEq] at hSame
      exact hSame ▸ ⟨hLeads, hSettled⟩
    · rw [hResolve, resolve?_of_selectsNothing hNothing] at hSame
      cases hSame
  · rintro ⟨hLeads, hSettled⟩
    rw [resolve?_of_leadsTo hLeads,
      resolve?_of_not_isChooser hSettled]

/-
  A structure stands for nothing exactly if a chooser on its
  chain selects nothing.
-/
theorem resolve?_eq_none_iff
    (s : Structure) :
    s.resolve? = none ↔
      ∃ t, s.LeadsTo t ∧ t.SelectsNothing := by
  constructor
  · intro hResolve
    rcases exists_end_of_chain s with
      ⟨t, hLeads, hSettled | hNothing⟩
    · have hSame := resolve?_of_leadsTo hLeads
      rw [hResolve, resolve?_of_not_isChooser hSettled] at hSame
      cases hSame
    · exact ⟨t, hLeads, hNothing⟩
  · rintro ⟨t, hLeads, hNothing⟩
    rw [resolve?_of_leadsTo hLeads,
      resolve?_of_selectsNothing hNothing]

/- What a structure stands for stands for itself. -/
theorem resolve?_of_resolve?_eq_some
    {s t : Structure}
    (hResolve : s.resolve? = some t) :
    t.resolve? = some t :=
  resolve?_of_not_isChooser
    ((resolve?_eq_some_iff s t).mp hResolve).2

end Structure

------------------------------------------------------------
-- Files
------------------------------------------------------------

namespace Codec

/- A structure has the document of what it stands for. -/
theorem documentFor_of_resolve?_eq_some
    {s t : Structure}
    (hResolve : s.resolve? = some t)
    (c : Codec) :
    c.documentFor s = c.documentFor t := by
  unfold documentFor
  rw [hResolve,
    Structure.resolve?_of_resolve?_eq_some hResolve]

/- Encoding a structure encodes what it stands for. -/
theorem encodeTo_of_resolve?_eq_some
    {s t : Structure}
    (hResolve : s.resolve? = some t)
    (c : Codec)
    (sink : Sink) :
    c.encodeTo s sink = c.encodeTo t sink := by
  unfold encodeTo
  rw [documentFor_of_resolve?_eq_some hResolve]

/- Nothing is written for a structure that stands for nothing. -/
theorem encodeTo_of_resolve?_eq_none
    {s : Structure}
    (hResolve : s.resolve? = none)
    (c : Codec)
    (sink : Sink) :
    c.encodeTo s sink =
      (sink, .fail (.unsupportedStructure .chooser)) := by
  unfold encodeTo documentFor
  rw [hResolve]
  rfl

end Codec

------------------------------------------------------------
-- Runs of Selections
------------------------------------------------------------

namespace Chooser

/- A place of an option is selected. -/
theorem select_of_lt
    {c : Chooser}
    {i : UInt64}
    (hPlace : i.toNat < c.options.length) :
    c.select i = (true, { c with selected := i }) := by
  simp [select, select?, hPlace]

/- A place past the last option changes nothing. -/
theorem select_of_le
    {c : Chooser}
    {i : UInt64}
    (hPast : c.options.length ≤ i.toNat) :
    c.select i = (false, c) := by
  simp [select, select?, Nat.not_lt.mpr hPast]

/- A selection keeps the options. -/
theorem options_select
    (c : Chooser)
    (i : UInt64) :
    (c.select i).2.options = c.options := by
  rcases Nat.lt_or_ge i.toNat c.options.length with
    hPlace | hPast
  · rw [select_of_lt hPlace]
  · rw [select_of_le hPast]

/- A selection keeps the selected place below the last. -/
theorem selected_select_lt
    {c : Chooser}
    (hSelected : c.selected.toNat < c.options.length)
    (i : UInt64) :
    (c.select i).2.selected.toNat < c.options.length := by
  rcases Nat.lt_or_ge i.toNat c.options.length with
    hPlace | hPast
  · rwa [select_of_lt hPlace]
  · rwa [select_of_le hPast]

/- A run of selections keeps the options. -/
theorem options_selectAll
    (c : Chooser)
    (l : List UInt64) :
    (c.selectAll l).options = c.options := by
  induction l generalizing c with
  | nil => rfl
  | cons i l ih =>
      exact (ih (c.select i).2).trans (options_select c i)

/- A run of selections keeps the selected place below the last. -/
theorem selected_selectAll_lt
    {c : Chooser}
    (hSelected : c.selected.toNat < c.options.length)
    (l : List UInt64) :
    (c.selectAll l).selected.toNat < c.options.length := by
  induction l generalizing c with
  | nil => exact hSelected
  | cons i l ih =>
      have hNext :
          (c.select i).2.selected.toNat <
            (c.select i).2.options.length := by
        rw [options_select]
        exact selected_select_lt hSelected i
      have hRun := ih hNext
      rwa [options_select] at hRun

/- A new chooser over some option selects one. -/
theorem selected_ofOptions_lt
    {options : List Structure}
    (hSome : options ≠ []) :
    (ofOptions options).selected.toNat < options.length :=
  List.length_pos_iff.mpr hSome

/-
  A new chooser over some option has a current option after
  every run of selections.
-/
theorem exists_current?_selectAll
    {options : List Structure}
    (hSome : options ≠ [])
    (l : List UInt64) :
    ∃ s ∈ options,
      ((ofOptions options).selectAll l).current? = some s := by
  have hSelected :=
    selected_selectAll_lt (selected_ofOptions_lt hSome) l
  refine ⟨_, List.getElem_mem hSelected, ?_⟩
  rw [current?, options_selectAll]
  exact List.getElem?_eq_getElem hSelected

end Chooser

------------------------------------------------------------
-- Assembled Structures
------------------------------------------------------------

namespace Structure

/-
  What is built from structures other than choosers by new
  choosers over some option and selections in them.
-/
inductive Assembled : Structure → Prop where
  | settled
      {s : Structure}
      (hs : ¬ s.IsChooser) : Assembled s
  | chooser
      {options : List Structure}
      (hSome : options ≠ [])
      (hOptions : ∀ s ∈ options, Assembled s)
      (l : List UInt64) :
      Assembled
        ((Chooser.ofOptions options).selectAll l).toStructure

/- Assembled structures stand for some structure. -/
theorem exists_resolve?_of_assembled
    {s : Structure}
    (hs : s.Assembled) :
    ∃ t, s.resolve? = some t := by
  induction hs with
  | settled hs => exact ⟨_, resolve?_of_not_isChooser hs⟩
  | chooser hSome _ l ih =>
      rcases Chooser.exists_current?_selectAll hSome l with
        ⟨s, hMem, hCurrent⟩
      rcases ih s hMem with ⟨t, hResolve⟩
      refine ⟨t, ?_⟩
      rw [resolve?_toStructure, hCurrent, Option.bind_some,
        hResolve]

end Structure

------------------------------------------------------------
-- Transparency
------------------------------------------------------------

namespace Codec

/-
  A structure stands for what is no chooser at the end of its
  chain of selections, and for nothing exactly if a chooser on
  the chain selects nothing.  It is encoded as what it stands
  for, and refused without a byte if that is nothing.  A run
  of selections in a new chooser over some option keeps the
  options and selects one of them, and a place past the last
  one changes nothing; so what is assembled in this way stands
  for some structure.
-/
theorem encodeTo_through_selections
    (c : Codec)
    (s : Structure)
    (sink : Sink) :
    (∀ t, s.resolve? = some t ↔
      s.LeadsTo t ∧ ¬ t.IsChooser) ∧
    (s.resolve? = none ↔
      ∃ t, s.LeadsTo t ∧ t.SelectsNothing) ∧
    s.resolve?.bind Structure.resolve? = s.resolve? ∧
    (∀ t, s.resolve? = some t →
      c.encodeTo s sink = c.encodeTo t sink) ∧
    (s.resolve? = none →
      c.encodeTo s sink =
        (sink, .fail (.unsupportedStructure .chooser))) ∧
    (∀ options : List Structure, options ≠ [] →
      ∀ l : List UInt64,
      ((Chooser.ofOptions options).selectAll l).options =
        options ∧
      ((Chooser.ofOptions options).selectAll
        l).selected.toNat < options.length ∧
      ∀ i, ((Chooser.ofOptions options).selectAll l).select i =
        if i.toNat < options.length then
          (true, ⟨options, i⟩)
        else
          (false, (Chooser.ofOptions options).selectAll l)) ∧
    (s.Assembled → ∃ t, s.resolve? = some t) := by
  refine ⟨s.resolve?_eq_some_iff, s.resolve?_eq_none_iff, ?_,
    fun t hResolve =>
      encodeTo_of_resolve?_eq_some hResolve c sink,
    fun hResolve =>
      encodeTo_of_resolve?_eq_none hResolve c sink,
    fun options hSome l => ?_,
    Structure.exists_resolve?_of_assembled⟩
  · cases hResolve : s.resolve? with
    | none => rfl
    | some t =>
        exact Structure.resolve?_of_resolve?_eq_some hResolve
  · have hOptions :
        ((Chooser.ofOptions options).selectAll l).options =
          options :=
      (Chooser.ofOptions options).options_selectAll l
    have hFirst := Chooser.selected_ofOptions_lt hSome
    refine ⟨hOptions, Chooser.selected_selectAll_lt hFirst l,
      fun i => ?_⟩
    split
    · rename_i hPlace
      rw [Chooser.select_of_lt (by rwa [hOptions]), hOptions]
    · rename_i hPast
      apply Chooser.select_of_le
      rw [hOptions]
      exact Nat.le_of_not_lt hPast

/- A chooser in a chooser, with selections past the last one. -/
def nested : Chooser :=
  (Chooser.ofOptions
    [.grammar ⟨[]⟩,
     (Chooser.ofOptions
       [.grammar ⟨[⟨"S", "a"⟩]⟩]).toStructure]).selectAll
    [7, 1, 2]

/- It is encoded as the grammar that the inner one selects. -/
theorem encodeTo_through_selections_nested :
    nested.options ≠ [] ∧
      nested.toStructure.Assembled ∧
      nested.select 2 = (false, nested) ∧
      nested.toStructure.resolve? =
        some (.grammar ⟨[⟨"S", "a"⟩]⟩) ∧
      encodeTo {} nested.toStructure {} =
        encodeTo {} (.grammar ⟨[⟨"S", "a"⟩]⟩) {} := by
  have hGrammar :
      ∀ g, Structure.Assembled (.grammar g) := by
    refine fun g => .settled ?_
    rintro ⟨c, hEq⟩
    cases hEq
  have hInner :
      (Chooser.ofOptions
        [.grammar ⟨[⟨"S", "a"⟩]⟩]).toStructure.Assembled :=
    .chooser (by simp) (by simp [hGrammar]) []
  have hAssembled : nested.toStructure.Assembled :=
    .chooser (by simp) (by simp [hGrammar, hInner]) _
  have hResolve :
      nested.toStructure.resolve? =
        some (.grammar ⟨[⟨"S", "a"⟩]⟩) := by
    cbv
  have hSome :
      [Structure.grammar ⟨[]⟩,
        (Chooser.ofOptions
          [.grammar ⟨[⟨"S", "a"⟩]⟩]).toStructure] ≠ [] := by
    simp
  obtain ⟨-, -, -, hEncode, -, hRuns, -⟩ :=
    encodeTo_through_selections {} nested.toStructure {}
  obtain ⟨hOptions, -, hSelect⟩ := hRuns _ hSome [7, 1, 2]
  exact
    ⟨hOptions ▸ hSome, hAssembled,
      (hSelect 2).trans (if_neg (by decide)), hResolve,
      hEncode _ hResolve⟩

end Codec

end AutomataStore
