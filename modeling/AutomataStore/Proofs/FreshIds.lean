import AutomataStore.Machine.Automaton

/-
  Free ids are free.

  The greatest number in use bounds all numbers in use.  When
  it is the last one there is, a gap is looked for among the
  increasing numbers in use, and lies below one of them.

  Main declarations:
    * `Automaton.ne_of_firstGap?`
    * `Automaton.lt_of_firstGap?`
    * `Automaton.not_mem_of_freshId?`
-/

------------------------------------------------------------
-- Gaps
------------------------------------------------------------

namespace AutomataStore

namespace Automaton

/- A gap does not lie below the start of the count. -/
theorem le_of_firstGap?
    {l : List StateId}
    {n g : Nat}
    (hGap : firstGap? n l = some g) :
    n ≤ g := by
  induction l generalizing n with
  | nil => cases hGap
  | cons i l ih =>
      simp only [firstGap?] at hGap
      split at hGap
      · have hLe := ih hGap
        omega
      · simp only [Option.some.injEq] at hGap
        omega

/- No member of the list has the number of a gap. -/
theorem ne_of_firstGap?
    {l : List StateId}
    {n g : Nat}
    (hl : Increasing StateId.key l)
    (hn : ∀ i ∈ l, n ≤ i.key)
    (hGap : firstGap? n l = some g) :
    ∀ i ∈ l, i.key ≠ g := by
  induction l generalizing n with
  | nil => cases hGap
  | cons i l ih =>
      have hTail := List.pairwise_cons.mp hl
      have hFirst : n ≤ i.key := hn i (List.mem_cons_self ..)
      simp only [firstGap?] at hGap
      intro j hj
      split at hGap
      · rename_i hEq
        rcases List.mem_cons.mp hj with rfl | hj
        · have hLe := le_of_firstGap? hGap
          omega
        · refine ih hTail.2 ?_ hGap j hj
          intro k hk
          have hLt := hTail.1 k hk
          omega
      · simp only [Option.some.injEq] at hGap
        rcases List.mem_cons.mp hj with rfl | hj
        · omega
        · have hLt := hTail.1 j hj
          omega

/- A gap lies below some member of the list. -/
theorem lt_of_firstGap?
    {l : List StateId}
    {n g : Nat}
    (hl : Increasing StateId.key l)
    (hn : ∀ i ∈ l, n ≤ i.key)
    (hGap : firstGap? n l = some g) :
    ∃ i ∈ l, g < i.key := by
  induction l generalizing n with
  | nil => cases hGap
  | cons i l ih =>
      have hTail := List.pairwise_cons.mp hl
      have hFirst : n ≤ i.key := hn i (List.mem_cons_self ..)
      simp only [firstGap?] at hGap
      split at hGap
      · have hLower : ∀ k ∈ l, n + 1 ≤ k.key := by
          intro k hk
          have hLt := hTail.1 k hk
          omega
        rcases ih hTail.2 hLower hGap with ⟨j, hj, hLt⟩
        exact ⟨j, List.mem_cons_of_mem _ hj, hLt⟩
      · simp only [Option.some.injEq] at hGap
        exact ⟨i, List.mem_cons_self .., by omega⟩

------------------------------------------------------------
-- Free Ids
------------------------------------------------------------

/- All numbers in use are at most the greatest one. -/
theorem le_of_maxKey?
    {l : List StateId}
    {n : Nat}
    (hMax : maxKey? l = some n) :
    ∀ i ∈ l, i.key ≤ n := by
  intro i hi
  rcases List.max?_eq_some_iff.mp hMax with ⟨_, hLe⟩
  exact hLe _ (List.mem_map_of_mem hi)

/- A number below the limit is the number of its id. -/
theorem key_ofNat
    {n : Nat}
    (hn : n < Numeral.limit) :
    StateId.key ⟨UInt32.ofNat n⟩ = n := by
  unfold Numeral.limit at hn
  simp only [StateId.key, UInt32.toNat_ofNat']
  omega

/- The free id is no state's. -/
theorem not_mem_of_freshId?
    {a : Automaton}
    {i : StateId}
    (hFresh : a.freshId? = some i) :
    i ∉ a.ids := by
  intro hi
  unfold freshId? at hFresh
  cases hMax : maxKey? a.ids with
  | none =>
      simp only [maxKey?, List.max?_eq_none_iff,
        List.map_eq_nil_iff] at hMax
      rw [hMax] at hi
      cases hi
  | some n =>
      simp only [hMax] at hFresh
      split at hFresh
      · rename_i hLimit
        simp only [Option.some.injEq] at hFresh
        subst hFresh
        have hLe := le_of_maxKey? hMax _ hi
        rw [key_ofNat hLimit] at hLe
        omega
      · rcases Option.map_eq_some_iff.mp hFresh with
          ⟨g, hGap, rfl⟩
        have hIncreasing := (StateSet.ofList a.ids).increasing
        have hMem :
            ∀ j, j ∈ (StateSet.ofList a.ids).members ↔
              j ∈ a.ids :=
          fun j => StateSet.mem_ofList_iff j a.ids
        have hZero :
            ∀ j ∈ (StateSet.ofList a.ids).members,
              0 ≤ j.key :=
          fun _ _ => Nat.zero_le _
        rcases lt_of_firstGap? hIncreasing hZero hGap with
          ⟨j, _, hLt⟩
        have hSmall : g < Numeral.limit :=
          Nat.lt_trans hLt (UInt32.toNat_lt j.number)
        exact ne_of_firstGap? hIncreasing hZero hGap _
          ((hMem _).mpr hi) (key_ofNat hSmall)

end Automaton

end AutomataStore
