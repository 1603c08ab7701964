import AutomataStore.Proofs.Histories

/-
  The id of a state that is added.

  A search for a gap passes over numbers in use only, and if
  it finds none it has passed over all numbers up to the
  greatest one in use.  Past the last id, the search gives
  the least free id, and it fails only when there is none.

  Key definitions include:
    * `StateId.last`

  Main declarations:
    * `Automaton.exists_key_of_lt_firstGap?`
    * `Automaton.exists_key_of_firstGap?_eq_none`
    * `Automaton.freshId?_eq_some_iff_of_last_mem`
    * `Automaton.freshId?_eq_none_iff`
    * `Automaton.addState_of_used_ids`
-/

------------------------------------------------------------
-- Passing over Numbers in Use
------------------------------------------------------------

namespace AutomataStore

/- The id with the greatest number there is. -/
def StateId.last : StateId :=
  ⟨4294967295⟩

/- No id has a greater number. -/
theorem StateId.key_le_last
    (i : StateId) :
    i.key ≤ StateId.last.key :=
  Nat.le_of_lt_succ (UInt32.toNat_lt i.number)

namespace Automaton

/- All numbers before a gap are in use. -/
theorem exists_key_of_lt_firstGap?
    {l : List StateId}
    {n g m : Nat}
    (hGap : firstGap? n l = some g)
    (hn : n ≤ m)
    (hm : m < g) :
    ∃ i ∈ l, i.key = m := by
  induction l generalizing n with
  | nil => cases hGap
  | cons i l ih =>
      simp only [firstGap?] at hGap
      split at hGap
      · rename_i hKey
        by_cases hHere : m = n
        · exact ⟨i, List.mem_cons_self .., by omega⟩
        · rcases ih hGap (by omega) with ⟨j, hj, hKey⟩
          exact ⟨j, List.mem_cons_of_mem _ hj, hKey⟩
      · simp only [Option.some.injEq] at hGap
        omega

/- Without a gap, all numbers up to one in use are in use. -/
theorem exists_key_of_firstGap?_eq_none
    {l : List StateId}
    {n m : Nat}
    (hNone : firstGap? n l = none)
    (hn : n ≤ m)
    {j : StateId}
    (hj : j ∈ l)
    (hm : m ≤ j.key) :
    ∃ i ∈ l, i.key = m := by
  induction l generalizing n with
  | nil => cases hj
  | cons i l ih =>
      simp only [firstGap?] at hNone
      split at hNone
      · rename_i hKey
        by_cases hHere : m = n
        · exact ⟨i, List.mem_cons_self .., by omega⟩
        · have hLater : j ∈ l := by
            rcases List.mem_cons.mp hj with rfl | hLater
            · omega
            · exact hLater
          rcases ih hNone (by omega) hLater with ⟨k, hk, hKey⟩
          exact ⟨k, List.mem_cons_of_mem _ hk, hKey⟩
      · cases hNone

------------------------------------------------------------
-- Free Ids
------------------------------------------------------------

variable {a : Automaton}
variable {i : StateId}

/- The greatest id has the greatest number. -/
theorem maxKey?_of_greatest
    (hi : i ∈ a.ids)
    (hGreatest : ∀ j ∈ a.ids, j.key ≤ i.key) :
    maxKey? a.ids = some i.key := by
  rw [maxKey?, List.max?_eq_some_iff]
  refine ⟨List.mem_map_of_mem hi, ?_⟩
  intro n hn
  rcases List.mem_map.mp hn with ⟨j, hj, rfl⟩
  exact hGreatest j hj

/- Before the last id, the one past the greatest is free. -/
theorem freshId?_of_greatest
    (hi : i ∈ a.ids)
    (hGreatest : ∀ j ∈ a.ids, j.key ≤ i.key)
    (hLast : i.key < StateId.last.key) :
    ∃ j, a.freshId? = some j ∧ j.key = i.key + 1 := by
  have hLimit : i.key + 1 < Numeral.limit :=
    Nat.succ_lt_succ hLast
  refine ⟨⟨UInt32.ofNat (i.key + 1)⟩, ?_, key_ofNat hLimit⟩
  simp only [freshId?, maxKey?_of_greatest hi hGreatest,
    if_pos hLimit]

/- Once the last id is in use, a gap among the ids is free. -/
theorem freshId?_of_last_mem
    (hLast : StateId.last ∈ a.ids) :
    a.freshId? =
      (firstGap? 0 (StateSet.ofList a.ids).members).map
        fun n => ⟨UInt32.ofNat n⟩ := by
  have hMax :=
    maxKey?_of_greatest hLast fun j _ => j.key_le_last
  have hLimit : ¬ StateId.last.key + 1 < Numeral.limit := by
    decide
  simp only [freshId?, hMax, if_neg hLimit]

/- A number of one of the members is the number of an id. -/
theorem mem_ids_of_exists_key
    (h :
      ∃ j ∈ (StateSet.ofList a.ids).members, j.key = i.key) :
    i ∈ a.ids := by
  rcases h with ⟨j, hj, hKey⟩
  rw [← StateId.eq_of_key_eq j i hKey]
  exact (StateSet.mem_ofList_iff j a.ids).mp hj

/- Without a gap up to the last id, all ids are in use. -/
theorem mem_ids_of_firstGap?_eq_none
    (hLast : StateId.last ∈ a.ids)
    (hNone :
      firstGap? 0 (StateSet.ofList a.ids).members = none)
    (i : StateId) :
    i ∈ a.ids := by
  have hMember :
      StateId.last ∈ (StateSet.ofList a.ids).members :=
    (StateSet.mem_ofList_iff _ a.ids).mpr hLast
  exact mem_ids_of_exists_key
    (exists_key_of_firstGap?_eq_none hNone (Nat.zero_le _)
      hMember i.key_le_last)

/- A free id that is found past the last one is the least. -/
theorem key_le_of_freshId?
    (hLast : StateId.last ∈ a.ids)
    (hFresh : a.freshId? = some i)
    {j : StateId}
    (hj : j ∉ a.ids) :
    i.key ≤ j.key := by
  rw [freshId?_of_last_mem hLast,
    Option.map_eq_some_iff] at hFresh
  rcases hFresh with ⟨g, hGap, rfl⟩
  have hFree : g ≤ j.key := by
    apply Nat.le_of_not_lt
    intro hLt
    exact hj (mem_ids_of_exists_key
      (exists_key_of_lt_firstGap? hGap (Nat.zero_le _) hLt))
  have hLimit : g < Numeral.limit :=
    Nat.lt_of_le_of_lt hFree (UInt32.toNat_lt j.number)
  rw [key_ofNat hLimit]
  exact hFree

/- Once the last id is in use, the least free id is taken. -/
theorem freshId?_eq_some_iff_of_last_mem
    (hLast : StateId.last ∈ a.ids)
    (i : StateId) :
    a.freshId? = some i ↔
      i ∉ a.ids ∧ ∀ j, j ∉ a.ids → i.key ≤ j.key := by
  constructor
  · intro hFresh
    exact ⟨not_mem_of_freshId? hFresh,
      fun _ => key_le_of_freshId? hLast hFresh⟩
  · rintro ⟨hi, hLeast⟩
    cases hFresh : a.freshId? with
    | none =>
        rw [freshId?_of_last_mem hLast,
          Option.map_eq_none_iff] at hFresh
        exact absurd
          (mem_ids_of_firstGap?_eq_none hLast hFresh i) hi
    | some k =>
        have hLe := key_le_of_freshId? hLast hFresh hi
        have hGe := hLeast k (not_mem_of_freshId? hFresh)
        rw [StateId.eq_of_key_eq k i (Nat.le_antisymm hLe hGe)]

/- Past the last id, the gap between 0 and 2 is taken. -/
example :
    freshId?
        { kind := .finite
          states := [.ofId .last, .ofId ⟨0⟩, .ofId ⟨2⟩] } =
      some ⟨1⟩ := by
  decide

/- No id is free exactly if all of them are in use. -/
theorem freshId?_eq_none_iff
    (a : Automaton) :
    a.freshId? = none ↔ ∀ i, i ∈ a.ids := by
  constructor
  · intro hNone
    have hFresh := hNone
    unfold freshId? at hNone
    split at hNone
    · cases hNone
    · rename_i n hMax
      split at hNone
      · cases hNone
      · -- The greatest number in use is the last there is.
        rename_i hLimit
        rcases List.max?_eq_some_iff.mp hMax with ⟨hMem, _⟩
        rcases List.mem_map.mp hMem with ⟨j, hj, hKey⟩
        have hEnd : j = StateId.last := by
          apply StateId.eq_of_key_eq
          apply Nat.le_antisymm j.key_le_last
          rw [hKey]
          exact Nat.le_of_not_lt
            fun h => hLimit (Nat.succ_lt_succ h)
        rw [Option.map_eq_none_iff] at hNone
        exact mem_ids_of_firstGap?_eq_none (hEnd ▸ hj) hNone
  · intro hAll
    cases hFresh : a.freshId? with
    | none => rfl
    | some i =>
        exact absurd (hAll i) (not_mem_of_freshId? hFresh)

------------------------------------------------------------
-- Adding States
------------------------------------------------------------

/- A state is added behind the others if an id is free. -/
theorem operate_addState
    (a : Automaton) :
    a.operate (.edit .addState) =
      match a.freshId? with
      | some i =>
          (.ok (.id i),
            { a with states := a.states ++ [.ofId i] })
      | none => (.error (.fault .noFreeId), a) := by
  rw [operate_edit, perform, addState]
  cases a.freshId? <;> rfl

/-
  The id of an added state is 0 if there is no state, one past
  the greatest in use if that is not the last one, and else
  the least one that is free.  Adding a state is refused
  exactly if all ids are in use, and then changes nothing.
  Otherwise the id was free and the automaton has one more
  state at the end, with the default name and no label.
-/
theorem addState_of_used_ids
    (a : Automaton) :
    let added := a.operate (.edit .addState)
    (a.states = [] → added.1 = .ok (.id ⟨0⟩)) ∧
      (∀ i ∈ a.ids,
        (∀ j ∈ a.ids, j.key ≤ i.key) →
          i.key < StateId.last.key →
            ∃ j,
              added.1 = .ok (.id j) ∧ j.key = i.key + 1) ∧
      (StateId.last ∈ a.ids →
        ∀ i,
          added.1 = .ok (.id i) ↔
            i ∉ a.ids ∧ ∀ j, j ∉ a.ids → i.key ≤ j.key) ∧
      (∀ refusal,
        added.1 = .error refusal ↔
          refusal = .fault .noFreeId ∧ ∀ i, i ∈ a.ids) ∧
      (∀ refusal, added.1 = .error refusal → added.2 = a) ∧
      ∀ reply,
        added.1 = .ok reply →
          ∃ i,
            reply = .id i ∧ i ∉ a.ids ∧
              added.2 =
                { a with states :=
                  a.states ++ [⟨i, i.display, none⟩] } := by
  intro added
  have hAnswer :
      ∀ i, added.1 = .ok (.id i) ↔ a.freshId? = some i := by
    intro i
    simp only [added, operate_addState]
    cases a.freshId? <;> simp
  have hRefused :
      ∀ refusal,
        added.1 = .error refusal ↔
          refusal = .fault .noFreeId ∧ a.freshId? = none := by
    intro refusal
    simp only [added, operate_addState]
    cases a.freshId? <;> simp [eq_comm]
  refine ⟨?_, ?_, ?_, ?_, ?_, ?_⟩
  · intro hNil
    rw [hAnswer, freshId?, ids, hNil]
    rfl
  · intro i hi hGreatest hLast
    rcases freshId?_of_greatest hi hGreatest hLast with
      ⟨j, hFresh, hKey⟩
    exact ⟨j, (hAnswer j).mpr hFresh, hKey⟩
  · intro hLast i
    rw [hAnswer, freshId?_eq_some_iff_of_last_mem hLast]
  · intro refusal
    rw [hRefused, freshId?_eq_none_iff]
  · exact fun _ hRefusal => operate_of_refused hRefusal
  · intro reply hReply
    simp only [added, operate_addState] at hReply ⊢
    cases hFresh : a.freshId? with
    | none =>
        rw [hFresh] at hReply
        cases hReply
    | some i =>
        rw [hFresh] at hReply
        cases hReply
        exact ⟨i, rfl, not_mem_of_freshId? hFresh, rfl⟩

end Automaton

end AutomataStore
