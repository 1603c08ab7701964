import AutomataStore.Proofs.Connectivity

/-
  What an edit does to the disjoint sets.

  A new link joins the components of its two ends and leaves
  the paths elsewhere as they are.  A new state is a component
  of its own.  A state that is removed was on the paths of its
  own component only.

  The list of disjoint sets is determined by its members and
  by the order of their first places, so that a list after an
  edit is found by giving its members in this order.

  Key definitions include:
    * `Automaton.Bridges`, `Automaton.Lacks`

  Main declarations:
    * `Automaton.disjointSets_eq_of_mem_iff`
    * `Automaton.disjointSets_of_bridges`
    * `Automaton.disjointSets_append_state`
    * `Automaton.component_of_removed`
    * `Automaton.disjointSets_of_edit`
-/

------------------------------------------------------------
-- Lists of Components
------------------------------------------------------------

namespace AutomataStore

namespace Automaton

/- Disjoint sets stand in the order of their first members. -/
theorem increasing_disjointSets
    (a : Automaton) :
    Increasing a.firstIndex a.disjointSets :=
  ordered_componentsFrom a.noneLeft_empty
    (List.nil_append a.ids).symm (by simp)

/-
  A list is that of the disjoint sets if it has the components
  of the states as members, in the order of their first
  places.
-/
theorem disjointSets_eq_of_mem_iff
    {a : Automaton}
    {l : List StateSet}
    (hOrder : Increasing a.firstIndex l)
    (hMem :
      ∀ s, s ∈ l ↔ ∃ i ∈ a.ids, s = a.component i) :
    a.disjointSets = l := by
  apply Increasing.eq_of_mem_iff a.increasing_disjointSets
    hOrder
  intro s
  rw [hMem, mem_disjointSets_iff]

/- Every disjoint set is listed once. -/
theorem nodup_disjointSets
    (a : Automaton) :
    a.disjointSets.Nodup := by
  refine a.increasing_disjointSets.imp ?_
  rintro s _ hLt rfl
  exact Nat.lt_irrefl _ hLt

/- The first place of two sets together is the earlier one. -/
theorem firstIndex_union
    {a : Automaton}
    {s t : StateSet}
    (hLt : a.firstIndex s < a.firstIndex t) :
    a.firstIndex (s.union t) = a.firstIndex s := by
  have hPlace : a.firstIndex s < a.ids.length :=
    Nat.lt_of_lt_of_le hLt List.findIdx_le_length
  apply (List.findIdx_eq hPlace).mpr
  constructor
  · have hFirst :
        decide (a.ids[a.firstIndex s] ∈ s) = true :=
      List.findIdx_getElem (w := hPlace)
    simp [of_decide_eq_true hFirst]
  · intro n hn
    have hNotFirst : a.ids[n] ∉ s := by
      simpa using List.not_of_lt_findIdx hn
    have hNotSecond : a.ids[n] ∉ t := by
      simpa using
        List.not_of_lt_findIdx (Nat.lt_trans hn hLt)
    simp [hNotFirst, hNotSecond]

------------------------------------------------------------
-- Paths That Are Kept
------------------------------------------------------------

/- A path stays one where the links along it stay. -/
theorem joined_of_kept
    {a b : Automaton}
    {i j : StateId}
    (h : a.Joined i j)
    (hKept :
      ∀ k l, a.Joined i k → a.Linked k l → b.Linked k l) :
    b.Joined i j := by
  induction h with
  | refl => exact Relation.ReflTransGen.refl
  | tail hPath hLink ih =>
      exact Relation.ReflTransGen.tail ih
        (hKept _ _ hPath hLink)

/- Automata with the same links have the same components. -/
theorem component_congr
    {a b : Automaton}
    (h : ∀ k l, b.Linked k l ↔ a.Linked k l)
    (i : StateId) :
    b.component i = a.component i := by
  apply StateSet.ext
  intro j
  rw [mem_component_iff, mem_component_iff]
  constructor
  · exact fun hj =>
      joined_of_kept hj fun k l _ hLink => (h k l).mp hLink
  · exact fun hj =>
      joined_of_kept hj fun k l _ hLink => (h k l).mpr hLink

------------------------------------------------------------
-- A New Link
------------------------------------------------------------

/-
  The second automaton has the states of the first, and one
  more link, which joins two ids.
-/
structure Bridges (a b : Automaton) (p q : StateId) : Prop where
  ids_eq : b.ids = a.ids
  linked_iff :
    ∀ i j,
      b.Linked i j ↔
        a.Linked i j ∨ (i = p ∧ j = q) ∨ (i = q ∧ j = p)

/- A link joins the second id to the first one, too. -/
theorem Bridges.symm
    {a b : Automaton}
    {p q : StateId}
    (h : Bridges a b p q) :
    Bridges a b q p where
  ids_eq := h.ids_eq
  linked_iff i j := (h.linked_iff i j).trans (or_congr_right or_comm)

/- A transition that is added is a link between its ends. -/
theorem bridges_of_addTransition
    {a b : Automaton}
    {t : Transition}
    (h : a.addTransition t = .ok b) :
    Bridges a b t.source t.target := by
  rcases (addTransition_eq_ok_iff a b t).mp h with
    ⟨_, _, _, rfl⟩
  refine ⟨rfl, fun i j => ?_⟩
  simp only [Linked, List.mem_append, List.mem_singleton,
    or_and_right, exists_or, exists_eq_left]
  apply or_congr_right
  apply or_congr
  · exact and_congr eq_comm eq_comm
  · rw [and_comm]
    exact and_congr eq_comm eq_comm

section Bridged

variable {a b : Automaton}
variable {p q : StateId}

/- No path is lost with a new link. -/
theorem joined_of_bridges
    (h : Bridges a b p q)
    {i j : StateId}
    (hij : a.Joined i j) :
    b.Joined i j :=
  joined_of_kept hij fun k l _ hLink =>
    (h.linked_iff k l).mpr (Or.inl hLink)

/- Away from its ends a new link changes no component. -/
theorem component_of_bridges_of_not_mem
    (h : Bridges a b p q)
    {i : StateId}
    (hp : i ∉ a.component p)
    (hq : i ∉ a.component q) :
    b.component i = a.component i := by
  rw [mem_component_iff] at hp hq
  apply StateSet.ext
  intro j
  rw [mem_component_iff, mem_component_iff]
  refine ⟨fun hij => ?_, joined_of_bridges h⟩
  induction hij with
  | refl => exact Relation.ReflTransGen.refl
  | tail _ hLink ih =>
      -- A path that has not met the new link cannot take it.
      rcases (h.linked_iff _ _).mp hLink with
        hOld | ⟨rfl, _⟩ | ⟨rfl, _⟩
      · exact Relation.ReflTransGen.tail ih hOld
      · exact absurd (joined_symm ih) hp
      · exact absurd (joined_symm ih) hq

/- Around its ends a new link makes one component of two. -/
theorem component_of_bridges_of_mem
    (h : Bridges a b p q)
    {i : StateId}
    (hi : i ∈ a.component p ∨ i ∈ a.component q) :
    b.component i =
      (a.component p).union (a.component q) := by
  have hLink : b.Linked p q :=
    (h.linked_iff p q).mpr (Or.inr (Or.inl ⟨rfl, rfl⟩))
  have hFrom :
      ∀ j, j ∈ a.component p ∨ j ∈ a.component q →
        b.Joined p j := by
    intro j hj
    rw [mem_component_iff, mem_component_iff] at hj
    rcases hj with hj | hj
    · exact joined_of_bridges h hj
    · exact Relation.ReflTransGen.head hLink
        (joined_of_bridges h hj)
  apply StateSet.ext
  intro j
  rw [mem_component_iff, StateSet.mem_union_iff]
  constructor
  · intro hij
    induction hij with
    | refl => exact hi
    | tail _ hNext ih =>
        rcases (h.linked_iff _ _).mp hNext with
          hOld | ⟨_, hEnd⟩ | ⟨_, hEnd⟩
        · simp only [mem_component_iff] at ih ⊢
          exact ih.imp
            (fun hPath => Relation.ReflTransGen.tail hPath hOld)
            (fun hPath => Relation.ReflTransGen.tail hPath hOld)
        · rw [hEnd]
          exact Or.inr (a.seed_mem_component q)
        · rw [hEnd]
          exact Or.inl (a.seed_mem_component p)
  · intro hj
    exact Relation.ReflTransGen.trans
      (joined_symm (hFrom i hi)) (hFrom j hj)

/- A new link inside a component changes no disjoint set. -/
theorem disjointSets_of_bridges_of_joined
    (h : Bridges a b p q)
    (hpq : a.Joined p q) :
    b.disjointSets = a.disjointSets := by
  have hSame : a.component p = a.component q :=
    component_eq_of_joined hpq
  have hComponent :
      ∀ i, b.component i = a.component i := by
    intro i
    by_cases hi : i ∈ a.component p
    · rw [component_of_bridges_of_mem h (Or.inl hi), ← hSame]
      rw [mem_component_iff] at hi
      rw [← component_eq_of_joined hi]
      apply StateSet.ext
      simp
    · exact component_of_bridges_of_not_mem h hi (hSame ▸ hi)
  have hIndex : b.firstIndex = a.firstIndex := by
    funext s
    rw [firstIndex, firstIndex, h.ids_eq]
  apply disjointSets_eq_of_mem_iff
  · rw [hIndex]
    exact a.increasing_disjointSets
  · intro s
    simp only [h.ids_eq, hComponent, mem_disjointSets_iff]

/-
  A new link between two components puts both in the place of
  the earlier one, and leaves the other ones where they are.
-/
theorem disjointSets_of_bridges
    (h : Bridges a b p q)
    {before middle after : List StateSet}
    (hList :
      a.disjointSets =
        before ++ a.component p ::
          (middle ++ a.component q :: after)) :
    b.disjointSets =
      before ++ (a.component p).union (a.component q) ::
        (middle ++ after) := by
  have hIndex : b.firstIndex = a.firstIndex := by
    funext s
    rw [firstIndex, firstIndex, h.ids_eq]
  have hOrder := a.increasing_disjointSets
  have hNodup := a.nodup_disjointSets
  have hMember := a.mem_disjointSets_iff
  simp only [hList] at hOrder hNodup hMember
  apply disjointSets_eq_of_mem_iff
  · -- The two together stand where the earlier one stood.
    have hLt :
        a.firstIndex (a.component p) <
          a.firstIndex (a.component q) := by
      have hTail :=
        (List.pairwise_cons.mp
          (List.pairwise_append.mp hOrder).2.1).1
      exact hTail _ (by simp)
    have hKept :
        Increasing a.firstIndex
          (before ++ a.component p :: (middle ++ after)) := by
      apply List.Pairwise.sublist _ hOrder
      simp
    rw [hIndex]
    unfold Increasing at hKept ⊢
    rw [← List.pairwise_map (f := a.firstIndex)] at hKept ⊢
    simpa [firstIndex_union hLt] using hKept
  · intro s
    have hOther :
        (s ∈ before ∨ s ∈ middle ∨ s ∈ after) ↔
          (∃ i ∈ a.ids, s = a.component i) ∧
            s ≠ a.component p ∧ s ≠ a.component q := by
      rw [← hMember]
      grind
    simp only [List.mem_append, List.mem_cons, h.ids_eq]
    rw [or_left_comm, hOther]
    constructor
    · rintro (rfl | ⟨⟨i, hi, rfl⟩, hp, hq⟩)
      · rcases (hMember (a.component p)).mp (by simp) with
          ⟨i, hi, hSame⟩
        have hMem : i ∈ a.component p :=
          (a.component_eq_iff_mem p i).mp hSame
        exact ⟨i, hi,
          (component_of_bridges_of_mem h (Or.inl hMem)).symm⟩
      · rw [ne_comm, ne_eq, component_eq_iff_mem] at hp hq
        exact ⟨i, hi,
          (component_of_bridges_of_not_mem h hp hq).symm⟩
    · rintro ⟨i, hi, rfl⟩
      by_cases hMem :
          i ∈ a.component p ∨ i ∈ a.component q
      · exact Or.inl (component_of_bridges_of_mem h hMem)
      · rw [not_or] at hMem
        right
        rw [component_of_bridges_of_not_mem h hMem.1 hMem.2]
        refine ⟨⟨i, hi, rfl⟩, ?_, ?_⟩ <;>
          rw [ne_comm, ne_eq, component_eq_iff_mem]
        · exact hMem.1
        · exact hMem.2

end Bridged

------------------------------------------------------------
-- A New State
------------------------------------------------------------

/- No path leads to an id that is no state's, or from it. -/
theorem component_of_not_mem
    {a : Automaton}
    (ha : a.WellFormed)
    {i : StateId}
    (hi : i ∉ a.ids) :
    a.component i = .ofList [i] := by
  apply StateSet.ext
  intro j
  rw [mem_component_iff, StateSet.mem_ofList_iff,
    List.mem_singleton]
  constructor
  · intro hij
    rcases Relation.ReflTransGen.cases_head hij with
      rfl | ⟨k, hLink, _⟩
    · rfl
    · exact absurd (mem_ids_of_linked ha (linked_symm hLink))
        hi
  · rintro rfl
    exact Relation.ReflTransGen.refl

/- A new state is a disjoint set of its own, the last one. -/
theorem disjointSets_append_state
    {a b : Automaton}
    {s : State}
    (ha : a.WellFormed)
    (h : a.insertState s = .ok b) :
    b.disjointSets = a.disjointSets ++ [.ofList [s.id]] := by
  rcases (insertState_eq_ok_iff a b s).mp h with ⟨hs, rfl⟩
  have hSingle := component_of_not_mem ha hs
  generalize hb :
    { a with states := a.states ++ [s] } = b
  have hIds : b.ids = a.ids ++ [s.id] := by
    simp [← hb, ids]
  have hComponent :
      ∀ i, b.component i = a.component i := by
    intro i
    apply component_congr
    simp [← hb, Linked]
  have hOld :
      ∀ t ∈ a.disjointSets,
        b.firstIndex t = a.firstIndex t ∧
          a.firstIndex t < a.ids.length := by
    intro t ht
    rcases (a.mem_disjointSets_iff t).mp ht with ⟨i, hi, rfl⟩
    have hPlace :
        a.firstIndex (a.component i) < a.ids.length :=
      List.findIdx_lt_length_of_exists
        ⟨i, hi, decide_eq_true (a.seed_mem_component i)⟩
    refine ⟨?_, hPlace⟩
    rw [firstIndex, hIds, List.findIdx_append]
    exact if_pos hPlace
  have hNew :
      b.firstIndex (.ofList [s.id]) = a.ids.length := by
    rw [firstIndex_eq_add hIds]
    · simp
    · intro i hi
      rw [StateSet.mem_ofList_iff, List.mem_singleton]
      rintro rfl
      exact hs hi
  apply disjointSets_eq_of_mem_iff
  · apply List.pairwise_append.mpr
    refine ⟨?_, List.pairwise_singleton _ _, ?_⟩
    · apply a.increasing_disjointSets.imp_of_mem
      intro t u ht hu hLt
      rw [(hOld t ht).1, (hOld u hu).1]
      exact hLt
    · intro t ht u hu
      rw [List.mem_singleton.mp hu, (hOld t ht).1, hNew]
      exact (hOld t ht).2
  · intro t
    simp only [List.mem_append, List.mem_singleton,
      mem_disjointSets_iff, hIds, hComponent, or_and_right,
      exists_or, exists_eq_left, hSingle]

------------------------------------------------------------
-- A State That is Removed
------------------------------------------------------------

/-
  The second automaton is the first one without a state and
  the links at it.
-/
structure Lacks (a b : Automaton) (i : StateId) : Prop where
  mem_ids_iff : ∀ j, j ∈ b.ids ↔ j ∈ a.ids ∧ j ≠ i
  linked_iff :
    ∀ j k, b.Linked j k ↔ a.Linked j k ∧ j ≠ i ∧ k ≠ i

/- What is left of an automaton when a state is removed. -/
theorem lacks_of_removeState
    {a b : Automaton}
    {i : StateId}
    {s : State}
    (ha : a.WellFormed)
    (h : a.removeState? i = some (s, b)) :
    Lacks a b i := by
  rcases (removeState?_eq_some_iff a b i s).mp h with
    ⟨_, rfl⟩
  constructor
  · intro j
    change j ∈ (a.states.eraseP fun s => s.id = i).map
      State.id ↔ _
    rw [ids_eraseP, ha.nodup_ids.mem_erase_iff, and_comm]
  · intro j k
    have hKept :
        ∀ t : Transition,
          t ∈ a.transitions.filter (fun t => !t.touches i) ↔
            t ∈ a.transitions ∧ t.source ≠ i ∧
              t.target ≠ i := by
      intro t
      simp [Transition.touches]
    simp only [Linked, hKept]
    constructor
    · rintro ⟨t, ⟨ht, hSource, hTarget⟩,
        ⟨rfl, rfl⟩ | ⟨rfl, rfl⟩⟩
      · exact
          ⟨⟨t, ht, Or.inl ⟨rfl, rfl⟩⟩, hSource, hTarget⟩
      · exact
          ⟨⟨t, ht, Or.inr ⟨rfl, rfl⟩⟩, hTarget, hSource⟩
    · rintro ⟨⟨t, ht, ⟨rfl, rfl⟩ | ⟨rfl, rfl⟩⟩, hj, hk⟩
      · exact ⟨t, ⟨ht, hj, hk⟩, Or.inl ⟨rfl, rfl⟩⟩
      · exact ⟨t, ⟨ht, hk, hj⟩, Or.inr ⟨rfl, rfl⟩⟩

section Lacking

variable {a b : Automaton}
variable {i : StateId}

/- What is joined without a state was joined with it. -/
theorem of_mem_component_of_lacks
    (h : Lacks a b i)
    {j k : StateId}
    (hj : j ≠ i)
    (hk : k ∈ b.component j) :
    k ∈ a.component j ∧ k ≠ i := by
  rw [mem_component_iff] at hk ⊢
  constructor
  · exact joined_of_kept hk fun l m _ hLink =>
      ((h.linked_iff l m).mp hLink).1
  · cases hk with
    | refl => exact hj
    | tail _ hLink =>
        exact ((h.linked_iff _ _).mp hLink).2.2

/- Away from a state that is removed no component changes. -/
theorem component_of_removed
    (h : Lacks a b i)
    {j : StateId}
    (hj : j ∉ a.component i) :
    b.component j = a.component j := by
  rw [mem_component_iff] at hj
  have hAway : ∀ k, a.Joined j k → k ≠ i := by
    rintro k hPath rfl
    exact hj (joined_symm hPath)
  apply StateSet.ext
  intro k
  constructor
  · intro hk
    have hNe : j ≠ i := hAway j Relation.ReflTransGen.refl
    exact (of_mem_component_of_lacks h hNe hk).1
  · intro hk
    rw [mem_component_iff] at hk ⊢
    apply joined_of_kept hk
    intro l m hPath hLink
    exact (h.linked_iff l m).mpr
      ⟨hLink, hAway l hPath,
        hAway m (Relation.ReflTransGen.tail hPath hLink)⟩

/- A state that is removed is in no disjoint set. -/
theorem not_mem_of_lacks
    (h : Lacks a b i)
    {s : StateSet}
    (hs : s ∈ b.disjointSets) :
    i ∉ s := by
  intro hMem
  rcases (b.mem_disjointSets_iff s).mp hs with ⟨j, hj, rfl⟩
  have hNe := ((h.mem_ids_iff j).mp hj).2
  exact (of_mem_component_of_lacks h hNe hMem).2 rfl

/- A disjoint set without the state that is removed stays. -/
theorem mem_disjointSets_of_lacks
    (h : Lacks a b i)
    {s : StateSet}
    (hs : s ∈ a.disjointSets)
    (hi : i ∉ s) :
    s ∈ b.disjointSets := by
  rcases (a.mem_disjointSets_iff s).mp hs with ⟨j, hj, rfl⟩
  have hNe : j ≠ i := by
    rintro rfl
    exact hi (a.seed_mem_component j)
  rw [mem_component_comm] at hi
  rw [← component_of_removed h hi]
  exact component_mem_disjointSets
    ((h.mem_ids_iff j).mpr ⟨hj, hNe⟩)

/-
  When a state is removed, the disjoint sets without it stay.
  The other ones are apart from each other and make up what
  else was in its set.
-/
theorem disjointSets_of_lacks
    (ha : a.WellFormed)
    (h : Lacks a b i)
    (hi : i ∈ a.ids) :
    ∃ others : List StateSet,
      (∀ s, s ∈ b.disjointSets ↔
        (s ∈ a.disjointSets ∧ i ∉ s) ∨ s ∈ others) ∧
      others.Pairwise (fun s t => ∀ j ∈ s, j ∉ t) ∧
      ∀ j, (∃ s ∈ others, j ∈ s) ↔
        (∃ s ∈ a.disjointSets, i ∈ s ∧ j ∈ s) ∧ j ≠ i := by
  refine
    ⟨b.disjointSets.filter fun s => s ∉ a.disjointSets,
      ?_, ?_, ?_⟩
  · intro s
    rw [List.mem_filter, decide_eq_true_eq]
    constructor
    · intro hs
      by_cases hOld : s ∈ a.disjointSets
      · exact Or.inl ⟨hOld, not_mem_of_lacks h hs⟩
      · exact Or.inr ⟨hs, hOld⟩
    · rintro (⟨hOld, hNot⟩ | ⟨hs, _⟩)
      · exact mem_disjointSets_of_lacks h hOld hNot
      · exact hs
  · exact
      (pairwise_componentsFrom b.noneLeft_empty b.ids).filter _
  · intro j
    simp only [List.mem_filter, decide_eq_true_eq]
    constructor
    · rintro ⟨s, ⟨hs, hNew⟩, hj⟩
      rcases (b.mem_disjointSets_iff s).mp hs with
        ⟨k, hk, rfl⟩
      have hkIds := (h.mem_ids_iff k).mp hk
      have hOld := of_mem_component_of_lacks h hkIds.2 hj
      have hSet := component_mem_disjointSets hkIds.1
      refine ⟨⟨a.component k, hSet, ?_, hOld.1⟩, hOld.2⟩
      -- A set without the state would have stayed.
      by_contra hNot
      rw [mem_component_comm] at hNot
      rw [component_of_removed h hNot] at hNew
      exact hNew hSet
    · rintro ⟨⟨s, hs, hiMem, hjMem⟩, hNe⟩
      rw [eq_component_of_mem hs hiMem] at hjMem
      have hPath : a.Joined i j :=
        (a.mem_component_iff i j).mp hjMem
      have hj : j ∈ b.ids :=
        (h.mem_ids_iff j).mpr
          ⟨mem_ids_of_joined ha hi hPath, hNe⟩
      have hSet := component_mem_disjointSets hj
      have hSeed := b.seed_mem_component j
      refine ⟨b.component j, ⟨hSet, ?_⟩, hSeed⟩
      -- An old set with this id has the removed one, too.
      intro hOld
      apply not_mem_of_lacks h hSet
      rw [eq_component_of_mem hOld hSeed, mem_component_comm]
      exact hjMem

end Lacking

------------------------------------------------------------
-- Edits
------------------------------------------------------------

/-
  Different members of a list stand one before the other.
-/
theorem exists_append_of_ne
    {α : Type}
    {x y : α}
    {l : List α}
    (hx : x ∈ l)
    (hy : y ∈ l)
    (hNe : x ≠ y) :
    ∃ before s middle t after,
      l = before ++ s :: (middle ++ t :: after) ∧
        ((s = x ∧ t = y) ∨ (s = y ∧ t = x)) := by
  rcases List.append_of_mem hx with ⟨before, after, rfl⟩
  rcases List.mem_append.mp hy with hy | hy
  · rcases List.append_of_mem hy with ⟨first, middle, rfl⟩
    exact ⟨first, y, middle, x, after, by simp,
      Or.inr ⟨rfl, rfl⟩⟩
  · rcases List.mem_cons.mp hy with rfl | hy
    · exact absurd rfl hNe
    · rcases List.append_of_mem hy with ⟨middle, last, rfl⟩
      exact ⟨before, x, middle, y, last, rfl,
        Or.inl ⟨rfl, rfl⟩⟩

/-
  Adding a transition puts the sets of its ends together in
  the place of the earlier one.
-/
theorem disjointSets_of_addTransition
    {a b : Automaton}
    {t : Transition}
    (h : a.addTransition t = .ok b)
    (hApart :
      ¬∃ s ∈ a.disjointSets, t.source ∈ s ∧ t.target ∈ s) :
    ∃ before s middle r after,
      a.disjointSets =
          before ++ s :: (middle ++ r :: after) ∧
        ((t.source ∈ s ∧ t.target ∈ r) ∨
          (t.target ∈ s ∧ t.source ∈ r)) ∧
        b.disjointSets =
          before ++ s.union r :: (middle ++ after) := by
  have hBridge := bridges_of_addTransition h
  rcases (addTransition_eq_ok_iff a b t).mp h with
    ⟨_, hSource, hTarget, _⟩
  have hSourceSeed := a.seed_mem_component t.source
  have hTargetSeed := a.seed_mem_component t.target
  have hNe :
      a.component t.source ≠ a.component t.target := by
    intro hSame
    exact hApart
      ⟨_, component_mem_disjointSets hSource, hSourceSeed,
        hSame ▸ hTargetSeed⟩
  rcases exists_append_of_ne
      (component_mem_disjointSets hSource)
      (component_mem_disjointSets hTarget) hNe with
    ⟨before, s, middle, r, after, hList,
      ⟨rfl, rfl⟩ | ⟨rfl, rfl⟩⟩
  · exact ⟨before, _, middle, _, after, hList,
      Or.inl ⟨hSourceSeed, hTargetSeed⟩,
      disjointSets_of_bridges hBridge hList⟩
  · exact ⟨before, _, middle, _, after, hList,
      Or.inr ⟨hTargetSeed, hSourceSeed⟩,
      disjointSets_of_bridges hBridge.symm hList⟩

/-
  Edits change the disjoint sets of a well-formed automaton
  in their own place only.  A transition inside a set changes
  nothing, and one between two sets puts both together where
  the earlier one was.  A new state is a last set of its own.
  Removing a state keeps the sets without it, and the other
  sets divide what else was in its set.
-/
theorem disjointSets_of_edit
    (a : Automaton)
    (ha : a.WellFormed) :
    (∀ t b, a.addTransition t = .ok b →
      ((∃ s ∈ a.disjointSets,
          t.source ∈ s ∧ t.target ∈ s) →
        b.disjointSets = a.disjointSets) ∧
      ((¬∃ s ∈ a.disjointSets,
          t.source ∈ s ∧ t.target ∈ s) →
        ∃ before s middle r after,
          a.disjointSets =
              before ++ s :: (middle ++ r :: after) ∧
            ((t.source ∈ s ∧ t.target ∈ r) ∨
              (t.target ∈ s ∧ t.source ∈ r)) ∧
            b.disjointSets =
              before ++ s.union r :: (middle ++ after))) ∧
    (∀ i b, a.addState = .ok (i, b) →
      b.disjointSets = a.disjointSets ++ [.ofList [i]]) ∧
    (∀ s b, a.insertState s = .ok b →
      b.disjointSets = a.disjointSets ++ [.ofList [s.id]]) ∧
    ∀ i ∈ a.ids, ∃ s b,
      a.removeState? i = some (s, b) ∧
        ∃ others : List StateSet,
          (∀ u, u ∈ b.disjointSets ↔
            (u ∈ a.disjointSets ∧ i ∉ u) ∨ u ∈ others) ∧
          others.Pairwise (fun u v => ∀ j ∈ u, j ∉ v) ∧
          ∀ j, (∃ u ∈ others, j ∈ u) ↔
            (∃ u ∈ a.disjointSets, i ∈ u ∧ j ∈ u) ∧
              j ≠ i := by
  refine ⟨?_, ?_, ?_, ?_⟩
  · intro t b hAdd
    refine ⟨?_, disjointSets_of_addTransition hAdd⟩
    rintro ⟨s, hs, hSource, hTarget⟩
    apply disjointSets_of_bridges_of_joined
      (bridges_of_addTransition hAdd)
    rw [eq_component_of_mem hs hSource] at hTarget
    exact (a.mem_component_iff _ _).mp hTarget
  · intro i b hAdd
    exact disjointSets_append_state ha
      (insertState_of_addState hAdd)
  · intro s b hInsert
    exact disjointSets_append_state ha hInsert
  · intro i hi
    rcases exists_state?_of_mem hi with ⟨s, hs⟩
    have hRemove :=
      (removeState?_eq_some_iff a _ i s).mpr ⟨hs, rfl⟩
    exact ⟨s, _, hRemove,
      disjointSets_of_lacks ha (lacks_of_removeState ha hRemove)
        hi⟩

/-
  In the fork, a transition between the tails changes no set,
  one to the loop joins both sets, and so on.
-/
theorem disjointSets_of_edit_fork :
    fork.WellFormed ∧
      (∃ b,
        fork.addTransition ⟨⟨2⟩, ⟨0⟩, .finite ""⟩ = .ok b ∧
          b.disjointSets = fork.disjointSets) ∧
      (∃ b,
        fork.addTransition ⟨⟨2⟩, ⟨3⟩, .finite "c"⟩ = .ok b ∧
          ∃ before s middle r after,
            fork.disjointSets =
                before ++ s :: (middle ++ r :: after) ∧
              b.disjointSets =
                before ++ s.union r :: (middle ++ after)) ∧
      (∃ b,
        fork.addState = .ok (⟨4⟩, b) ∧
          b.disjointSets =
            fork.disjointSets ++ [.ofList [⟨4⟩]]) ∧
      (∃ b,
        fork.insertState (.ofId ⟨9⟩) = .ok b ∧
          b.disjointSets =
            fork.disjointSets ++ [.ofList [⟨9⟩]]) ∧
      ∃ s b,
        fork.removeState? ⟨1⟩ = some (s, b) ∧
          .ofList [⟨3⟩] ∈ b.disjointSets := by
  have hFork : fork.WellFormed := by decide
  have hSets :
      fork.disjointSets =
        [.ofList [⟨3⟩], .ofList [⟨0⟩, ⟨1⟩, ⟨2⟩]] := by
    cbv
  rcases disjointSets_of_edit fork hFork with
    ⟨hAdd, hFresh, hInsert, hRemove⟩
  rcases hRemove ⟨1⟩ (by decide) with
    ⟨s, b, hRemoved, others, hMem, _⟩
  refine ⟨hFork, ⟨_, rfl, ?_⟩, ⟨_, rfl, ?_⟩,
    ⟨_, rfl, hFresh _ _ rfl⟩,
    ⟨_, rfl, hInsert (.ofId ⟨9⟩) _ rfl⟩,
    s, b, hRemoved, ?_⟩
  · exact (hAdd ⟨⟨2⟩, ⟨0⟩, .finite ""⟩ _ rfl).1
      (by rw [hSets]; decide)
  · rcases (hAdd ⟨⟨2⟩, ⟨3⟩, .finite "c"⟩ _ rfl).2
        (by rw [hSets]; decide) with
      ⟨before, s, middle, r, after, hList, _, hNew⟩
    exact ⟨before, s, middle, r, after, hList, hNew⟩
  · rw [hMem, hSets]
    exact Or.inl (by decide)

end Automaton

end AutomataStore
