import AutomataStore.Machine.Component
import AutomataStore.Proofs.AutomatonInvariant
import Mathlib.Data.List.Chain
import Mathlib.Logic.Relation

/-
  Components are the classes of states joined by paths.

  The worklist visits exactly the ids that a path of
  transitions, each taken in either direction, leads to.  The
  components of the states are therefore apart from each
  other, and are found in the order of their first members.

  Key definitions include:
    * `Automaton.Linked`, `Automaton.Joined`
    * `Worklist.Sound`
    * `Automaton.firstIndex`

  Main declarations:
    * `Worklist.mem_visited_run_iff`
    * `Automaton.mem_component_iff`
    * `Automaton.component_of_chains`
    * `Automaton.disjointSets_partition`
-/

------------------------------------------------------------
-- Paths
------------------------------------------------------------

namespace AutomataStore

/- The other end of a transition is reached in one direction. -/
theorem Transition.otherEnd_eq_some_iff
    (t : Transition)
    (i j : StateId) :
    t.otherEnd i = some j ↔
      i ≠ j ∧
        ((t.source = i ∧ t.target = j) ∨
          (t.source = j ∧ t.target = i)) := by
  unfold otherEnd
  by_cases hLoop : t.source = t.target
  · rw [if_pos hLoop]
    grind
  · rw [if_neg hLoop]
    by_cases hSource : t.source = i
    · rw [if_pos hSource]
      grind
    · rw [if_neg hSource]
      grind

namespace Automaton

/- A transition leads from one id to the other, or back. -/
def Linked (a : Automaton) (i j : StateId) : Prop :=
  ∃ t ∈ a.transitions,
    (t.source = i ∧ t.target = j) ∨
      (t.source = j ∧ t.target = i)

/- A path of transitions in either direction joins two ids. -/
def Joined (a : Automaton) : StateId → StateId → Prop :=
  Relation.ReflTransGen a.Linked

/- Links can be taken in either direction. -/
theorem linked_symm
    {a : Automaton}
    {i j : StateId}
    (h : a.Linked i j) :
    a.Linked j i := by
  rcases h with ⟨t, ht, hEnds⟩
  exact ⟨t, ht, hEnds.symm⟩

/- Paths can be taken in either direction. -/
theorem joined_symm
    {a : Automaton}
    {i j : StateId}
    (h : a.Joined i j) :
    a.Joined j i := by
  induction h with
  | refl => exact Relation.ReflTransGen.refl
  | tail _ hLink ih =>
      exact Relation.ReflTransGen.head (linked_symm hLink) ih

/- Links from a state lead to states. -/
theorem mem_ids_of_linked
    {a : Automaton}
    (ha : a.WellFormed)
    {i j : StateId}
    (h : a.Linked i j) :
    j ∈ a.ids := by
  rcases h with ⟨t, ht, ⟨_, rfl⟩ | ⟨rfl, _⟩⟩
  · exact ha.target_mem t ht
  · exact ha.source_mem t ht

/- Paths from a state lead to states. -/
theorem mem_ids_of_joined
    {a : Automaton}
    (ha : a.WellFormed)
    {i j : StateId}
    (hi : i ∈ a.ids)
    (h : a.Joined i j) :
    j ∈ a.ids := by
  cases h with
  | refl => exact hi
  | tail _ hLink => exact mem_ids_of_linked ha hLink

/- Neighbours are the other ids that an id is linked to. -/
theorem mem_neighbours_iff
    (a : Automaton)
    (i j : StateId) :
    j ∈ a.neighbours i ↔ i ≠ j ∧ a.Linked i j := by
  simp only [neighbours, List.mem_filterMap,
    Transition.otherEnd_eq_some_iff, Linked]
  constructor
  · rintro ⟨t, ht, hne, hEnds⟩
    exact ⟨hne, t, ht, hEnds⟩
  · rintro ⟨hne, t, ht, hEnds⟩
    exact ⟨t, ht, hne, hEnds⟩

end Automaton

------------------------------------------------------------
-- The Worklist Visits What is Joined
------------------------------------------------------------

namespace Worklist

/-
  What holds of a worklist at every time: the ids it has met
  are those visited and those on the frontier, and the seed
  is one of them and joined to all of them.
-/
structure Sound
    (a : Automaton)
    (seed : StateId)
    (w : Worklist) : Prop where
  seed_mem : seed ∈ w.queued
  joined : ∀ i ∈ w.queued, a.Joined seed i
  met : ∀ i, i ∈ w.queued ↔ i ∈ w.visited ∨ i ∈ w.frontier

/- The neighbours of every visited id have been met. -/
def Closed (a : Automaton) (w : Worklist) : Prop :=
  ∀ i ∈ w.visited, ∀ j ∈ a.neighbours i, j ∈ w.queued

variable {a : Automaton}
variable {seed : StateId}
variable {w : Worklist}

/- The start has met the seed only. -/
theorem sound_start :
    Sound a seed (start seed) where
  seed_mem := by simp [start]
  joined i hi := by
    simp only [start, StateSet.mem_ofList_iff,
      List.mem_singleton] at hi
    rw [hi]
    exact Relation.ReflTransGen.refl
  met i := by simp [start]

/- Nothing has been visited at the start. -/
theorem closed_start :
    Closed a (start seed) := by
  intro i hi
  exact absurd hi (StateSet.not_mem_empty i)

/- Meeting an id visits none. -/
theorem visited_meet
    (w : Worklist)
    (i : StateId) :
    (w.meet i).visited = w.visited := by
  unfold meet
  split <;> rfl

/- Meeting an id adds it to those met. -/
theorem mem_queued_meet_iff
    (hw : Sound a seed w)
    (i j : StateId) :
    j ∈ (w.meet i).queued ↔ j = i ∨ j ∈ w.queued := by
  unfold meet
  split
  · rename_i hMet
    have hi : i ∈ w.queued := by
      rcases hMet with hVisited | hQueued
      · exact (hw.met i).mpr (Or.inl hVisited)
      · exact hQueued
    constructor
    · exact Or.inr
    · rintro (rfl | hj)
      · exact hi
      · exact hj
  · exact StateSet.mem_insert_iff j i w.queued

/- Meeting an id joined to the seed keeps a worklist sound. -/
theorem sound_meet
    (hw : Sound a seed w)
    {i : StateId}
    (hi : a.Joined seed i) :
    Sound a seed (w.meet i) := by
  constructor
  · rw [mem_queued_meet_iff hw]
    exact Or.inr hw.seed_mem
  · intro j hj
    rcases (mem_queued_meet_iff hw i j).mp hj with rfl | hj
    · exact hi
    · exact hw.joined j hj
  · intro j
    unfold meet
    split
    · exact hw.met j
    · simp only [StateSet.mem_insert_iff, hw.met j,
        List.mem_cons]
      exact or_left_comm

/-
  Meeting ids joined to the seed keeps a worklist sound, adds
  them to those met, and visits none.
-/
theorem sound_foldl_meet
    (hw : Sound a seed w)
    {l : List StateId}
    (hl : ∀ i ∈ l, a.Joined seed i) :
    Sound a seed (l.foldl meet w) ∧
      (l.foldl meet w).visited = w.visited ∧
      ∀ j, j ∈ (l.foldl meet w).queued ↔
        j ∈ l ∨ j ∈ w.queued := by
  induction l generalizing w with
  | nil => exact ⟨hw, rfl, fun j => by simp⟩
  | cons i l ih =>
      rw [List.forall_mem_cons] at hl
      rcases ih (sound_meet hw hl.1) hl.2 with
        ⟨hSound, hVisited, hQueued⟩
      refine ⟨hSound, ?_, ?_⟩
      · exact hVisited.trans (visited_meet w i)
      · intro j
        rw [List.foldl_cons, hQueued,
          mem_queued_meet_iff hw, List.mem_cons]
        exact or_left_comm.trans or_assoc.symm

/- A step keeps a worklist sound and closed. -/
theorem sound_step
    (hw : Sound a seed w)
    (hClosed : Closed a w)
    {w' : Worklist}
    (hStep : w.step? a.neighbours = some w') :
    Sound a seed w' ∧ Closed a w' := by
  rcases step?_eq_some_iff.mp hStep with
    ⟨i, rest, hFrontier, rfl⟩
  have hi : i ∈ w.queued := by
    rw [hw.met, hFrontier]
    exact Or.inr (List.mem_cons_self ..)
  have hTaken : Sound a seed (w.visit i rest) := by
    constructor
    · exact hw.seed_mem
    · exact hw.joined
    · intro j
      simp only [visit, hw.met j, hFrontier, List.mem_cons,
        StateSet.mem_insert_iff]
      rw [or_assoc, or_left_comm]
  have hJoined :
      ∀ j ∈ a.neighbours i, a.Joined seed j := by
    intro j hj
    have hLink := ((a.mem_neighbours_iff i j).mp hj).2
    exact Relation.ReflTransGen.tail (hw.joined i hi) hLink
  rcases sound_foldl_meet hTaken hJoined with
    ⟨hSound, hVisited, hQueued⟩
  refine ⟨hSound, ?_⟩
  intro k hk j hj
  rw [hVisited, visit, StateSet.mem_insert_iff] at hk
  rw [hQueued]
  rcases hk with rfl | hk
  · exact Or.inl hj
  · exact Or.inr (hClosed k hk j hj)

/- A run visits exactly the ids joined to the seed. -/
theorem mem_visited_run_iff
    (hw : Sound a seed w)
    (hClosed : Closed a w)
    (i : StateId) :
    i ∈ (run a w).visited ↔ a.Joined seed i := by
  fun_induction run a w with
  | case1 w hDone =>
      -- The frontier is empty, so what was met was visited.
      have hFrontier := step?_eq_none_iff.mp hDone
      have hAll : ∀ j, j ∈ w.queued ↔ j ∈ w.visited := by
        intro j
        simp [hw.met j, hFrontier]
      constructor
      · intro hi
        exact hw.joined i ((hAll i).mpr hi)
      · intro hi
        induction hi with
        | refl => exact (hAll seed).mp hw.seed_mem
        | @tail j k _ hLink ih =>
            by_cases hjk : j = k
            · exact hjk ▸ ih
            · have hk :=
                (a.mem_neighbours_iff j k).mpr ⟨hjk, hLink⟩
              exact (hAll k).mp (hClosed j ih k hk)
  | case2 w w' hStep ih =>
      rcases sound_step hw hClosed hStep with
        ⟨hNext, hNextClosed⟩
      exact ih hNext hNextClosed

end Worklist

------------------------------------------------------------
-- Components
------------------------------------------------------------

namespace Automaton

/- A component holds the ids that are joined to its seed. -/
theorem mem_component_iff
    (a : Automaton)
    (seed i : StateId) :
    i ∈ a.component seed ↔ a.Joined seed i :=
  Worklist.mem_visited_run_iff Worklist.sound_start
    Worklist.closed_start i

/- A seed is in its component. -/
theorem seed_mem_component
    (a : Automaton)
    (seed : StateId) :
    seed ∈ a.component seed :=
  (a.mem_component_iff seed seed).mpr
    Relation.ReflTransGen.refl

/- Joined ids have the same component. -/
theorem component_eq_of_joined
    {a : Automaton}
    {i j : StateId}
    (h : a.Joined i j) :
    a.component i = a.component j := by
  apply StateSet.ext
  intro k
  rw [mem_component_iff, mem_component_iff]
  constructor
  · intro hk
    exact Relation.ReflTransGen.trans (joined_symm h) hk
  · intro hk
    exact Relation.ReflTransGen.trans h hk

/- Members have each other in their components. -/
theorem mem_component_comm
    (a : Automaton)
    (i j : StateId) :
    j ∈ a.component i ↔ i ∈ a.component j := by
  rw [mem_component_iff, mem_component_iff]
  exact ⟨joined_symm, joined_symm⟩

/- Two ids share their component when one is in the other's. -/
theorem component_eq_iff_mem
    (a : Automaton)
    (i j : StateId) :
    a.component i = a.component j ↔ j ∈ a.component i := by
  constructor
  · intro hSame
    rw [hSame]
    exact a.seed_mem_component j
  · intro hj
    rw [mem_component_iff] at hj
    exact component_eq_of_joined hj

/-
  A path is a chain of ids in which each one is linked to the
  next one.
-/
theorem joined_iff_exists_chain
    (a : Automaton)
    (i j : StateId) :
    a.Joined i j ↔
      ∃ chain : List StateId,
        List.IsChain a.Linked (i :: chain) ∧
          (i :: chain).getLast (List.cons_ne_nil i chain) =
            j := by
  constructor
  · exact List.exists_isChain_cons_of_relationReflTransGen
  · rintro ⟨chain, hChain, hLast⟩
    exact List.relationReflTransGen_of_exists_isChain_cons
      chain hChain hLast

/- Components are the same or apart. -/
theorem component_eq_or_apart
    (a : Automaton)
    (i j : StateId) :
    a.component i = a.component j ∨
      ∀ k ∈ a.component i, k ∉ a.component j := by
  by_cases hij : a.Joined i j
  · exact Or.inl (component_eq_of_joined hij)
  · right
    intro k hi hj
    rw [mem_component_iff] at hi hj
    exact hij (Relation.ReflTransGen.trans hi (joined_symm hj))

/-
  Whatever transitions an automaton has, and whether or not
  its states are declared, a component holds exactly the ids
  at which a chain of links from its seed ends.  The seed is
  one of them, members have each other in their components,
  and two components are the same or apart.
-/
theorem component_of_chains
    (a : Automaton) :
    (∀ seed i,
        i ∈ a.component seed ↔
          ∃ chain : List StateId,
            List.IsChain a.Linked (seed :: chain) ∧
              (seed :: chain).getLast
                  (List.cons_ne_nil seed chain) = i) ∧
      (∀ seed, seed ∈ a.component seed) ∧
      (∀ i j, j ∈ a.component i ↔ i ∈ a.component j) ∧
      ∀ i j,
        a.component i = a.component j ∨
          ∀ k ∈ a.component i, k ∉ a.component j := by
  refine ⟨?_, a.seed_mem_component, a.mem_component_comm,
    a.component_eq_or_apart⟩
  intro seed i
  rw [mem_component_iff, joined_iff_exists_chain]

/- A set of ids that no path leaves. -/
def NoneLeft (a : Automaton) (s : StateSet) : Prop :=
  ∀ i ∈ s, ∀ j, a.Joined i j → j ∈ s

/- The component of an id outside such a set is apart. -/
theorem not_mem_component_of_noneLeft
    {a : Automaton}
    {s : StateSet}
    (hs : a.NoneLeft s)
    {seed : StateId}
    (hSeed : seed ∉ s)
    {i : StateId}
    (hi : i ∈ s) :
    i ∉ a.component seed := by
  intro hMem
  rw [mem_component_iff] at hMem
  exact hSeed (hs i hi seed (joined_symm hMem))

/- No path leaves a set to which a component is added. -/
theorem noneLeft_union_component
    {a : Automaton}
    {s : StateSet}
    (hs : a.NoneLeft s)
    (seed : StateId) :
    a.NoneLeft (s.union (a.component seed)) := by
  intro i hi j hij
  rw [StateSet.mem_union_iff] at hi ⊢
  rcases hi with hi | hi
  · exact Or.inl (hs i hi j hij)
  · rw [mem_component_iff] at hi
    right
    rw [mem_component_iff]
    exact Relation.ReflTransGen.trans hi hij

/-
  Every set found is the component of an id in the list that
  was not assigned.
-/
theorem exists_seed_of_mem_componentsFrom
    {a : Automaton}
    {assigned : StateSet}
    {l : List StateId}
    {s : StateSet}
    (hs : s ∈ a.componentsFrom assigned l) :
    ∃ i ∈ l, i ∉ assigned ∧ s = a.component i := by
  induction l generalizing assigned with
  | nil => cases hs
  | cons k l ih =>
      rw [componentsFrom] at hs
      split at hs
      · rcases ih hs with ⟨i, hi, hNew, rfl⟩
        exact ⟨i, List.mem_cons_of_mem _ hi, hNew, rfl⟩
      · rename_i hk
        rcases List.mem_cons.mp hs with rfl | hs
        · exact ⟨k, List.mem_cons_self .., hk, rfl⟩
        · rcases ih hs with ⟨i, hi, hNew, rfl⟩
          rw [StateSet.mem_union_iff] at hNew
          exact
            ⟨i, List.mem_cons_of_mem _ hi,
              fun h => hNew (Or.inl h), rfl⟩

/- The component of every id not assigned is found. -/
theorem component_mem_componentsFrom
    {a : Automaton}
    {assigned : StateSet}
    {l : List StateId}
    {i : StateId}
    (hi : i ∈ l)
    (hNew : i ∉ assigned) :
    a.component i ∈ a.componentsFrom assigned l := by
  induction l generalizing assigned with
  | nil => cases hi
  | cons k l ih =>
      rw [componentsFrom]
      split
      · rename_i hk
        rcases List.mem_cons.mp hi with rfl | hi
        · exact absurd hk hNew
        · exact ih hi hNew
      · by_cases hFound : i ∈ a.component k
        · -- The id was found with an earlier one.
          rw [mem_component_iff] at hFound
          rw [← component_eq_of_joined hFound]
          exact List.mem_cons_self ..
        · rcases List.mem_cons.mp hi with rfl | hi
          · exact absurd (a.seed_mem_component i) hFound
          · apply List.mem_cons_of_mem
            apply ih hi
            rw [StateSet.mem_union_iff]
            exact not_or.mpr ⟨hNew, hFound⟩

/- No set found meets what was assigned before. -/
theorem not_mem_of_mem_componentsFrom
    {a : Automaton}
    {assigned : StateSet}
    (hAssigned : a.NoneLeft assigned)
    {l : List StateId}
    {s : StateSet}
    (hs : s ∈ a.componentsFrom assigned l)
    {i : StateId}
    (hi : i ∈ assigned) :
    i ∉ s := by
  rcases exists_seed_of_mem_componentsFrom hs with
    ⟨k, _, hNew, rfl⟩
  exact not_mem_component_of_noneLeft hAssigned hNew hi

/- The sets found are apart from each other. -/
theorem pairwise_componentsFrom
    {a : Automaton}
    {assigned : StateSet}
    (hAssigned : a.NoneLeft assigned)
    (l : List StateId) :
    (a.componentsFrom assigned l).Pairwise
      fun s t => ∀ i ∈ s, i ∉ t := by
  induction l generalizing assigned with
  | nil => exact List.Pairwise.nil
  | cons k l ih =>
      rw [componentsFrom]
      split
      · exact ih hAssigned
      · have hNext := noneLeft_union_component hAssigned k
        refine List.Pairwise.cons ?_ (ih hNext)
        intro t ht i hi
        apply not_mem_of_mem_componentsFrom hNext ht
        rw [StateSet.mem_union_iff]
        exact Or.inr hi

------------------------------------------------------------
-- Order of Components
------------------------------------------------------------

/- The place of the first state that is in a set. -/
def firstIndex (a : Automaton) (s : StateSet) : Nat :=
  a.ids.findIdx fun i => decide (i ∈ s)

/- The first place of a set is not in a part apart from it. -/
theorem firstIndex_eq_add
    {a : Automaton}
    {before after : List StateId}
    (hIds : a.ids = before ++ after)
    {s : StateSet}
    (hBefore : ∀ i ∈ before, i ∉ s) :
    a.firstIndex s =
      before.length +
        after.findIdx fun i => decide (i ∈ s) := by
  have hNone :
      before.findIdx (fun i => decide (i ∈ s)) =
        before.length := by
    apply List.findIdx_eq_length.mpr
    intro i hi
    exact decide_eq_false (hBefore i hi)
  rw [firstIndex, hIds, List.findIdx_append, hNone,
    if_neg (Nat.lt_irrefl _), Nat.add_comm]

/-
  The sets found for the states from some place on stand in
  the order of their first members, if the states before this
  place were assigned.
-/
theorem ordered_componentsFrom
    {a : Automaton}
    {assigned : StateSet}
    (hAssigned : a.NoneLeft assigned)
    {before l : List StateId}
    (hIds : a.ids = before ++ l)
    (hBefore : ∀ i ∈ before, i ∈ assigned) :
    (a.componentsFrom assigned l).Pairwise
      fun s t => a.firstIndex s < a.firstIndex t := by
  induction l generalizing assigned before with
  | nil => exact List.Pairwise.nil
  | cons k l ih =>
      have hSplit : a.ids = (before ++ [k]) ++ l := by
        rw [hIds, List.append_assoc]
        rfl
      rw [componentsFrom]
      split
      · rename_i hk
        apply ih hAssigned hSplit
        intro i hi
        rcases List.mem_append.mp hi with hi | hi
        · exact hBefore i hi
        · rw [List.mem_singleton.mp hi]
          exact hk
      · rename_i hk
        have hNext := noneLeft_union_component hAssigned k
        have hNextBefore :
            ∀ i ∈ before ++ [k],
              i ∈ assigned.union (a.component k) := by
          intro i hi
          rw [StateSet.mem_union_iff]
          rcases List.mem_append.mp hi with hi | hi
          · exact Or.inl (hBefore i hi)
          · rw [List.mem_singleton.mp hi]
            exact Or.inr (a.seed_mem_component k)
        refine List.Pairwise.cons ?_
          (ih hNext hSplit hNextBefore)
        intro t ht
        have hFirst :
            a.firstIndex (a.component k) = before.length := by
          rw [firstIndex_eq_add hIds, List.findIdx_cons]
          · simp [a.seed_mem_component k]
          · intro i hi
            exact not_mem_component_of_noneLeft hAssigned hk
              (hBefore i hi)
        have hLater :
            (before ++ [k]).length ≤ a.firstIndex t := by
          rw [firstIndex_eq_add hSplit]
          · exact Nat.le_add_right _ _
          · intro i hi
            exact not_mem_of_mem_componentsFrom hNext ht
              (hNextBefore i hi)
        rw [List.length_append] at hLater
        rw [hFirst]
        exact hLater

------------------------------------------------------------
-- The Partition
------------------------------------------------------------

/- The disjoint sets are the components of the states. -/
theorem mem_disjointSets_iff
    (a : Automaton)
    (s : StateSet) :
    s ∈ a.disjointSets ↔ ∃ i ∈ a.ids, s = a.component i := by
  constructor
  · intro hs
    rcases exists_seed_of_mem_componentsFrom hs with
      ⟨i, hi, _, rfl⟩
    exact ⟨i, hi, rfl⟩
  · rintro ⟨i, hi, rfl⟩
    exact component_mem_componentsFrom hi
      (StateSet.not_mem_empty i)

/- The component of a state is one of the disjoint sets. -/
theorem component_mem_disjointSets
    {a : Automaton}
    {i : StateId}
    (hi : i ∈ a.ids) :
    a.component i ∈ a.disjointSets :=
  (a.mem_disjointSets_iff _).mpr ⟨i, hi, rfl⟩

/- The disjoint set with a member is its component. -/
theorem eq_component_of_mem
    {a : Automaton}
    {s : StateSet}
    (hs : s ∈ a.disjointSets)
    {i : StateId}
    (hi : i ∈ s) :
    s = a.component i := by
  rcases (a.mem_disjointSets_iff s).mp hs with ⟨k, _, rfl⟩
  rw [mem_component_iff] at hi
  exact component_eq_of_joined hi

/- No path leaves the empty set. -/
theorem noneLeft_empty
    (a : Automaton) :
    a.NoneLeft .empty := by
  intro i hi
  exact absurd hi (StateSet.not_mem_empty i)

/-
  An automaton is connected exactly if a path joins every two
  of its states.
-/
theorem isConnected_iff
    (a : Automaton) :
    a.isConnected = true ↔
      ∀ i ∈ a.ids, ∀ j ∈ a.ids, a.Joined i j := by
  have hApart :
      a.disjointSets.Pairwise fun s t => ∀ i ∈ s, i ∉ t :=
    pairwise_componentsFrom a.noneLeft_empty a.ids
  have hSets := a.mem_disjointSets_iff
  rw [isConnected, decide_eq_true_eq]
  constructor
  · intro hLength i hi j hj
    have hSame : a.component j = a.component i := by
      have hi' := component_mem_disjointSets hi
      have hj' := component_mem_disjointSets hj
      match a.disjointSets, hLength, hi', hj' with
      | [s], _, hi', hj' =>
          rw [List.mem_singleton.mp hi',
            List.mem_singleton.mp hj']
    rw [← mem_component_iff, ← hSame]
    exact a.seed_mem_component j
  · intro hJoined
    match hAll : a.disjointSets with
    | [] => exact Nat.zero_le 1
    | [s] => exact Nat.le_refl 1
    | s :: t :: rest =>
        rw [hAll] at hSets hApart
        rcases (hSets s).mp (by simp) with ⟨i, hi, rfl⟩
        rcases (hSets t).mp (by simp) with ⟨j, hj, rfl⟩
        have hNot :=
          List.rel_of_pairwise_cons hApart
            (List.mem_cons_self ..) i
            (a.seed_mem_component i)
        rw [mem_component_iff] at hNot
        exact absurd (hJoined j hj i hi) hNot

/-
  The disjoint sets are the classes of the states under paths
  in either direction, in the order of their first members.
-/
theorem disjointSets_partition
    (a : Automaton)
    (ha : a.WellFormed) :
    (∀ s ∈ a.disjointSets, ∃ i, i ∈ s) ∧
      a.disjointSets.Pairwise (fun s t => ∀ i ∈ s, i ∉ t) ∧
      (∀ i, (∃ s ∈ a.disjointSets, i ∈ s) ↔ i ∈ a.ids) ∧
      (∀ i ∈ a.ids, ∀ j ∈ a.ids,
        (∃ s ∈ a.disjointSets, i ∈ s ∧ j ∈ s) ↔
          a.Joined i j) ∧
      a.disjointSets.Pairwise
        (fun s t => a.firstIndex s < a.firstIndex t) ∧
      (∀ i ∈ a.ids,
        a.component i ∈ a.disjointSets ∧
          i ∈ a.component i ∧
          ∀ s ∈ a.disjointSets, i ∈ s →
            s = a.component i) ∧
      (a.isConnected = true ↔
        ∀ i ∈ a.ids, ∀ j ∈ a.ids, a.Joined i j) := by
  refine ⟨?_, pairwise_componentsFrom a.noneLeft_empty a.ids,
    ?_, ?_,
    ordered_componentsFrom a.noneLeft_empty
      (List.nil_append a.ids).symm (by simp),
    ?_, a.isConnected_iff⟩
  · intro s hs
    rcases (a.mem_disjointSets_iff s).mp hs with ⟨i, _, rfl⟩
    exact ⟨i, a.seed_mem_component i⟩
  · intro i
    constructor
    · rintro ⟨s, hs, hi⟩
      rcases (a.mem_disjointSets_iff s).mp hs with ⟨k, hk, rfl⟩
      rw [mem_component_iff] at hi
      exact mem_ids_of_joined ha hk hi
    · intro hi
      exact ⟨a.component i, component_mem_disjointSets hi,
        a.seed_mem_component i⟩
  · intro i hi j _
    constructor
    · rintro ⟨s, hs, his, hjs⟩
      rw [eq_component_of_mem hs his] at hjs
      exact (a.mem_component_iff i j).mp hjs
    · intro hij
      exact ⟨a.component i, component_mem_disjointSets hi,
        a.seed_mem_component i,
        (a.mem_component_iff i j).mpr hij⟩
  · intro i hi
    exact ⟨component_mem_disjointSets hi,
      a.seed_mem_component i,
      fun s hs his => eq_component_of_mem hs his⟩

/- A fork: two arrows that meet, and a loop apart from them. -/
def fork : Automaton where
  kind := .finite
  states :=
    [.ofId ⟨3⟩, .ofId ⟨0⟩, .ofId ⟨1⟩, .ofId ⟨2⟩]
  transitions :=
    [⟨⟨0⟩, ⟨1⟩, .finite "a"⟩,
     ⟨⟨2⟩, ⟨1⟩, .finite "b"⟩,
     ⟨⟨3⟩, ⟨3⟩, .finite ""⟩]

/- The two tails of the fork are in one set. -/
theorem disjointSets_partition_fork :
    fork.WellFormed ∧
      ∃ s ∈ fork.disjointSets,
        (⟨0⟩ : StateId) ∈ s ∧ (⟨2⟩ : StateId) ∈ s := by
  have hFork : fork.WellFormed := by decide
  have hFirst : fork.Linked ⟨0⟩ ⟨1⟩ :=
    ⟨⟨⟨0⟩, ⟨1⟩, .finite "a"⟩, by decide, by decide⟩
  have hSecond : fork.Linked ⟨1⟩ ⟨2⟩ :=
    ⟨⟨⟨2⟩, ⟨1⟩, .finite "b"⟩, by decide, by decide⟩
  have hPath : fork.Joined ⟨0⟩ ⟨2⟩ :=
    Relation.ReflTransGen.tail
      (Relation.ReflTransGen.single hFirst) hSecond
  rcases disjointSets_partition fork hFork with
    ⟨_, _, _, hSame, _⟩
  exact ⟨hFork,
    (hSame ⟨0⟩ (by decide) ⟨2⟩ (by decide)).mpr hPath⟩

end Automaton

end AutomataStore
