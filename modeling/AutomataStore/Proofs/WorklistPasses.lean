import AutomataStore.Proofs.Connectivity
import Mathlib.Data.List.Perm.Subperm

/-
  A worklist handles each id once.

  On its way from a seed a worklist is accounted for by two
  lists: the ids that were put on its frontier, the seed
  first, and those that were taken off.  No id is put on
  twice, and what was put on was taken off or is still there.
  The passes of a run are therefore as many as the members of
  the component that it finds.

  Key definitions include:
    * `Worklist.Orderly`
    * `Worklist.Passes`
    * `Worklist.Accounts`

  Main declarations:
    * `Worklist.accounts_step`
    * `Worklist.accounts_of_passes`
    * `Worklist.passes_run`
    * `Automaton.component_of_passes`
-/

------------------------------------------------------------
-- Passes
------------------------------------------------------------

namespace AutomataStore

/- A set lists each of its members once. -/
theorem StateSet.nodup_members
    (s : StateSet) :
    s.members.Nodup := by
  apply s.increasing.imp
  rintro i _ hLess rfl
  exact Nat.lt_irrefl _ hLess

namespace Worklist

variable {neighbours : StateId → List StateId}
variable {seed : StateId}
variable {taken put : List StateId}
variable {w w' : Worklist}

/-
  The visited ids are apart from those on the frontier, which
  are there once, and together they are the ids ever met.
-/
structure Orderly (w : Worklist) : Prop where
  apart : ∀ i ∈ w.visited, i ∉ w.frontier
  nodup : w.frontier.Nodup
  met : ∀ i, i ∈ w.queued ↔ i ∈ w.visited ∨ i ∈ w.frontier

/-
  The passes that lead from one worklist to another.  Each
  one takes the latest id off the frontier and puts others
  before the rest of it.  The ids taken and those put are
  listed in their order.
-/
inductive Passes
    (neighbours : StateId → List StateId)
    (w : Worklist) :
    List StateId → List StateId → Worklist → Prop where
  | none : Passes neighbours w [] [] w
  | next
      {taken put : List StateId}
      {w' w'' : Worklist}
      {i : StateId}
      {rest news : List StateId}
      (earlier : Passes neighbours w taken put w')
      (step : w'.step? neighbours = some w'')
      (before : w'.frontier = i :: rest)
      (after : w''.frontier = news.reverse ++ rest) :
      Passes neighbours w (taken ++ [i]) (put ++ news) w''

------------------------------------------------------------
-- Accounts
------------------------------------------------------------

/-
  The account of a worklist that started with a seed: the ids
  that were taken off its frontier are those visited, and the
  ids that were put on it, each one once, are those ever met.
-/
structure Accounts
    (seed : StateId)
    (taken put : List StateId)
    (w : Worklist) : Prop where
  once : (seed :: put).Nodup
  left : (taken ++ w.frontier).Perm (seed :: put)
  visited : ∀ i, i ∈ w.visited ↔ i ∈ taken
  queued : ∀ i, i ∈ w.queued ↔ i ∈ seed :: put

/- No id is taken off the frontier twice. -/
theorem Accounts.nodup_taken
    (h : Accounts seed taken put w) :
    taken.Nodup :=
  (List.nodup_append.mp (h.left.nodup_iff.mpr h.once)).1

/- A worklist that is accounted for is orderly. -/
theorem Accounts.orderly
    (h : Accounts seed taken put w) :
    w.Orderly := by
  rcases List.nodup_append.mp
    (h.left.nodup_iff.mpr h.once) with ⟨_, hFrontier, hApart⟩
  refine ⟨?_, hFrontier, ?_⟩
  · intro i hVisited hFrontier
    exact hApart i ((h.visited i).mp hVisited) i hFrontier rfl
  · intro i
    rw [h.queued, h.visited, ← h.left.mem_iff, List.mem_append]

/- At the start only the seed was put on the frontier. -/
theorem accounts_start
    (seed : StateId) :
    Accounts seed [] [] (start seed) where
  once := by simp
  left := List.Perm.refl _
  visited i := by simp [start]
  queued i := by simp [start]

/- An id that is visited is taken off the frontier. -/
theorem accounts_visit
    (h : Accounts seed taken put w)
    {i : StateId}
    {rest : List StateId}
    (hFrontier : w.frontier = i :: rest) :
    Accounts seed (taken ++ [i]) put (w.visit i rest) where
  once := h.once
  left := by
    have hLeft := h.left
    rw [hFrontier, List.append_cons] at hLeft
    exact hLeft
  visited j := by
    simp only [visit, StateSet.mem_insert_iff, h.visited,
      List.mem_append, List.mem_singleton]
    exact Or.comm
  queued := h.queued

/- An id that is met is put on the frontier, unless it was. -/
theorem accounts_meet
    (h : Accounts seed taken put w)
    (i : StateId) :
    ∃ news,
      Accounts seed taken (put ++ news) (w.meet i) ∧
        (w.meet i).frontier = news.reverse ++ w.frontier := by
  unfold meet
  split
  · exact ⟨[], by simpa using h, rfl⟩
  · rename_i hNew
    have hOther : i ∉ seed :: put := by
      rw [← h.queued]
      exact fun hQueued => hNew (Or.inr hQueued)
    have hPerm :
        (i :: seed :: put).Perm (seed :: (put ++ [i])) :=
      (List.perm_append_singleton i (seed :: put)).symm
    refine ⟨[i], ⟨?_, ?_, h.visited, ?_⟩, rfl⟩
    · exact hPerm.nodup_iff.mp
        (List.nodup_cons.mpr ⟨hOther, h.once⟩)
    · exact (List.perm_middle.trans (h.left.cons i)).trans hPerm
    · intro j
      rw [StateSet.mem_insert_iff, h.queued, ← hPerm.mem_iff]
      exact List.mem_cons.symm

/- Meeting ids puts those on the frontier that are new. -/
theorem accounts_foldl_meet
    (h : Accounts seed taken put w)
    (l : List StateId) :
    ∃ news,
      Accounts seed taken (put ++ news) (l.foldl meet w) ∧
        (l.foldl meet w).frontier =
          news.reverse ++ w.frontier := by
  induction l generalizing w put with
  | nil => exact ⟨[], by simpa using h, rfl⟩
  | cons i l ih =>
      rcases accounts_meet h i with ⟨first, hFirst, hGrown⟩
      rcases ih hFirst with ⟨others, hOthers, hFrontier⟩
      refine ⟨first ++ others, ?_, ?_⟩
      · rw [← List.append_assoc]
        exact hOthers
      · rw [List.foldl_cons, hFrontier, hGrown,
          List.reverse_append, List.append_assoc]

/-
  A step takes one id off the frontier, puts new ones on it,
  and is accounted for by both.
-/
theorem accounts_step
    (h : Accounts seed taken put w)
    (hStep : w.step? neighbours = some w') :
    ∃ i rest news,
      w.frontier = i :: rest ∧
        w'.frontier = news.reverse ++ rest ∧
          Accounts seed (taken ++ [i]) (put ++ news) w' := by
  rcases step?_eq_some_iff.mp hStep with
    ⟨i, rest, hFrontier, rfl⟩
  rcases accounts_foldl_meet (accounts_visit h hFrontier)
    (neighbours i) with ⟨news, hAfter, hGrown⟩
  exact ⟨i, rest, news, hFrontier, hGrown, hAfter⟩

/- All passes from the start are accounted for. -/
theorem accounts_of_passes
    (h : Passes neighbours (start seed) taken put w) :
    Accounts seed taken put w := by
  induction h with
  | none => exact accounts_start seed
  | next _ hStep hBefore hAfter ih =>
      rcases accounts_step ih hStep with
        ⟨j, rest', news', hBefore', hAfter', hNext⟩
      rw [hBefore, List.cons.injEq] at hBefore'
      rcases hBefore' with ⟨rfl, rfl⟩
      rw [hAfter, List.append_cancel_right_eq,
        List.reverse_inj] at hAfter'
      rw [hAfter']
      exact hNext

------------------------------------------------------------
-- Runs
------------------------------------------------------------

variable {a : Automaton}

/- Passes from the start find what is joined to the seed. -/
theorem sound_of_passes
    (h : Passes a.neighbours (start seed) taken put w) :
    Sound a seed w ∧ Closed a w := by
  induction h with
  | none => exact ⟨sound_start, closed_start⟩
  | next _ hStep _ _ ih => exact sound_step ih.1 ih.2 hStep

/- A run is made of passes and ends with an empty frontier. -/
theorem passes_run
    (h : Passes a.neighbours (start seed) taken put w) :
    ∃ taken' put',
      Passes a.neighbours (start seed) taken' put' (run a w) ∧
        (run a w).frontier = [] := by
  fun_induction run a w generalizing taken put with
  | case1 w hDone =>
      exact ⟨taken, put, h, step?_eq_none_iff.mp hDone⟩
  | case2 w w' hStep ih =>
      rcases accounts_step (accounts_of_passes h) hStep with
        ⟨i, rest, news, hBefore, hAfter, _⟩
      exact ih (h.next hStep hBefore hAfter)

end Worklist

------------------------------------------------------------
-- Components
------------------------------------------------------------

namespace Automaton

open Worklist

variable {a : Automaton}
variable {seed : StateId}
variable {taken put : List StateId}
variable {w : Worklist}

/- The ids that were taken are members of the component. -/
theorem mem_component_of_mem_taken
    (h : Passes a.neighbours (start seed) taken put w)
    {i : StateId}
    (hi : i ∈ taken) :
    i ∈ a.component seed := by
  have hSound := (sound_of_passes h).1
  have hVisited := ((accounts_of_passes h).visited i).mpr hi
  rw [mem_component_iff]
  exact hSound.joined i ((hSound.met i).mpr (Or.inl hVisited))

/- No more ids are taken than there are members. -/
theorem length_taken_le
    (h : Passes a.neighbours (start seed) taken put w) :
    taken.length ≤ (a.component seed).members.length := by
  have hNodup := (accounts_of_passes h).nodup_taken
  apply (List.subperm_of_subset hNodup _).length_le
  intro i hi
  exact mem_component_of_mem_taken h hi

/- Once the frontier is empty, the component was visited. -/
theorem visited_eq_component
    (h : Passes a.neighbours (start seed) taken put w)
    (hEmpty : w.frontier = []) :
    w.visited = a.component seed := by
  rcases sound_of_passes h with ⟨hSound, hClosed⟩
  have hRun : Worklist.run a w = w := by
    rw [Worklist.run]
    split
    · rfl
    · rename_i hStep
      rw [step?_eq_none_iff.mpr hEmpty] at hStep
      cases hStep
  apply StateSet.ext
  intro i
  rw [mem_component_iff, ← mem_visited_run_iff hSound hClosed,
    hRun]

/-
  The frontier is empty exactly when as many ids were taken
  off it as the component has members.
-/
theorem frontier_eq_nil_iff
    (h : Passes a.neighbours (start seed) taken put w) :
    w.frontier = [] ↔
      taken.length = (a.component seed).members.length := by
  have hAccounts := accounts_of_passes h
  constructor
  · intro hEmpty
    have hPerm : taken.Perm w.visited.members :=
      (List.perm_ext_iff_of_nodup hAccounts.nodup_taken
        w.visited.nodup_members).mpr
        fun i => (hAccounts.visited i).symm
    rw [hPerm.length_eq, visited_eq_component h hEmpty]
  · intro hLength
    cases hStep : w.step? a.neighbours with
    | none => exact step?_eq_none_iff.mp hStep
    | some w' =>
        -- One more id would be taken than there are members.
        rcases accounts_step hAccounts hStep with
          ⟨i, rest, news, hBefore, hAfter, _⟩
        have hMore :=
          length_taken_le (h.next hStep hBefore hAfter)
        rw [List.length_append, hLength] at hMore
        exact absurd hMore (Nat.not_succ_le_self _)

/- Members other than the seed are ends of transitions. -/
theorem length_component_le
    (a : Automaton)
    (seed : StateId) :
    (a.component seed).members.length ≤
      (StateSet.ofList a.endpoints).members.length + 1 := by
  have hEnds :
      (a.component seed).members ⊆
        seed :: (StateSet.ofList a.endpoints).members := by
    intro i hi
    cases (a.mem_component_iff seed i).mp hi with
    | refl => exact List.mem_cons_self
    | tail _ hLink =>
        apply List.mem_cons_of_mem
        apply (StateSet.mem_ofList_iff i a.endpoints).mpr
        rcases hLink with ⟨t, ht, ⟨_, rfl⟩ | ⟨rfl, _⟩⟩
        · exact List.mem_flatMap.mpr ⟨t, ht, by simp⟩
        · exact List.mem_flatMap.mpr ⟨t, ht, by simp⟩
  exact (List.subperm_of_subset
    (a.component seed).nodup_members hEnds).length_le

/-
  Whatever transitions an automaton has, its worklist is
  orderly after every pass from a seed, and within a pass
  whenever some neighbours of the visited id have been met.
  No id is put on the frontier twice or taken off it twice.
  The passes are over exactly when as many ids were taken as
  the component has members; the run makes that many.  There
  is at most one member more than there are ids at the ends
  of transitions.
-/
theorem component_of_passes
    (a : Automaton)
    (seed : StateId) :
    (∀ taken put w,
        Passes a.neighbours (start seed) taken put w →
          w.Orderly ∧
            (∀ i rest met unmet,
              w.frontier = i :: rest →
              a.neighbours i = met ++ unmet →
                (met.foldl meet (w.visit i rest)).Orderly) ∧
            taken.Nodup ∧
            (seed :: put).Nodup ∧
            taken.length ≤
              (a.component seed).members.length ∧
            (w.step? a.neighbours = none ↔
              taken.length =
                (a.component seed).members.length)) ∧
      (∃ taken put,
        Passes a.neighbours (start seed) taken put
            (Worklist.run a (start seed)) ∧
          taken.length =
            (a.component seed).members.length) ∧
      (a.component seed).members.length ≤
        (StateSet.ofList a.endpoints).members.length + 1 := by
  refine ⟨?_, ?_, a.length_component_le seed⟩
  · intro taken put w h
    have hAccounts := accounts_of_passes h
    refine ⟨hAccounts.orderly, ?_, hAccounts.nodup_taken,
      hAccounts.once, length_taken_le h, ?_⟩
    · intro i rest met unmet hFrontier _
      rcases accounts_foldl_meet
        (accounts_visit hAccounts hFrontier) met with
        ⟨news, hMet, _⟩
      exact hMet.orderly
    · exact step?_eq_none_iff.trans (frontier_eq_nil_iff h)
  · have hStart : Passes a.neighbours (start seed) [] [] _ :=
      Passes.none
    rcases passes_run hStart with ⟨taken, put, h, hEmpty⟩
    exact ⟨taken, put, h, (frontier_eq_nil_iff h).mp hEmpty⟩

end Automaton

end AutomataStore
