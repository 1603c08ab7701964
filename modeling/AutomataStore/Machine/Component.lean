import AutomataStore.Machine.Automaton

/-
  Connected components.

  Two states are neighbours when a transition joins them in
  either direction.  A component is found with a worklist:
  an id is put on the frontier when it is first met, and
  visited when it is taken off.

  Key definitions include:
    * `Automaton.neighbours`
    * `Worklist`, `Worklist.step`, `Worklist.run`
    * `Automaton.component`
    * `Automaton.disjointSets`

  Correctness is proven by:
    * `Worklist.step?_eq_some_iff`
    * `Worklist.slack_step_lt`
-/

------------------------------------------------------------
-- Neighbours
------------------------------------------------------------

namespace AutomataStore

/- The other end of a transition that joins `i` to it. -/
def Transition.otherEnd
    (t : Transition)
    (i : StateId) : Option StateId :=
  if t.source = t.target then none
  else if t.source = i then some t.target
  else if t.target = i then some t.source
  else none

namespace Automaton

/- The ids that a transition joins to `i`, in order. -/
def neighbours
    (a : Automaton)
    (i : StateId) : List StateId :=
  a.transitions.filterMap fun t => t.otherEnd i

/- The ids at the ends of transitions. -/
def endpoints (a : Automaton) : List StateId :=
  a.transitions.flatMap fun t => [t.source, t.target]

/- Neighbours are ends of transitions. -/
theorem mem_endpoints_of_mem_neighbours
    {a : Automaton}
    {i j : StateId}
    (h : j ∈ a.neighbours i) :
    j ∈ a.endpoints := by
  rcases List.mem_filterMap.mp h with ⟨t, ht, hOther⟩
  apply List.mem_flatMap.mpr
  refine ⟨t, ht, ?_⟩
  unfold Transition.otherEnd at hOther
  split at hOther
  · cases hOther
  split at hOther
  · simp_all
  split at hOther
  · simp_all
  · cases hOther

end Automaton

------------------------------------------------------------
-- The Worklist
------------------------------------------------------------

/-
  The ids that were visited, those that were ever met, and
  the frontier: those met and not yet visited, latest first.
-/
structure Worklist where
  visited : StateSet
  queued : StateSet
  frontier : List StateId
deriving DecidableEq

namespace Worklist

/- The worklist that has met one id. -/
def start (seed : StateId) : Worklist where
  visited := .empty
  queued := .ofList [seed]
  frontier := [seed]

/- Meet an id: put it on the frontier unless it was met. -/
def meet (w : Worklist) (i : StateId) : Worklist :=
  if i ∈ w.visited ∨ i ∈ w.queued then
    w
  else
    { w with
      queued := w.queued.insert i
      frontier := i :: w.frontier }

/-
  Take the latest id off the frontier, visit it and meet its
  neighbours.  An empty frontier leaves nothing to do.
-/
def step?
    (neighbours : StateId → List StateId)
    (w : Worklist) : Option Worklist :=
  match w.frontier with
  | [] => none
  | i :: rest =>
      some ((neighbours i).foldl meet
        { w with
          visited := w.visited.insert i
          frontier := rest })

/- The worklist that has visited one more id. -/
def visit
    (w : Worklist)
    (i : StateId)
    (rest : List StateId) : Worklist :=
  { w with
    visited := w.visited.insert i
    frontier := rest }

/- A step visits the latest id and meets its neighbours. -/
theorem step?_eq_some_iff
    {neighbours : StateId → List StateId}
    {w w' : Worklist} :
    w.step? neighbours = some w' ↔
      ∃ i rest,
        w.frontier = i :: rest ∧
          (neighbours i).foldl meet (w.visit i rest) = w' := by
  unfold step?
  cases hFrontier : w.frontier with
  | nil => simp
  | cons i rest =>
      simp only [Option.some.injEq, List.cons.injEq]
      constructor
      · intro hNext
        exact ⟨i, rest, ⟨rfl, rfl⟩, hNext⟩
      · rintro ⟨i', rest', ⟨rfl, rfl⟩, hNext⟩
        exact hNext

/- There is no step exactly if the frontier is empty. -/
theorem step?_eq_none_iff
    {neighbours : StateId → List StateId}
    {w : Worklist} :
    w.step? neighbours = none ↔ w.frontier = [] := by
  unfold step?
  split <;> simp_all

/-
  How much work is left at most, when only members of
  `universe` can be met.
-/
def slack
    (all : List StateId)
    (w : Worklist) : Nat :=
  (all.filter fun i => decide (¬ i ∈ w.queued)).length +
    w.frontier.length

/- Meeting a member of the universe adds no work. -/
theorem slack_meet_le
    {all : List StateId}
    {i : StateId}
    (hi : i ∈ all)
    (w : Worklist) :
    (w.meet i).slack all ≤ w.slack all := by
  unfold meet
  split
  · exact Nat.le_refl _
  · rename_i hNew
    have hQueued : ¬ i ∈ w.queued := fun h => hNew (Or.inr h)
    have hLess :
        (all.filter fun j =>
            decide (¬ j ∈ w.queued.insert i)).length <
          (all.filter fun j =>
            decide (¬ j ∈ w.queued)).length := by
      have hEq :
          (all.filter fun j =>
              decide (¬ j ∈ w.queued.insert i)) =
            (all.filter fun j =>
                decide (¬ j ∈ w.queued)).filter
              fun j => decide (j ≠ i) := by
        rw [List.filter_filter]
        apply List.filter_congr
        intro j _
        simp
      rw [hEq]
      apply List.length_filter_lt_length_iff_exists.mpr
      refine ⟨i, ?_, by simp⟩
      simp [hi, hQueued]
    simp only [slack, List.length_cons]
    omega

/- Meeting members of the universe adds no work. -/
theorem slack_foldl_meet_le
    {all : List StateId}
    {l : List StateId}
    (hl : ∀ i ∈ l, i ∈ all)
    (w : Worklist) :
    (l.foldl meet w).slack all ≤ w.slack all := by
  induction l generalizing w with
  | nil => exact Nat.le_refl _
  | cons i l ih =>
      exact Nat.le_trans
        (ih (fun j hj => hl j (List.mem_cons_of_mem _ hj)) _)
        (slack_meet_le (hl i (List.mem_cons_self ..)) w)

/- Every step leaves less work. -/
theorem slack_step_lt
    {neighbours : StateId → List StateId}
    {all : List StateId}
    (hAll : ∀ i, ∀ j ∈ neighbours i, j ∈ all)
    {w w' : Worklist}
    (hStep : w.step? neighbours = some w') :
    w'.slack all < w.slack all := by
  rcases step?_eq_some_iff.mp hStep with
    ⟨i, rest, hFrontier, rfl⟩
  have hVisit :
      (w.visit i rest).slack all + 1 = w.slack all := by
    rw [slack, slack, hFrontier]
    rfl
  have hMeet := slack_foldl_meet_le (hAll i) (w.visit i rest)
  omega

/- Work until the frontier is empty. -/
def run
    (a : Automaton)
    (w : Worklist) : Worklist :=
  match _h : w.step? a.neighbours with
  | none => w
  | some w' => run a w'
termination_by w.slack a.endpoints
decreasing_by
  apply slack_step_lt _ _h
  intro i j hj
  exact Automaton.mem_endpoints_of_mem_neighbours hj

end Worklist

------------------------------------------------------------
-- Components
------------------------------------------------------------

namespace Automaton

/-
  The ids joined to a seed by transitions in either
  direction, the seed included.
-/
def component (a : Automaton) (seed : StateId) : StateSet :=
  (Worklist.run a (.start seed)).visited

/- The components of the ids that are not assigned to one. -/
def componentsFrom
    (a : Automaton)
    (assigned : StateSet) : List StateId → List StateSet
  | [] => []
  | i :: l =>
      if i ∈ assigned then
        a.componentsFrom assigned l
      else
        let found := a.component i
        found :: a.componentsFrom (assigned.union found) l

/-
  The components of all states, in the order in which their
  first members were inserted.
-/
def disjointSets (a : Automaton) : List StateSet :=
  a.componentsFrom .empty a.ids

/- Whether all states lie in one component. -/
def isConnected (a : Automaton) : Bool :=
  a.disjointSets.length ≤ 1

/- Whether a transition joins two different states. -/
def areJoined (a : Automaton) (i j : StateId) : Bool :=
  i ≠ j && (a.between i j ≠ [] || a.between j i ≠ [])

end Automaton

end AutomataStore
