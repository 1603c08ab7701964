import AutomataStore.Grammar.Rules
import AutomataStore.Proofs.AutomatonInvariant
import Mathlib.Data.List.Forall2
import Mathlib.Data.List.Induction
import Mathlib.Data.List.Nodup
import Mathlib.Data.List.Perm.Subperm

/-
  The dependency graph of a grammar is the graph of what its
  productions mention.

  The states are the variables, numbered in the order they
  first occur in.  While the productions are gone through,
  the graph has an edge for every pair of variables mentioned
  so far, in the order of their first mentions.

  Key definitions include:
    * `Production.mentions`, `Grammar.mentions`
    * `Grammar.idOf`, `Grammar.edge`
    * `Grammar.graphOver`

  Main declarations:
    * `Grammar.addVariable_graphOver`
    * `Grammar.linkTo_graphOver`
    * `Grammar.dependencyGraph_eq_graphOver`
    * `Grammar.dependencyGraph_of_mentions`
-/

------------------------------------------------------------
-- Variables
------------------------------------------------------------

namespace AutomataStore

/- A text of one character is that character alone. -/
theorem soleChar?_eq_some_iff
    (s : String)
    (c : Char) :
    soleChar? s = some c ↔ s = String.singleton c := by
  have hText : s = String.singleton c ↔ s.toList = [c] := by
    rw [← String.toList_inj, String.toList_singleton]
  rw [hText]
  unfold soleChar?
  split
  · rename_i d hList
    simp [hList]
  · rename_i hOther
    simp only [reduceCtorEq, false_iff]
    exact hOther c

/- There are fewer characters than ids. -/
theorem length_lt_limit_of_nodup
    {cs : List Char}
    (hcs : cs.Nodup) :
    cs.length < Numeral.limit := by
  have hNumbers : (cs.map Char.toNat).Nodup :=
    hcs.map fun c d h => Char.ext (UInt32.toNat_inj.mp h)
  have hRange : cs.map Char.toNat ⊆ List.range 1114112 := by
    intro n hn
    rcases List.mem_map.mp hn with ⟨c, _, rfl⟩
    rw [List.mem_range]
    rcases c.valid with hLow | hHigh
    · exact Nat.lt_trans hLow (by decide)
    · exact hHigh.2
  have hLength := (hNumbers.subperm hRange).length_le
  rw [List.length_map, List.length_range] at hLength
  exact Nat.lt_of_le_of_lt hLength (by decide)

namespace Grammar

/-
  The variables of a grammar are those on either side of its
  productions.
-/
theorem mem_variables_iff
    (g : Grammar)
    (k : Classifier)
    (v : Char) :
    v ∈ g.variables k ↔
      k.isVariable v = true ∧
        ∃ p ∈ g.productions,
          v ∈ p.right.toList ∨ v ∈ p.left.toList := by
  simp only [«variables», mem_firstSeen_iff, List.mem_flatMap,
    Production.variables, Production.variablesRight,
    Production.variablesLeft, List.mem_append, List.mem_filter,
    ← or_and_right]
  constructor
  · rintro ⟨p, hp, hSide, hv⟩
    exact ⟨hv, p, hp, hSide⟩
  · rintro ⟨hv, p, hp, hSide⟩
    exact ⟨p, hp, hSide, hv⟩

/- Every variable of a grammar is listed once. -/
theorem nodup_variables
    (g : Grammar)
    (k : Classifier) :
    (g.variables k).Nodup :=
  nodup_firstSeen _

end Grammar

------------------------------------------------------------
-- Mentions
------------------------------------------------------------

/-
  The pairs of variables that a production links: its left
  side, when that is one variable alone, with each variable
  of its right side in its place.
-/
def Production.mentions
    (p : Production)
    (k : Classifier) : List (Char × Char) :=
  match (soleChar? p.left).filter k.isVariable with
  | none => []
  | some v => (p.variablesRight k).map fun w => (v, w)

/- One variable is linked to another if it mentions it. -/
theorem Production.mem_mentions_iff
    (p : Production)
    (k : Classifier)
    (v w : Char) :
    (v, w) ∈ p.mentions k ↔
      k.isVariable v = true ∧ k.isVariable w = true ∧
        p.left = String.singleton v ∧ w ∈ p.right.toList := by
  rw [← soleChar?_eq_some_iff]
  unfold mentions
  cases hLeft : (soleChar? p.left).filter k.isVariable with
  | none =>
      rw [Option.filter_eq_none_iff] at hLeft
      simp only [List.not_mem_nil, false_iff]
      rintro ⟨hv, _, hSole, _⟩
      exact hLeft v hSole hv
  | some u =>
      rw [Option.filter_eq_some_iff] at hLeft
      simp only [List.mem_map, Prod.mk.injEq, variablesRight,
        List.mem_filter, hLeft.1, Option.some.injEq]
      constructor
      · rintro ⟨_, ⟨hw, hVariable⟩, rfl, rfl⟩
        exact ⟨hLeft.2, hVariable, rfl, hw⟩
      · rintro ⟨_, hVariable, rfl, hw⟩
        exact ⟨w, ⟨hw, hVariable⟩, rfl, rfl⟩

namespace Grammar

/-
  The pairs of variables that the productions link, in the
  order in which they are written.
-/
def mentions
    (g : Grammar)
    (k : Classifier) : List (Char × Char) :=
  g.productions.flatMap fun p => p.mentions k

/- A pair is mentioned if some production links it. -/
theorem mem_mentions_iff
    (g : Grammar)
    (k : Classifier)
    (v w : Char) :
    (v, w) ∈ g.mentions k ↔
      k.isVariable v = true ∧ k.isVariable w = true ∧
        ∃ p ∈ g.productions,
          p.left = String.singleton v ∧
            w ∈ p.right.toList := by
  simp only [mentions, List.mem_flatMap,
    Production.mem_mentions_iff]
  constructor
  · rintro ⟨p, hp, hv, hw, hLinks⟩
    exact ⟨hv, hw, p, hp, hLinks⟩
  · rintro ⟨hv, hw, p, hp, hLinks⟩
    exact ⟨p, hp, hv, hw, hLinks⟩

/- Only variables of the grammar are mentioned. -/
theorem mem_variables_of_mem_mentions
    {p : Production}
    {g : Grammar}
    {k : Classifier}
    (hp : p ∈ g.productions)
    {e : Char × Char}
    (he : e ∈ p.mentions k) :
    e.1 ∈ g.variables k ∧ e.2 ∈ g.variables k := by
  rcases (p.mem_mentions_iff k e.1 e.2).mp he with
    ⟨hv, hw, hLeft, hRight⟩
  rw [mem_variables_iff, mem_variables_iff]
  refine ⟨⟨hv, p, hp, Or.inr ?_⟩, hw, p, hp, Or.inl hRight⟩
  simp [hLeft]

------------------------------------------------------------
-- Graphs over Variables
------------------------------------------------------------

/- The id of a variable is its place among the variables. -/
def idOf (vs : List Char) (v : Char) : StateId :=
  ⟨UInt32.ofNat (vs.idxOf v)⟩

/- The states of variables, numbered in their order. -/
def statesOf (vs : List Char) : List State :=
  vs.mapIdx fun n v =>
    { id := ⟨UInt32.ofNat n⟩, name := String.singleton v }

/- The edge of a pair of variables. -/
def edge (vs : List Char) (e : Char × Char) : Transition :=
  ⟨idOf vs e.1, idOf vs e.2, .dependency⟩

/- The graph with some variables and the edges of some pairs. -/
def graphOver
    (vs : List Char)
    (es : List (Char × Char)) : DependencyGraph where
  automaton :=
    { kind := .dependency
      states := statesOf vs
      transitions := es.map (edge vs) }
  kind_eq := rfl

/- One more variable has the next number. -/
theorem statesOf_append
    (vs : List Char)
    (v : Char) :
    statesOf (vs ++ [v]) =
      statesOf vs ++
        [{ id := ⟨UInt32.ofNat vs.length⟩
           name := String.singleton v }] := by
  simp [statesOf, List.mapIdx_append]

/- The names of the states are the variables. -/
theorem name_statesOf
    (vs : List Char) :
    (statesOf vs).map State.name =
      vs.map String.singleton := by
  induction vs using List.reverseRecOn with
  | nil => rfl
  | append_singleton vs v ih =>
      rw [statesOf_append, List.map_append, ih,
        List.map_append]
      rfl

/- The numbers of the states count up from zero. -/
theorem key_statesOf
    {vs : List Char}
    (hvs : vs.length ≤ Numeral.limit) :
    (statesOf vs).map (fun s => s.id.key) =
      List.range vs.length := by
  induction vs using List.reverseRecOn with
  | nil => rfl
  | append_singleton vs v ih =>
      rw [List.length_append, List.length_singleton] at hvs
      have hKey := Automaton.key_ofNat (n := vs.length) hvs
      rw [statesOf_append, List.map_append,
        ih (Nat.le_of_succ_le hvs), List.length_append,
        List.length_singleton, List.range_succ]
      simp [hKey]

/- The first state with the name of a variable has its id. -/
theorem find?_statesOf
    (vs : List Char)
    (v : Char) :
    ((statesOf vs).find? fun s =>
        s.name = String.singleton v).map State.id =
      if v ∈ vs then some (idOf vs v) else none := by
  induction vs using List.reverseRecOn with
  | nil => rfl
  | append_singleton vs u ih =>
      rw [statesOf_append, List.find?_append, Option.map_or, ih]
      have hName :
          String.singleton u = String.singleton v ↔ u = v := by
        rw [← String.toList_inj, String.toList_singleton,
          String.toList_singleton, List.singleton_inj]
      by_cases hOld : v ∈ vs
      · simp [hOld, idOf, List.idxOf_append]
      · by_cases hNew : u = v
        · subst hNew
          simp [hOld, idOf, List.idxOf_append]
        · simp [hOld, hName, hNew, ne_comm.mp hNew]

/- A graph finds the state of a variable under its id. -/
theorem stateOf?_graphOver
    (vs : List Char)
    (es : List (Char × Char))
    (v : Char) :
    (graphOver vs es).stateOf? v =
      if v ∈ vs then some (idOf vs v) else none :=
  find?_statesOf vs v

/- The id of a variable is the id of a state. -/
theorem idOf_mem_ids
    {vs : List Char}
    (es : List (Char × Char))
    {v : Char}
    (hv : v ∈ vs) :
    idOf vs v ∈ (graphOver vs es).automaton.ids := by
  have hFound := find?_statesOf vs v
  rw [if_pos hv, Option.map_eq_some_iff] at hFound
  rcases hFound with ⟨s, hState, hId⟩
  rw [← hId]
  exact List.mem_map_of_mem (List.mem_of_find?_eq_some hState)

/- The number of the id of a variable is its place. -/
theorem key_idOf
    {vs : List Char}
    (hvs : vs.length ≤ Numeral.limit)
    {v : Char}
    (hv : v ∈ vs) :
    (idOf vs v).key = vs.idxOf v :=
  Automaton.key_ofNat
    (Nat.lt_of_lt_of_le (List.idxOf_lt_length_of_mem hv) hvs)

/- Different variables have different ids. -/
theorem idOf_inj
    {vs : List Char}
    (hvs : vs.length ≤ Numeral.limit)
    {v w : Char}
    (hv : v ∈ vs)
    (hw : w ∈ vs) :
    idOf vs v = idOf vs w ↔ v = w := by
  constructor
  · intro hSame
    have hKey := congrArg StateId.key hSame
    rw [key_idOf hvs hv, key_idOf hvs hw] at hKey
    exact (List.idxOf_inj hv).mp hKey
  · exact congrArg (idOf vs)

/- The edges from one state to another are those of the pair. -/
theorem between_graphOver
    {vs : List Char}
    (hvs : vs.length ≤ Numeral.limit)
    {es : List (Char × Char)}
    (hes : ∀ e ∈ es, e.1 ∈ vs ∧ e.2 ∈ vs)
    {v w : Char}
    (hv : v ∈ vs)
    (hw : w ∈ vs) :
    (graphOver vs es).automaton.between
        (idOf vs v) (idOf vs w) =
      (es.filter fun e => e = (v, w)).map (edge vs) := by
  rw [Automaton.between, graphOver, List.filter_map]
  congr 1
  apply List.filter_congr
  rintro ⟨u, x⟩ he
  rcases hes _ he with ⟨hu, hx⟩
  simp [edge, idOf_inj hvs hu hv, idOf_inj hvs hx hw]

/- There is an edge exactly for the pairs of the graph. -/
theorem between_graphOver_eq_nil_iff
    {vs : List Char}
    (hvs : vs.length ≤ Numeral.limit)
    {es : List (Char × Char)}
    (hes : ∀ e ∈ es, e.1 ∈ vs ∧ e.2 ∈ vs)
    {v w : Char}
    (hv : v ∈ vs)
    (hw : w ∈ vs) :
    (graphOver vs es).automaton.between
        (idOf vs v) (idOf vs w) = [] ↔
      (v, w) ∉ es := by
  rw [between_graphOver hvs hes hv hw, List.map_eq_nil_iff,
    List.filter_eq_nil_iff]
  constructor
  · intro h hMem
    exact h (v, w) hMem (by simp)
  · intro h e he hEq
    rw [of_decide_eq_true hEq] at he
    exact h he

------------------------------------------------------------
-- Adding Variables
------------------------------------------------------------

/- The free id of a graph over variables is their number. -/
theorem freshId?_graphOver
    {vs : List Char}
    (hvs : vs.length < Numeral.limit)
    (es : List (Char × Char)) :
    (graphOver vs es).automaton.freshId? =
      some ⟨UInt32.ofNat vs.length⟩ := by
  have hMax :
      Automaton.maxKey? (graphOver vs es).automaton.ids =
        (List.range vs.length).max? := by
    rw [← key_statesOf (Nat.le_of_lt hvs), Automaton.maxKey?,
      Automaton.ids, List.map_map]
    rfl
  rw [Automaton.freshId?, hMax]
  cases hLength : vs.length with
  | zero => rfl
  | succ n =>
      have hLast : (List.range (n + 1)).max? = some n := by
        rw [List.max?_eq_some_iff]
        refine ⟨List.self_mem_range_succ, ?_⟩
        intro m hm
        exact Nat.le_of_lt_succ (List.mem_range.mp hm)
      rw [hLength] at hvs
      simp only [hLast, if_pos hvs]

/- A new variable is the last one. -/
theorem addVariable_graphOver
    {vs : List Char}
    (hvs : vs.length < Numeral.limit)
    {v : Char}
    (hv : v ∉ vs) :
    (graphOver vs []).addVariable v =
      .ok (⟨UInt32.ofNat vs.length⟩,
        graphOver (vs ++ [v]) []) := by
  rw [DependencyGraph.addVariable, stateOf?_graphOver,
    if_neg hv, freshId?_graphOver hvs]
  simp [graphOver, statesOf_append]

/- Variables are added in their order. -/
theorem addVariables_graphOver
    (vs rest : List Char)
    (hNodup : (vs ++ rest).Nodup) :
    rest.foldlM
        (fun d v => (d.addVariable v).map Prod.snd)
        (graphOver vs []) =
      .ok (graphOver (vs ++ rest) []) := by
  induction rest generalizing vs with
  | nil =>
      rw [List.append_nil]
      rfl
  | cons v rest ih =>
      have hSplit : vs ++ v :: rest = vs ++ [v] ++ rest := by
        simp
      have hLength :=
        length_lt_limit_of_nodup hNodup.of_append_left
      have hNew : v ∉ vs := by
        intro hv
        exact (List.nodup_append.mp hNodup).2.2 v hv v
          (List.mem_cons_self ..) rfl
      rw [hSplit] at hNodup ⊢
      rw [List.foldlM_cons, addVariable_graphOver hLength hNew]
      exact ih (vs ++ [v]) hNodup

------------------------------------------------------------
-- Adding Edges
------------------------------------------------------------

/- One more member stays out if it was there before. -/
theorem eraseDups_append_singleton
    (es : List (Char × Char))
    (e : Char × Char) :
    (es ++ [e]).eraseDups =
      if e ∈ es then es.eraseDups else es.eraseDups ++ [e] := by
  rw [List.eraseDups_append]
  by_cases he : e ∈ es <;>
    simp [List.removeAll, List.eraseDups_cons, he]

variable {vs : List Char}

/- Every pair of variables gives one more edge. -/
theorem addDependency_graphOver
    (es : List (Char × Char))
    {v w : Char}
    (hv : v ∈ vs)
    (hw : w ∈ vs) :
    (graphOver vs es).addDependency (idOf vs v) (idOf vs w) =
      .ok (graphOver vs (es ++ [(v, w)])) := by
  have hAdd :
      (graphOver vs es).automaton.addTransition
          (edge vs (v, w)) =
        .ok (graphOver vs (es ++ [(v, w)])).automaton := by
    rw [Automaton.addTransition_eq_ok_iff]
    exact ⟨rfl, idOf_mem_ids es hv, idOf_mem_ids es hw,
      by simp [graphOver]⟩
  unfold DependencyGraph.addDependency
  split
  · rename_i a h
    cases hAdd.symm.trans h
    rfl
  · rename_i f h
    cases hAdd.symm.trans h

/- Linking two variables adds their pair to those before. -/
theorem linkTo_graphOver
    (hvs : vs.length ≤ Numeral.limit)
    {done : List (Char × Char)}
    (hDone : ∀ e ∈ done, e.1 ∈ vs ∧ e.2 ∈ vs)
    {v w : Char}
    (hv : v ∈ vs)
    (hw : w ∈ vs) :
    linkTo (idOf vs v) (graphOver vs done.eraseDups) w =
      .ok (graphOver vs (done ++ [(v, w)]).eraseDups) := by
  have hPairs :
      ∀ e ∈ done.eraseDups, e.1 ∈ vs ∧ e.2 ∈ vs :=
    fun e he => hDone e (List.mem_eraseDups.mp he)
  have hNone :=
    between_graphOver_eq_nil_iff hvs hPairs hv hw
  rw [List.mem_eraseDups] at hNone
  rw [linkTo, stateOf?_graphOver, if_pos hw,
    eraseDups_append_singleton]
  by_cases hOld : (v, w) ∈ done
  · simp only [hNone, hOld, not_true_eq_false, if_false,
      if_true]
  · simp only [hNone, hOld, not_false_eq_true, if_true,
      if_false, addDependency_graphOver _ hv hw]

/- Linking a variable to others adds their pairs in order. -/
theorem linkAll_graphOver
    (hvs : vs.length ≤ Numeral.limit)
    {done : List (Char × Char)}
    (hDone : ∀ e ∈ done, e.1 ∈ vs ∧ e.2 ∈ vs)
    {v : Char}
    (hv : v ∈ vs)
    {ws : List Char}
    (hws : ∀ w ∈ ws, w ∈ vs) :
    ws.foldlM (linkTo (idOf vs v))
        (graphOver vs done.eraseDups) =
      .ok (graphOver vs
        (done ++ ws.map fun w => (v, w)).eraseDups) := by
  induction ws generalizing done with
  | nil =>
      rw [List.map_nil, List.append_nil]
      rfl
  | cons w ws ih =>
      rw [List.forall_mem_cons] at hws
      have hNext :
          ∀ e ∈ done ++ [(v, w)], e.1 ∈ vs ∧ e.2 ∈ vs := by
        intro e he
        rcases List.mem_append.mp he with he | he
        · exact hDone e he
        · rw [List.mem_singleton.mp he]
          exact ⟨hv, hws.1⟩
      have hSplit :
          done ++ (w :: ws).map (fun w => (v, w)) =
            done ++ [(v, w)] ++ ws.map fun w => (v, w) := by
        simp
      rw [List.foldlM_cons,
        linkTo_graphOver hvs hDone hv hws.1, hSplit]
      exact ih hNext hws.2

section Productions

variable {g : Grammar}
variable {k : Classifier}

/- There are fewer variables than ids. -/
theorem length_variables_le
    (g : Grammar)
    (k : Classifier) :
    (g.variables k).length ≤ Numeral.limit :=
  Nat.le_of_lt (length_lt_limit_of_nodup (g.nodup_variables k))

/- A production adds the pairs that it mentions. -/
theorem linkProduction_graphOver
    {done : List (Char × Char)}
    (hDone :
      ∀ e ∈ done,
        e.1 ∈ g.variables k ∧ e.2 ∈ g.variables k)
    {p : Production}
    (hp : p ∈ g.productions) :
    linkProduction k
        (graphOver (g.variables k) done.eraseDups) p =
      .ok (graphOver (g.variables k)
        (done ++ p.mentions k).eraseDups) := by
  have hSource :
      (soleChar? p.left).bind
          (graphOver (g.variables k) done.eraseDups).stateOf? =
        ((soleChar? p.left).filter k.isVariable).map
          (idOf (g.variables k)) := by
    cases hSole : soleChar? p.left with
    | none => rfl
    | some v =>
        have hMem :
            v ∈ g.variables k ↔ k.isVariable v = true := by
          rw [mem_variables_iff, soleChar?_eq_some_iff] at *
          refine ⟨And.left, fun hv => ⟨hv, p, hp, Or.inr ?_⟩⟩
          simp [hSole]
        rw [Option.bind_some, stateOf?_graphOver]
        by_cases hv : k.isVariable v = true <;>
          simp [Option.filter, hMem, hv]
  rw [linkProduction, hSource, Production.mentions]
  cases hLeft : (soleChar? p.left).filter k.isVariable with
  | none => simp
  | some v =>
      rw [Option.filter_eq_some_iff, soleChar?_eq_some_iff]
        at hLeft
      have hv : v ∈ g.variables k := by
        rw [mem_variables_iff]
        refine ⟨hLeft.2, p, hp, Or.inr ?_⟩
        simp [hLeft.1]
      have hws :
          ∀ w ∈ p.variablesRight k, w ∈ g.variables k := by
        intro w hw
        rcases List.mem_filter.mp hw with ⟨hRight, hVariable⟩
        rw [mem_variables_iff]
        exact ⟨hVariable, p, hp, Or.inl hRight⟩
      exact linkAll_graphOver (g.length_variables_le k) hDone
        hv hws

/- Productions add the pairs that they mention, in order. -/
theorem linkProductions_graphOver
    (done : List (Char × Char))
    (hDone :
      ∀ e ∈ done,
        e.1 ∈ g.variables k ∧ e.2 ∈ g.variables k)
    {ps : List Production}
    (hps : ∀ p ∈ ps, p ∈ g.productions) :
    ps.foldlM (linkProduction k)
        (graphOver (g.variables k) done.eraseDups) =
      .ok (graphOver (g.variables k)
        (done ++ ps.flatMap fun p => p.mentions k).eraseDups) := by
  induction ps generalizing done with
  | nil =>
      rw [List.flatMap_nil, List.append_nil]
      rfl
  | cons p ps ih =>
      rw [List.forall_mem_cons] at hps
      have hNext :
          ∀ e ∈ done ++ p.mentions k,
            e.1 ∈ g.variables k ∧ e.2 ∈ g.variables k := by
        intro e he
        rcases List.mem_append.mp he with he | he
        · exact hDone e he
        · exact mem_variables_of_mem_mentions hps.1 he
      rw [List.foldlM_cons,
        linkProduction_graphOver hDone hps.1,
        List.flatMap_cons, ← List.append_assoc]
      exact ih _ hNext hps.2

end Productions

/-
  The dependency graph has the variables as states and what
  is mentioned as edges, each pair once.
-/
theorem dependencyGraph_eq_graphOver
    (g : Grammar)
    (k : Classifier) :
    g.dependencyGraph k =
      .ok (graphOver (g.variables k)
        (g.mentions k).eraseDups) := by
  have hStates :
      (g.variables k).foldlM
          (fun d v => (d.addVariable v).map Prod.snd)
          DependencyGraph.empty =
        .ok (graphOver (g.variables k) []) :=
    addVariables_graphOver [] (g.variables k)
      (g.nodup_variables k)
  have hEdges :
      g.productions.foldlM (linkProduction k)
          (graphOver (g.variables k) []) =
        .ok (graphOver (g.variables k)
          (g.mentions k).eraseDups) :=
    linkProductions_graphOver [] (by simp) fun p hp => hp
  rw [dependencyGraph, hStates]
  exact hEdges

------------------------------------------------------------
-- The Graph of What is Mentioned
------------------------------------------------------------

/- Members that are listed once stay apart. -/
theorem nodup_eraseDups
    (es : List (Char × Char)) :
    es.eraseDups.Nodup := by
  induction es using List.reverseRecOn with
  | nil => simp
  | append_singleton es e ih =>
      rw [eraseDups_append_singleton]
      split
      · exact ih
      · rename_i he
        rw [← List.concat_eq_append, List.nodup_concat,
          List.mem_eraseDups]
        exact ⟨he, ih⟩

/-
  A grammar always has a dependency graph.  Its states are
  the variables in their order, each with its place as id and
  its character as name.  An edge joins two variables exactly
  if some production has the first one alone as its left side
  and the second one in its right side, and then just one
  does.  There are no other edges and no marks, and the edges
  stand in the order of their first mentions.
-/
theorem dependencyGraph_of_mentions
    (g : Grammar)
    (k : Classifier) :
    ∃ d,
      g.dependencyGraph k = .ok d ∧
        d.automaton.states.map State.name =
          (g.variables k).map String.singleton ∧
        d.automaton.ids.map StateId.key =
          List.range (g.variables k).length ∧
        (∀ n v, (g.variables k)[n]? = some v →
          (d.stateOf? v).map StateId.key = some n) ∧
        (∀ v ∈ g.variables k, ∀ w ∈ g.variables k, ∃ i j,
          d.stateOf? v = some i ∧ d.stateOf? w = some j ∧
            (d.automaton.between i j).length ≤ 1 ∧
            (d.automaton.between i j ≠ [] ↔
              ∃ p ∈ g.productions,
                p.left = String.singleton v ∧
                  w ∈ p.right.toList)) ∧
        (∀ t ∈ d.automaton.transitions,
          t.label = .dependency ∧
            ∃ v ∈ g.variables k, ∃ w ∈ g.variables k,
              d.stateOf? v = some t.source ∧
                d.stateOf? w = some t.target) ∧
        d.automaton.initial = none ∧
        d.automaton.finals = .empty ∧
        List.Forall₂
          (fun t e =>
            d.stateOf? e.1 = some t.source ∧
              d.stateOf? e.2 = some t.target)
          d.automaton.transitions
          (g.mentions k).eraseDups := by
  have hLimit := g.length_variables_le k
  have hMentioned :
      ∀ e ∈ (g.mentions k).eraseDups,
        e.1 ∈ g.variables k ∧ e.2 ∈ g.variables k := by
    intro e he
    rcases List.mem_flatMap.mp (List.mem_eraseDups.mp he) with
      ⟨p, hp, he⟩
    exact mem_variables_of_mem_mentions hp he
  have hState :
      ∀ v ∈ g.variables k,
        (graphOver (g.variables k)
            (g.mentions k).eraseDups).stateOf? v =
          some (idOf (g.variables k) v) := by
    intro v hv
    rw [stateOf?_graphOver, if_pos hv]
  refine ⟨_, g.dependencyGraph_eq_graphOver k,
    name_statesOf _, ?_, ?_, ?_, ?_, rfl, rfl, ?_⟩
  · rw [Automaton.ids, List.map_map]
    exact key_statesOf hLimit
  · intro n v hv
    rcases List.getElem?_eq_some_iff.mp hv with ⟨hn, rfl⟩
    have hMem := List.getElem_mem hn
    rw [hState _ hMem, Option.map_some, key_idOf hLimit hMem,
      (g.nodup_variables k).idxOf_getElem]
  · intro v hv w hw
    refine ⟨_, _, hState v hv, hState w hw, ?_, ?_⟩
    · rw [between_graphOver hLimit hMentioned hv hw,
        List.length_map, List.filter_eq, List.length_replicate]
      exact List.nodup_iff_count.mp (nodup_eraseDups _) _
    · have hVariable :
          ∀ u ∈ g.variables k, k.isVariable u = true :=
        fun u hu => ((g.mem_variables_iff k u).mp hu).1
      rw [ne_eq,
        between_graphOver_eq_nil_iff hLimit hMentioned hv hw,
        not_not, List.mem_eraseDups, mem_mentions_iff]
      simp [hVariable v hv, hVariable w hw]
  · intro t ht
    rcases List.mem_map.mp ht with ⟨e, he, rfl⟩
    rcases hMentioned e he with ⟨hv, hw⟩
    exact
      ⟨rfl, e.1, hv, e.2, hw, hState _ hv, hState _ hw⟩
  · apply List.forall₂_map_left_iff.mpr
    rw [List.forall₂_same]
    intro e he
    rcases hMentioned e he with ⟨hv, hw⟩
    exact ⟨hState _ hv, hState _ hw⟩

end Grammar

end AutomataStore
