import AutomataStore.Proofs.GrammarGraphs

/-
  The symbols of a grammar, in the order they are met.

  Listing the symbols of each production and then those of
  all productions gives what one pass over the whole grammar
  gives.  A pass over more goes on from what it has listed,
  so productions that are added change neither the symbols
  listed before them nor the states and edges that stand for
  them in the dependency graph.

  Key definitions include:
    * `Grammar.written`
    * `ListsFirst`

  Main declarations:
    * `firstSeen_append`
    * `listsFirst_iff`
    * `Grammar.variables_eq_firstSeen`
    * `Grammar.graphOver_prefix_graphOver`
    * `Grammar.symbols_of_occurrence`
-/

------------------------------------------------------------
-- First Occurrences
------------------------------------------------------------

namespace AutomataStore

/- Leaving characters out before or after makes no difference. -/
theorem filter_firstSeen
    (p : Char → Bool)
    (cs : List Char) :
    (firstSeen cs).filter p = firstSeen (cs.filter p) := by
  induction cs with
  | nil => rfl
  | cons c cs ih =>
      have hSwap :
          ((firstSeen cs).filter fun d => d ≠ c).filter p =
            (firstSeen (cs.filter p)).filter
              fun d => d ≠ c := by
        rw [← ih, List.filter_filter, List.filter_filter]
        apply List.filter_congr
        intro d _
        exact Bool.and_comm ..
      by_cases hc : p c = true
      · rw [firstSeen, List.filter_cons_of_pos hc,
          List.filter_cons_of_pos hc, firstSeen, hSwap]
      · rw [firstSeen, List.filter_cons_of_neg hc,
          List.filter_cons_of_neg hc, hSwap,
          List.filter_eq_self]
        intro d hd
        have hKept :=
          List.of_mem_filter ((mem_firstSeen_iff d _).mp hd)
        apply decide_eq_true
        rintro rfl
        exact hc hKept

/- A pass over more text adds what it has not met before. -/
theorem firstSeen_append
    (cs ds : List Char) :
    firstSeen (cs ++ ds) =
      firstSeen cs ++
        (firstSeen ds).filter fun d => d ∉ cs := by
  induction cs with
  | nil => simp [firstSeen]
  | cons c cs ih =>
      rw [List.cons_append, firstSeen, ih, firstSeen,
        List.filter_append, List.filter_filter,
        List.cons_append]
      congr 2
      apply List.filter_congr
      intro d _
      simp [List.mem_cons]

/- A list without repetition is met as it stands. -/
theorem firstSeen_of_nodup
    {cs : List Char}
    (hcs : cs.Nodup) :
    firstSeen cs = cs := by
  induction cs with
  | nil => rfl
  | cons c cs ih =>
      rw [List.nodup_cons] at hcs
      rw [firstSeen, ih hcs.2, List.filter_eq_self.mpr]
      intro d hd
      apply decide_eq_true
      rintro rfl
      exact hcs.1 hd

/- A part may be passed over on its own beforehand. -/
theorem firstSeen_firstSeen_append
    (cs ds : List Char) :
    firstSeen (firstSeen cs ++ ds) = firstSeen (cs ++ ds) := by
  rw [firstSeen_append, firstSeen_append,
    firstSeen_of_nodup (nodup_firstSeen cs)]
  simp only [mem_firstSeen_iff]

/- What comes behind may be passed over beforehand as well. -/
theorem firstSeen_append_firstSeen
    (cs ds : List Char) :
    firstSeen (cs ++ firstSeen ds) = firstSeen (cs ++ ds) := by
  rw [firstSeen_append, firstSeen_append,
    firstSeen_of_nodup (nodup_firstSeen ds)]

/- Passing over each part and then over all is one pass. -/
theorem firstSeen_flatMap
    {α : Type}
    (f : α → List Char)
    (l : List α) :
    firstSeen (l.flatMap fun a => firstSeen (f a)) =
      firstSeen (l.flatMap f) := by
  induction l with
  | nil => rfl
  | cons a l ih =>
      rw [List.flatMap_cons, List.flatMap_cons,
        firstSeen_firstSeen_append,
        ← firstSeen_append_firstSeen, ih,
        firstSeen_append_firstSeen]

/- What was listed stays in front when text is added. -/
theorem firstSeen_prefix_append
    (cs ds : List Char) :
    firstSeen cs <+: firstSeen (cs ++ ds) := by
  rw [firstSeen_append]
  exact List.prefix_append ..

/-
  A list of the characters of a class that a text contains,
  each one once, in the order of their first places.
-/
structure ListsFirst
    (p : Char → Bool)
    (text listed : List Char) : Prop where
  nodup : listed.Nodup
  mem_iff : ∀ c, c ∈ listed ↔ p c = true ∧ c ∈ text
  ordered : Increasing text.idxOf listed

/- A pass meets characters in the order of their first places. -/
theorem increasing_firstSeen
    (cs : List Char) :
    Increasing cs.idxOf (firstSeen cs) := by
  induction cs with
  | nil => exact List.Pairwise.nil
  | cons c cs ih =>
      rw [firstSeen, Increasing, List.pairwise_cons]
      have hFirst : (c :: cs).idxOf c = 0 :=
        List.idxOf_cons_self
      have hLater :
          ∀ d, d ≠ c →
            (c :: cs).idxOf d = cs.idxOf d + 1 :=
        fun d hd => List.idxOf_cons_ne _ (Ne.symm hd)
      have hOther :
          ∀ d ∈ (firstSeen cs).filter (fun d => d ≠ c),
            d ≠ c :=
        fun d hd => of_decide_eq_true (List.mem_filter.mp hd).2
      constructor
      · intro d hd
        rw [hFirst, hLater d (hOther d hd)]
        exact Nat.succ_pos _
      · apply List.Pairwise.imp_of_mem _ (ih.filter _)
        intro d e hd he hLt
        rw [hLater d (hOther d hd), hLater e (hOther e he)]
        exact Nat.succ_lt_succ hLt

/- One pass lists the characters of a class. -/
theorem listsFirst_firstSeen
    (p : Char → Bool)
    (text : List Char) :
    ListsFirst p text (firstSeen (text.filter p)) where
  nodup := nodup_firstSeen _
  mem_iff c := by
    rw [mem_firstSeen_iff, List.mem_filter, and_comm]
  ordered := by
    rw [← filter_firstSeen]
    exact (increasing_firstSeen text).filter p

/- No other list does so. -/
theorem listsFirst_iff
    (p : Char → Bool)
    (text listed : List Char) :
    ListsFirst p text listed ↔
      listed = firstSeen (text.filter p) := by
  have hPass := listsFirst_firstSeen p text
  constructor
  · intro hListed
    apply hListed.ordered.eq_of_mem_iff hPass.ordered
    intro c
    rw [hListed.mem_iff, hPass.mem_iff]
  · rintro rfl
    exact hPass

------------------------------------------------------------
-- Symbols of Productions
------------------------------------------------------------

namespace Production

/- Inserting characters one by one adds and sorts them. -/
theorem foldl_insertByKey
    (cs : List Char)
    {sorted : List Char}
    (hSorted : Increasing Char.toNat sorted) :
    Increasing Char.toNat
        (cs.foldl (fun l c => insertByKey Char.toNat c l)
          sorted) ∧
      ∀ c,
        c ∈ cs.foldl (fun l c => insertByKey Char.toNat c l)
            sorted ↔
          c ∈ sorted ∨ c ∈ cs := by
  induction cs generalizing sorted with
  | nil => simp [hSorted]
  | cons d cs ih =>
      have hKey :
          ∀ c d : Char, c.toNat = d.toNat → c = d :=
        fun _ _ => Char.toNat_inj.mp
      rcases ih (increasing_insertByKey hKey d hSorted) with
        ⟨hAll, hMem⟩
      refine ⟨hAll, fun c => ?_⟩
      rw [List.foldl_cons, hMem, mem_insertByKey_iff hKey,
        List.mem_cons, or_assoc, or_left_comm]

variable (p : Production)
variable (k : Classifier)

/- The variables of a production in one pass. -/
theorem variables_eq_firstSeen :
    p.variables k =
      firstSeen
        ((p.right.toList ++ p.left.toList).filter
          k.isVariable) := by
  rw [«variables», variablesRight, variablesLeft,
    List.filter_append]

/- The terminals of a production in one pass. -/
theorem terminals_eq_firstSeen :
    p.terminals k =
      firstSeen
        ((p.right.toList ++ p.left.toList).filter
          k.isTerminal) := by
  rw [terminals, terminalsRight, terminalsLeft,
    List.filter_append]

/-
  The symbols of a production are the variables and terminals
  of its sides, by code point.
-/
theorem sorted_symbols :
    Increasing Char.toNat (p.symbols k) ∧
      ∀ c,
        c ∈ p.symbols k ↔
          (c ∈ p.left.toList ∨ c ∈ p.right.toList) ∧
            (k.isVariable c = true ∨
              k.isTerminal c = true) := by
  have hFold :=
    foldl_insertByKey (p.variables k ++ p.terminals k)
      List.Pairwise.nil
  refine ⟨hFold.1, fun c => ?_⟩
  rw [symbols, hFold.2, List.mem_append,
    variables_eq_firstSeen, terminals_eq_firstSeen,
    mem_firstSeen_iff, mem_firstSeen_iff, List.mem_filter,
    List.mem_filter, ← and_or_left, List.mem_append,
    or_comm (b := c ∈ p.left.toList)]
  simp

end Production

------------------------------------------------------------
-- Symbols of Grammars
------------------------------------------------------------

namespace Grammar

/-
  What is written in a grammar: the right side and then the
  left side of every production.
-/
def written (g : Grammar) : List Char :=
  g.productions.flatMap fun p =>
    p.right.toList ++ p.left.toList

/- What is added to a grammar is written behind it. -/
theorem written_extend
    (g : Grammar)
    (ps : List Production) :
    (g.extend ps).written =
      g.written ++ (Grammar.mk ps).written := by
  simp [written, extend]

section Passes

variable (g : Grammar)
variable (k : Classifier)

/- The variables of a grammar in one pass. -/
theorem variables_eq_firstSeen :
    g.variables k =
      firstSeen (g.written.filter k.isVariable) := by
  simp only [«variables», Production.variables_eq_firstSeen,
    firstSeen_flatMap, written, List.filter_flatMap]

/- The terminals of a grammar in one pass. -/
theorem terminals_eq_firstSeen :
    g.terminals k =
      firstSeen (g.written.filter k.isTerminal) := by
  simp only [terminals, Production.terminals_eq_firstSeen,
    firstSeen_flatMap, written, List.filter_flatMap]

/- The variables stay in front when productions are added. -/
theorem variables_prefix_extend
    (ps : List Production) :
    g.variables k <+: (g.extend ps).variables k := by
  rw [variables_eq_firstSeen, variables_eq_firstSeen,
    written_extend, List.filter_append]
  exact firstSeen_prefix_append ..

/- The terminals stay in front when productions are added. -/
theorem terminals_prefix_extend
    (ps : List Production) :
    g.terminals k <+: (g.extend ps).terminals k := by
  rw [terminals_eq_firstSeen, terminals_eq_firstSeen,
    written_extend, List.filter_append]
  exact firstSeen_prefix_append ..

end Passes

------------------------------------------------------------
-- Growing Dependency Graphs
------------------------------------------------------------

/- More variables leave the states of those before alone. -/
theorem statesOf_prefix_statesOf
    {vs ws : List Char}
    (h : vs <+: ws) :
    statesOf vs <+: statesOf ws := by
  rcases h with ⟨more, rfl⟩
  rw [statesOf, statesOf, List.mapIdx_append]
  exact List.prefix_append ..

/- More variables leave the edges between those before alone. -/
theorem edge_of_prefix_of_mem
    {vs ws : List Char}
    (h : vs <+: ws)
    {e : Char × Char}
    (he : e.1 ∈ vs ∧ e.2 ∈ vs) :
    edge ws e = edge vs e := by
  rcases h with ⟨more, rfl⟩
  simp only [edge, idOf, List.idxOf_append, he.1, he.2,
    if_true]

/- Pairs that are added come behind those before. -/
theorem eraseDups_prefix_append
    (es more : List (Char × Char)) :
    es.eraseDups <+: (es ++ more).eraseDups := by
  rw [List.eraseDups_append]
  exact List.prefix_append ..

/- The graph over more variables and more pairs goes on. -/
theorem graphOver_prefix_graphOver
    {vs ws : List Char}
    (hvs : vs <+: ws)
    {es fs : List (Char × Char)}
    (hes : es <+: fs)
    (hMem : ∀ e ∈ es, e.1 ∈ vs ∧ e.2 ∈ vs) :
    (graphOver vs es).automaton.states <+:
        (graphOver ws fs).automaton.states ∧
      (graphOver vs es).automaton.transitions <+:
        (graphOver ws fs).automaton.transitions := by
  refine ⟨statesOf_prefix_statesOf hvs, ?_⟩
  have hEdges : es.map (edge vs) = es.map (edge ws) :=
    List.map_congr_left fun e he =>
      (edge_of_prefix_of_mem hvs (hMem e he)).symm
  change es.map (edge vs) <+: fs.map (edge ws)
  rw [hEdges]
  exact hes.map _

/-
  The variables and the terminals of a grammar are the lists
  of those characters in what is written in it, each one once
  and in the order of their first places.  Productions that
  are added leave both lists, and the states and edges of the
  dependency graph, as the beginning of what they become.
  The symbols of a production are the characters of its sides
  that are either, each one once, by code point.
-/
theorem symbols_of_occurrence
    (g : Grammar)
    (k : Classifier) :
    (∀ l,
        ListsFirst k.isVariable g.written l ↔
          l = g.variables k) ∧
      (∀ l,
        ListsFirst k.isTerminal g.written l ↔
          l = g.terminals k) ∧
      (∀ ps,
        g.variables k <+: (g.extend ps).variables k ∧
          g.terminals k <+: (g.extend ps).terminals k ∧
          ∃ d e,
            g.dependencyGraph k = .ok d ∧
              (g.extend ps).dependencyGraph k = .ok e ∧
              d.automaton.states <+: e.automaton.states ∧
              d.automaton.transitions <+:
                e.automaton.transitions) ∧
      ∀ p : Production,
        (p.symbols k).Pairwise (· < ·) ∧
          ∀ c,
            c ∈ p.symbols k ↔
              (c ∈ p.left.toList ∨ c ∈ p.right.toList) ∧
                (k.isVariable c = true ∨
                  k.isTerminal c = true) := by
  refine ⟨?_, ?_, ?_, ?_⟩
  · rw [variables_eq_firstSeen]
    exact fun l => listsFirst_iff _ _ l
  · rw [terminals_eq_firstSeen]
    exact fun l => listsFirst_iff _ _ l
  · intro ps
    have hVariables := g.variables_prefix_extend k ps
    have hMentions :
        (g.mentions k).eraseDups <+:
          ((g.extend ps).mentions k).eraseDups := by
      rw [mentions, mentions, extend, List.flatMap_append]
      exact eraseDups_prefix_append ..
    have hMem :
        ∀ e ∈ (g.mentions k).eraseDups,
          e.1 ∈ g.variables k ∧ e.2 ∈ g.variables k := by
      intro e he
      rcases List.mem_flatMap.mp (List.mem_eraseDups.mp he)
        with ⟨p, hp, he⟩
      exact mem_variables_of_mem_mentions hp he
    exact ⟨hVariables, g.terminals_prefix_extend k ps, _, _,
      g.dependencyGraph_eq_graphOver k,
      (g.extend ps).dependencyGraph_eq_graphOver k,
      graphOver_prefix_graphOver hVariables hMentions hMem⟩
  · exact fun p => p.sorted_symbols k

end Grammar

end AutomataStore
