/-
  Increasing lists.

  A list is increasing under a numeric key when each member
  has a smaller key than all members after it.  Insertion
  keeps it so and leaves a present member alone.

  Key definitions include:
    * `Increasing`
    * `insertByKey`

  Correctness is proven by:
    * `mem_insertByKey_iff`
    * `increasing_insertByKey`
    * `Increasing.eq_of_mem_iff`
-/

------------------------------------------------------------
-- Insertion
------------------------------------------------------------

namespace AutomataStore

variable {α : Type}

/- Every member has a smaller key than those after it. -/
def Increasing (key : α → Nat) (l : List α) : Prop :=
  l.Pairwise fun a b => key a < key b

/- Insert a member where its key belongs. -/
def insertByKey
    (key : α → Nat)
    (a : α) : List α → List α
  | [] => [a]
  | b :: l =>
      if key a < key b then
        a :: b :: l
      else if key a = key b then
        b :: l
      else
        b :: insertByKey key a l

/- The members after an insertion. -/
theorem mem_insertByKey_iff
    {key : α → Nat}
    (hKey : ∀ a b, key a = key b → a = b)
    (a x : α)
    (l : List α) :
    x ∈ insertByKey key a l ↔ x = a ∨ x ∈ l := by
  induction l with
  | nil => simp [insertByKey]
  | cons b l ih =>
      simp only [insertByKey]
      split
      · simp
      · split
        · rename_i hEq
          have hab := hKey a b hEq
          subst hab
          simp
        · simp only [List.mem_cons, ih]
          exact or_left_comm

/- Insertion keeps a list increasing. -/
theorem increasing_insertByKey
    {key : α → Nat}
    (hKey : ∀ a b, key a = key b → a = b)
    (a : α)
    {l : List α}
    (hl : Increasing key l) :
    Increasing key (insertByKey key a l) := by
  induction l with
  | nil => simp [insertByKey, Increasing]
  | cons b l ih =>
      have hTail := List.pairwise_cons.mp hl
      simp only [insertByKey]
      split
      · rename_i hLt
        apply List.pairwise_cons.mpr
        refine ⟨?_, hl⟩
        intro x hx
        rcases List.mem_cons.mp hx with hx | hx
        · rw [hx]
          exact hLt
        · exact Nat.lt_trans hLt (hTail.1 x hx)
      · split
        · exact hl
        · apply List.pairwise_cons.mpr
          refine ⟨?_, ih hTail.2⟩
          intro x hx
          rcases (mem_insertByKey_iff hKey a x l).mp hx with
            hx | hx
          · rw [hx]
            omega
          · exact hTail.1 x hx

/- Increasing lists with the same members are equal. -/
theorem Increasing.eq_of_mem_iff
    {key : α → Nat}
    {l m : List α}
    (hl : Increasing key l)
    (hm : Increasing key m)
    (hMem : ∀ x, x ∈ l ↔ x ∈ m) :
    l = m := by
  induction l generalizing m with
  | nil =>
      cases m with
      | nil => rfl
      | cons b m =>
          have hHead := (hMem b).mpr (List.mem_cons_self ..)
          simp at hHead
  | cons a l ih =>
      cases m with
      | nil =>
          have hNil := (hMem a).mp (List.mem_cons_self ..)
          simp at hNil
      | cons b m =>
          have hl' := List.pairwise_cons.mp hl
          have hm' := List.pairwise_cons.mp hm
          have hab : a = b := by
            rcases List.mem_cons.mp
              ((hMem a).mp (List.mem_cons_self ..)) with
              h | h
            · exact h
            rcases List.mem_cons.mp
              ((hMem b).mpr (List.mem_cons_self ..)) with
              h' | h'
            · exact h'.symm
            have hLt := hl'.1 b h'
            have hGt := hm'.1 a h
            omega
          subst hab
          congr 1
          apply ih hl'.2 hm'.2
          intro x
          constructor
          · intro hx
            rcases List.mem_cons.mp
              ((hMem x).mp (List.mem_cons_of_mem _ hx)) with
              h | h
            · have hLt := hl'.1 x hx
              rw [h] at hLt
              omega
            · exact h
          · intro hx
            rcases List.mem_cons.mp
              ((hMem x).mpr (List.mem_cons_of_mem _ hx)) with
              h | h
            · have hLt := hm'.1 x hx
              rw [h] at hLt
              omega
            · exact h

end AutomataStore
