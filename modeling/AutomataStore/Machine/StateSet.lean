import AutomataStore.Order.Increasing
import AutomataStore.Text.Numeral

/-
  State ids and finite sets of them.

  A state is named by a 32-bit number.  A set of ids is the
  increasing list of its members, so that equal sets are
  equal lists.

  Key definitions include:
    * `StateId`, `StateId.display`
    * `StateSet`
    * `StateSet.insert`, `StateSet.erase`, `StateSet.union`

  Correctness is proven by:
    * `StateSet.mem_insert_iff`
    * `StateSet.mem_erase_iff`
    * `StateSet.mem_union_iff`
    * `StateSet.mem_ofList_iff`
    * `StateSet.ext`
-/

------------------------------------------------------------
-- Ids
------------------------------------------------------------

namespace AutomataStore

structure StateId where
  number : UInt32
deriving DecidableEq, Inhabited, Repr

namespace StateId

/- The place of an id among all ids. -/
def key (i : StateId) : Nat :=
  i.number.toNat

/- Ids with the same place are equal. -/
theorem eq_of_key_eq
    (i j : StateId)
    (h : i.key = j.key) :
    i = j := by
  cases i
  cases j
  simp only [key, UInt32.toNat_inj] at h
  rw [h]

/- The number of an id in base 10. -/
def decimal (i : StateId) : String :=
  Numeral.decimal i.key

/- An id as it is shown: `q` and its number. -/
def display (i : StateId) : String :=
  "q" ++ i.decimal

end StateId

------------------------------------------------------------
-- Sets of Ids
------------------------------------------------------------

structure StateSet where
  members : List StateId
  increasing : Increasing StateId.key members

namespace StateSet

instance : DecidableEq StateSet := fun s t =>
  decidable_of_iff (s.members = t.members) (by
    cases s
    cases t
    simp)

/- The set without members. -/
def empty : StateSet :=
  ⟨[], List.Pairwise.nil⟩

instance : Inhabited StateSet :=
  ⟨empty⟩

instance : Membership StateId StateSet :=
  ⟨fun s i => i ∈ s.members⟩

instance
    (i : StateId)
    (s : StateSet) :
    Decidable (i ∈ s) :=
  inferInstanceAs (Decidable (i ∈ s.members))

/- Sets with the same members are equal. -/
theorem ext
    {s t : StateSet}
    (h : ∀ i, i ∈ s ↔ i ∈ t) :
    s = t := by
  cases s
  cases t
  congr 1
  exact Increasing.eq_of_mem_iff ‹_› ‹_› h

/- Add a member. -/
def insert (i : StateId) (s : StateSet) : StateSet :=
  ⟨insertByKey StateId.key i s.members,
    increasing_insertByKey StateId.eq_of_key_eq i
      s.increasing⟩

/- Take a member out. -/
def erase (i : StateId) (s : StateSet) : StateSet :=
  ⟨s.members.filter fun j => j ≠ i,
    s.increasing.filter _⟩

/- Add the members of a list. -/
def insertAll (s : StateSet) (l : List StateId) : StateSet :=
  l.foldl (fun s i => s.insert i) s

/- The set of the members of a list. -/
def ofList (l : List StateId) : StateSet :=
  empty.insertAll l

/- The members of either set. -/
def union (s t : StateSet) : StateSet :=
  s.insertAll t.members

@[simp]
theorem not_mem_empty
    (i : StateId) :
    ¬ i ∈ empty := by
  change ¬ i ∈ []
  simp

@[simp]
theorem mem_insert_iff
    (i j : StateId)
    (s : StateSet) :
    i ∈ s.insert j ↔ i = j ∨ i ∈ s :=
  mem_insertByKey_iff StateId.eq_of_key_eq j i s.members

@[simp]
theorem mem_erase_iff
    (i j : StateId)
    (s : StateSet) :
    i ∈ s.erase j ↔ i ∈ s ∧ i ≠ j := by
  change i ∈ s.members.filter _ ↔ i ∈ s.members ∧ _
  simp

@[simp]
theorem mem_insertAll_iff
    (i : StateId)
    (s : StateSet)
    (l : List StateId) :
    i ∈ s.insertAll l ↔ i ∈ s ∨ i ∈ l := by
  unfold insertAll
  induction l generalizing s with
  | nil => simp
  | cons j l ih =>
      simp only [List.foldl_cons, ih, mem_insert_iff,
        List.mem_cons]
      rw [or_assoc, or_left_comm]

@[simp]
theorem mem_ofList_iff
    (i : StateId)
    (l : List StateId) :
    i ∈ ofList l ↔ i ∈ l := by
  simp [ofList]

@[simp]
theorem mem_union_iff
    (i : StateId)
    (s t : StateSet) :
    i ∈ s.union t ↔ i ∈ s ∨ i ∈ t :=
  mem_insertAll_iff i s t.members

end StateSet

end AutomataStore
