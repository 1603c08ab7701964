import AutomataStore.Json.Value

/-
  Shapes of JSON values.

  A record is an object with its fields, or a list of all of
  them in order.  A variant is its name alone, or an object
  whose only key is its name.

  Key definitions include:
    * `Json.record?`
    * `Json.variant?`
    * `Json.natBelow?`, `Json.list?`, `Json.nullable?`

  Correctness is proven by:
    * `Json.sizeOf_record?_lt`
    * `Json.sizeOf_variant?_lt`
-/

------------------------------------------------------------
-- Shapes
------------------------------------------------------------

namespace AutomataStore

namespace Json

/-
  The fields of a record with the given keys, in their order.
  An object may leave some out and have others; a list holds
  exactly all of them.
-/
def record? (keys : List String) : Json →
    Option (List (Option Json))
  | .object fields =>
      some (keys.map fun k => field? fields k)
  | .list items =>
      if items.length = keys.length then
        some (items.map some)
      else
        none
  | _ => none

/- The name and the payload of a variant. -/
def variant? : Json → Option (String × Option Json)
  | .text name => some (name, none)
  | .object [(name, payload)] => some (name, some payload)
  | _ => none

/- A variant with a name and a payload. -/
def ofVariant (name : String) (payload : Json) : Json :=
  .object [(name, payload)]

/- A variant without payload may have a null in its place. -/
def isUnit : Option Json → Bool
  | none => true
  | some .null => true
  | _ => false

------------------------------------------------------------
-- Contents
------------------------------------------------------------

/- The text of a JSON text. -/
def text? : Json → Option String
  | .text s => some s
  | _ => none

/- The truth value of a JSON truth value. -/
def bool? : Json → Option Bool
  | .bool b => some b
  | _ => none

/- The number of a JSON integer between zero and a limit. -/
def natBelow? (limit : Nat) : Json → Option Nat
  | .integer n =>
      if 0 ≤ n ∧ n < limit then some n.toNat else none
  | _ => none

/- The 32-bit number of a JSON integer. -/
def word32? (j : Json) : Option UInt32 :=
  (j.natBelow? UInt32.size).map UInt32.ofNat

/- The 64-bit number of a JSON integer. -/
def word64? (j : Json) : Option UInt64 :=
  (j.natBelow? UInt64.size).map UInt64.ofNat

/- The members of a JSON list, each read in the same way. -/
def list?
    {α : Type}
    (read : Json → Option α) : Json → Option (List α)
  | .list items => items.mapM read
  | _ => none

/- A value or null; a field that is left out is null. -/
def nullable?
    {α : Type}
    (read : Json → Option α) :
    Option Json → Option (Option α)
  | none => some none
  | some .null => some none
  | some j => (read j).map some

------------------------------------------------------------
-- Sizes
------------------------------------------------------------

/- A field of an object is smaller than the object. -/
theorem sizeOf_field?_lt
    {fields : List (String × Json)}
    {key : String}
    {j : Json}
    (h : field? fields key = some j) :
    sizeOf j < sizeOf fields := by
  unfold field? at h
  induction fields with
  | nil => simp at h
  | cons f fields ih =>
      rw [List.lookup_cons] at h
      split at h
      · simp only [Option.some.injEq] at h
        subst h
        cases f
        simp
        omega
      · have hRest := ih h
        simp only [List.cons.sizeOf_spec]
        omega

/- A field of a record is smaller than the record. -/
theorem sizeOf_record?_lt
    {keys : List String}
    {fields : List (Option Json)}
    {j x : Json}
    (h : j.record? keys = some fields)
    (hx : some x ∈ fields) :
    sizeOf x < sizeOf j := by
  unfold record? at h
  split at h
  · simp only [Option.some.injEq] at h
    subst h
    rcases List.mem_map.mp hx with ⟨k, _, hk⟩
    have hLt := sizeOf_field?_lt hk
    simp only [object.sizeOf_spec]
    omega
  · split at h
    · simp only [Option.some.injEq] at h
      subst h
      rcases List.mem_map.mp hx with ⟨y, hy, hEq⟩
      simp only [Option.some.injEq] at hEq
      subst hEq
      have hLt := List.sizeOf_lt_of_mem hy
      simp only [list.sizeOf_spec]
      omega
    · cases h
  · cases h

/- The payload of a variant is smaller than the variant. -/
theorem sizeOf_variant?_lt
    {name : String}
    {j x : Json}
    (h : j.variant? = some (name, some x)) :
    sizeOf x < sizeOf j := by
  unfold variant? at h
  split at h
  · simp at h
  · simp only [Option.some.injEq, Prod.mk.injEq] at h
    rw [h.2]
    simp
    omega
  · cases h

end Json

end AutomataStore
