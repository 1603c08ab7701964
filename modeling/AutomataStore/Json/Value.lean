/-
  JSON values.

  Numbers are integers or, with a fraction or an exponent,
  the literal as it was written.  An object keeps its fields
  in order; a look-up finds the first field with a key.

  Key definitions include:
    * `Json`
    * `Json.field?`
-/

------------------------------------------------------------
-- Values
------------------------------------------------------------

namespace AutomataStore

inductive Json where
  | null
  | bool (b : Bool)
  | integer (n : Int)
  | fraction (literal : String)
  | text (s : String)
  | list (items : List Json)
  | object (fields : List (String × Json))
deriving Inhabited, Repr

namespace Json

/- The value of an object's first field with a key. -/
def field? (fields : List (String × Json)) (key : String) :
    Option Json :=
  fields.lookup key

/- A natural number as an integer. -/
def nat (n : Nat) : Json :=
  .integer n

/- A text or null. -/
def optional (s : Option String) : Json :=
  match s with
  | none => .null
  | some s => .text s

end Json

end AutomataStore
