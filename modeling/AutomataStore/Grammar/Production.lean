import AutomataStore.Order.Increasing

/-
  Productions and their symbols.

  A production replaces its left side by its right side.  A
  classifier says which characters are variables and which
  are terminals; a character may be neither or both.

  Key definitions include:
    * `Classifier`
    * `firstSeen`
    * `Production`
    * `Production.variables`, `Production.symbols`
-/

------------------------------------------------------------
-- Classifiers
------------------------------------------------------------

namespace AutomataStore

structure Classifier where
  isVariable : Char → Bool
  isTerminal : Char → Bool

namespace Classifier

/- What is no variable is a terminal. -/
def ofVariables (p : Char → Bool) : Classifier :=
  ⟨p, fun c => !p c⟩

/- The capital letters of ASCII are the variables. -/
def uppercase : Classifier :=
  ofVariables Char.isUpper

end Classifier

------------------------------------------------------------
-- First Occurrences
------------------------------------------------------------

/- The members of a list in the order they first occur in. -/
def firstSeen : List Char → List Char
  | [] => []
  | c :: cs => c :: (firstSeen cs).filter fun d => d ≠ c

/- No member is lost and none is added. -/
theorem mem_firstSeen_iff
    (c : Char)
    (cs : List Char) :
    c ∈ firstSeen cs ↔ c ∈ cs := by
  induction cs with
  | nil => simp [firstSeen]
  | cons d cs ih =>
      by_cases h : c = d <;> simp [firstSeen, ih, h]

/- Every member occurs once. -/
theorem nodup_firstSeen
    (cs : List Char) :
    (firstSeen cs).Nodup := by
  induction cs with
  | nil => simp [firstSeen]
  | cons d cs ih =>
      rw [firstSeen, List.nodup_cons]
      refine ⟨?_, ih.filter _⟩
      simp

------------------------------------------------------------
-- Productions
------------------------------------------------------------

structure Production where
  left : String
  right : String
deriving DecidableEq, Inhabited, Repr

namespace Production

/- The variables of the left side, in their places. -/
def variablesLeft
    (p : Production)
    (k : Classifier) : List Char :=
  p.left.toList.filter k.isVariable

/- The variables of the right side, in their places. -/
def variablesRight
    (p : Production)
    (k : Classifier) : List Char :=
  p.right.toList.filter k.isVariable

/- The terminals of the left side, in their places. -/
def terminalsLeft
    (p : Production)
    (k : Classifier) : List Char :=
  p.left.toList.filter k.isTerminal

/- The terminals of the right side, in their places. -/
def terminalsRight
    (p : Production)
    (k : Classifier) : List Char :=
  p.right.toList.filter k.isTerminal

/- Each variable once, those of the right side first. -/
def «variables» (p : Production) (k : Classifier) : List Char :=
  firstSeen (p.variablesRight k ++ p.variablesLeft k)

/- Each terminal once, those of the right side first. -/
def terminals (p : Production) (k : Classifier) : List Char :=
  firstSeen (p.terminalsRight k ++ p.terminalsLeft k)

/- Each variable and terminal once, by code point. -/
def symbols (p : Production) (k : Classifier) : List Char :=
  (p.variables k ++ p.terminals k).foldl
    (fun l c => insertByKey Char.toNat c l) []

/- The characters of the right side, in their places. -/
def symbolsRight (p : Production) : List Char :=
  p.right.toList

/- Stands for an empty right side. -/
def emptyMark : String :=
  "λ"

/- A production as it is shown. -/
def display (p : Production) : String :=
  p.left ++ "→" ++ (if p.right = "" then emptyMark else p.right)

end Production

end AutomataStore
