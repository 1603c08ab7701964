/-
  Blank characters and trimming.

  A character is blank when Unicode gives it the property
  White_Space.  Trimming drops the blanks at both ends.

  Key definitions include:
    * `Text.blankRanges`
    * `Text.isBlank`
    * `Text.trim`
    * `Text.IsBlankText`
-/

------------------------------------------------------------
-- Blank Characters
------------------------------------------------------------

namespace AutomataStore

namespace Text

/- The code points with the property White_Space, as ranges. -/
def blankRanges : List (Nat × Nat) :=
  [(0x09, 0x0D), (0x20, 0x20), (0x85, 0x85), (0xA0, 0xA0),
   (0x1680, 0x1680), (0x2000, 0x200A), (0x2028, 0x2029),
   (0x202F, 0x202F), (0x205F, 0x205F), (0x3000, 0x3000)]

/- A character is blank when one of the ranges holds it. -/
def isBlank (c : Char) : Bool :=
  blankRanges.any fun r =>
    decide (r.1 ≤ c.toNat) && decide (c.toNat ≤ r.2)

------------------------------------------------------------
-- Trimming
------------------------------------------------------------

/- Drop the blanks at both ends of a list of characters. -/
def trimChars (cs : List Char) : List Char :=
  ((cs.dropWhile isBlank).reverse.dropWhile isBlank).reverse

/- Drop the blanks at both ends of a text. -/
def trim (s : String) : String :=
  String.ofList (trimChars s.toList)

/- A text is blank when trimming leaves nothing of it. -/
def IsBlankText (s : String) : Prop :=
  ∀ c ∈ s.toList, isBlank c = true

instance
    (s : String) :
    Decidable (IsBlankText s) :=
  List.decidableBAll (fun c => isBlank c = true) s.toList

/- Trimming leaves nothing exactly of blank characters. -/
theorem trimChars_eq_nil_iff
    (cs : List Char) :
    trimChars cs = [] ↔ ∀ c ∈ cs, isBlank c = true := by
  have hDrop :
      ∀ l : List Char,
        l.dropWhile isBlank = [] ↔
          ∀ c ∈ l, isBlank c = true := by
    intro l
    induction l with
    | nil => simp
    | cons c l ih =>
        cases h : isBlank c <;> simp [h, ih]
  constructor
  · intro h
    have hRev := List.reverse_eq_nil_iff.mp h
    rw [hDrop] at hRev
    apply (hDrop cs).mp
    cases hCase : cs.dropWhile isBlank with
    | nil => rfl
    | cons c l =>
        exfalso
        have hc : isBlank c = true :=
          hRev c (by simp [hCase])
        have hHead := List.head?_dropWhile_not isBlank cs
        simp [hCase, hc] at hHead
  · intro h
    simp [trimChars, (hDrop cs).mpr h]

/- A text is blank exactly when it trims to nothing. -/
theorem isBlankText_iff_trim_eq_empty
    (s : String) :
    IsBlankText s ↔ trim s = "" := by
  rw [IsBlankText, ← trimChars_eq_nil_iff, trim]
  constructor
  · intro h
    simp [h]
  · intro h
    have hList := congrArg String.toList h
    simpa using hList

end Text

end AutomataStore
