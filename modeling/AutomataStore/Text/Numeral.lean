/-
  Numerals of 32-bit numbers.

  `Numeral.read` reads digits of a base up to 16, with one
  optional plus sign before them, and reports the first
  place where reading fails.  `Numeral.decimal` writes a
  number in base 10.

  Key definitions include:
    * `Numeral.read`
    * `Numeral.readWord`
    * `Numeral.decimal`

  Correctness is proven by:
    * `Numeral.readWord_decimal`
-/

------------------------------------------------------------
-- Reading
------------------------------------------------------------

namespace AutomataStore

namespace Numeral

/- The numbers below `limit` fit in a 32-bit word. -/
def limit : Nat := 4294967296

/- Why a text is no numeral of a 32-bit number. -/
inductive Fault where
  | empty
  | badDigit
  | tooLarge
deriving DecidableEq, Repr

/- The text of a numeral fault. -/
def Fault.message : Fault → String
  | .empty => "cannot parse integer from empty string"
  | .badDigit => "invalid digit found in string"
  | .tooLarge => "number too large to fit in target type"

/- The value of a hexadecimal digit in either case. -/
def digitValue? (c : Char) : Option Nat :=
  if '0' ≤ c ∧ c ≤ '9' then
    some (c.toNat - '0'.toNat)
  else if 'a' ≤ c ∧ c ≤ 'f' then
    some (c.toNat - 'a'.toNat + 10)
  else if 'A' ≤ c ∧ c ≤ 'F' then
    some (c.toNat - 'A'.toNat + 10)
  else
    none

/- The value of a digit of the given base. -/
def digit? (base : Nat) (c : Char) : Option Nat :=
  (digitValue? c).filter (· < base)

/- Read digits from the left, after digits worth `acc`. -/
def readDigits
    (base acc : Nat) : List Char → Except Fault Nat
  | [] => .ok acc
  | c :: cs =>
      match digit? base c with
      | none => .error .badDigit
      | some d =>
          if acc * base + d < limit then
            readDigits base (acc * base + d) cs
          else
            .error .tooLarge

/- Read a numeral.  A sign without digits is a bad digit. -/
def read (base : Nat) : List Char → Except Fault Nat
  | [] => .error .empty
  | ['+'] => .error .badDigit
  | '+' :: c :: cs => readDigits base 0 (c :: cs)
  | c :: cs => readDigits base 0 (c :: cs)

/- The 32-bit number that a text writes in base 10, if any. -/
def readWord (s : String) : Option UInt32 :=
  match read 10 s.toList with
  | .ok n => some (UInt32.ofNat n)
  | .error _ => none

------------------------------------------------------------
-- Writing
------------------------------------------------------------

/- A number in base 10. -/
def decimal (n : Nat) : String :=
  String.ofList (Nat.toDigits 10 n)

/- A decimal digit has the value that wrote it. -/
theorem digit?_digitChar
    {d : Nat}
    (hd : d < 10) :
    digit? 10 d.digitChar = some d := by
  have hCases :
      ∀ i : Fin 10,
        digit? 10 (Nat.digitChar i) = some i.val := by
    decide
  exact hCases ⟨d, hd⟩

/- Reading appends the digits of a number to what was read. -/
theorem readDigits_toDigits
    (n : Nat)
    (hn : n < limit)
    (cs : List Char) :
    readDigits 10 0 (Nat.toDigits 10 n ++ cs) =
      readDigits 10 n cs := by
  induction n using Nat.strongRecOn generalizing cs with
  | _ n ih =>
      by_cases hSmall : n < 10
      · rw [Nat.toDigits_of_lt_base hSmall]
        simp only [List.cons_append, List.nil_append,
          readDigits, digit?_digitChar hSmall]
        rw [if_pos (by omega)]
        congr 1
        omega
      · have hSplit :=
          Nat.toDigits_append_toDigits
            (b := 10) (n := n / 10) (d := n % 10)
            (by decide) (by omega) (by omega)
        have hWhole : 10 * (n / 10) + n % 10 = n := by omega
        rw [hWhole] at hSplit
        rw [← hSplit, List.append_assoc,
          ih (n / 10) (by omega) (by omega),
          Nat.toDigits_of_lt_base (by omega)]
        simp only [List.cons_append, List.nil_append,
          readDigits, digit?_digitChar
            (show n % 10 < 10 by omega)]
        rw [if_pos (by omega)]
        congr 1
        omega

/- A written number is read back. -/
theorem read_toDigits
    (n : Nat)
    (hn : n < limit) :
    read 10 (Nat.toDigits 10 n) = .ok n := by
  have hDigits := readDigits_toDigits n hn []
  rw [List.append_nil] at hDigits
  have hDigit :
      ∀ c ∈ Nat.toDigits 10 n, c.isDigit = true :=
    fun _ => Nat.isDigit_of_mem_toDigits
      (by decide) (by decide)
  have hNotNil : Nat.toDigits 10 n ≠ [] := by
    intro hNil
    have hValue :=
      Nat.ofDigitChars_toDigits
        (b := 10) (n := n) (by decide) (by decide)
    rw [hNil] at hDigit hValue hDigits
    simp only [Nat.ofDigitChars_nil] at hValue
    subst hValue
    revert hNil
    decide
  unfold read
  split
  · rename_i hEq
    exact absurd hEq hNotNil
  · rename_i hEq
    have hPlus := hDigit '+' (by simp [hEq])
    exact absurd hPlus (by decide)
  · rename_i hEq
    have hPlus := hDigit '+' (by simp [hEq])
    exact absurd hPlus (by decide)
  · rename_i hEq
    rw [← hEq, hDigits]
    rfl

/- A 32-bit number written in base 10 is read back. -/
theorem readWord_decimal
    (w : UInt32) :
    readWord (decimal w.toNat) = some w := by
  have hLt : w.toNat < limit := w.toNat_lt
  simp [readWord, decimal, read_toDigits _ hLt]

end Numeral

end AutomataStore
