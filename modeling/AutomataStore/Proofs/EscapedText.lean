import AutomataStore.Markup.Reference
import Mathlib.Data.Nat.Digits.Defs

/-
  Character data in all its spellings.

  A character of a text is written as itself, by its name or
  by its number, decimal or hexadecimal and with any number
  of leading zeros.  Reading character data gives the text
  that it writes, however each character was written.

  Key definitions include:
    * `Numeral.IsNumeral`
    * `Reference.Writes`, `Reference.Escapes`
    * `Reference.RefersTo`

  Main declarations:
    * `Numeral.read_of_isNumeral`
    * `Reference.expandChars_eq_ok_iff`
    * `Reference.escapes_escape`
-/

------------------------------------------------------------
-- Numerals
------------------------------------------------------------

namespace AutomataStore

/- A list all of a kind is taken up to one of another kind. -/
theorem takeWhile_dropWhile_append_cons
    {α : Type}
    {p : α → Bool}
    {as : List α}
    (has : ∀ a ∈ as, p a = true)
    {b : α}
    (hb : p b = false)
    (rest : List α) :
    (as ++ b :: rest).takeWhile p = as ∧
      (as ++ b :: rest).dropWhile p = b :: rest := by
  rw [List.takeWhile_append_of_pos has,
    List.dropWhile_append_of_pos has]
  simp [hb]

namespace Numeral

/-
  Characters that write a number: digits of the base, the
  highest one first.
-/
def IsNumeral
    (base : Nat)
    (cs : List Char)
    (n : Nat) : Prop :=
  cs ≠ [] ∧
    ∃ digits,
      List.Forall₂ (fun c d => digit? base c = some d)
          cs digits ∧
        Nat.ofDigits base digits.reverse = n

/-
  Digits are read to the end if they write a number below the
  limit together with the digits before them.
-/
theorem readDigits_of_digits
    {base : Nat}
    {cs : List Char}
    {digits : List Nat}
    (hDigits :
      List.Forall₂ (fun c d => digit? base c = some d)
        cs digits)
    {acc n : Nat}
    (hValue :
      acc * base ^ digits.length +
          Nat.ofDigits base digits.reverse = n)
    (hn : n < limit) :
    readDigits base acc cs = .ok n := by
  induction hDigits generalizing acc with
  | nil =>
      simp only [List.length_nil, Nat.pow_zero, Nat.mul_one,
        List.reverse_nil, Nat.ofDigits_nil, Nat.add_zero]
        at hValue
      rw [readDigits, hValue]
  | @cons c d cs digits hd _ ih =>
      have hSplit :
          (acc * base + d) * base ^ digits.length +
              Nat.ofDigits base digits.reverse = n := by
        rw [List.reverse_cons, Nat.ofDigits_append,
          Nat.ofDigits_singleton, List.length_reverse,
          List.length_cons] at hValue
        rw [← hValue]
        ring
      have hHead : acc * base + d < limit := by
        by_cases hBase : base = 0
        · -- No digit is below the base 0.
          rw [hBase] at hd
          simp [digit?] at hd
        · have hPower : 1 ≤ base ^ digits.length :=
            Nat.one_le_pow _ _ (Nat.pos_of_ne_zero hBase)
          calc
            acc * base + d
                ≤ (acc * base + d) * base ^ digits.length :=
              Nat.le_mul_of_pos_right _ hPower
            _ ≤ n := by
              rw [← hSplit]
              exact Nat.le_add_right ..
            _ < limit := hn
      simp only [readDigits, hd, if_pos hHead]
      exact ih hSplit

/-
  What is read to the end are digits, which write the number
  together with the digits before them.
-/
theorem exists_digits_of_readDigits
    {base acc n : Nat}
    {cs : List Char}
    (hRead : readDigits base acc cs = .ok n) :
    ∃ digits,
      List.Forall₂ (fun c d => digit? base c = some d)
          cs digits ∧
        acc * base ^ digits.length +
          Nat.ofDigits base digits.reverse = n := by
  induction cs generalizing acc with
  | nil =>
      cases hRead
      exact ⟨[], List.Forall₂.nil, by simp⟩
  | cons c cs ih =>
      simp only [readDigits] at hRead
      split at hRead
      · cases hRead
      · rename_i d hd
        split at hRead
        · rcases ih hRead with ⟨digits, hDigits, hValue⟩
          refine ⟨d :: digits, .cons hd hDigits, ?_⟩
          rw [List.reverse_cons, Nat.ofDigits_append,
            Nat.ofDigits_singleton, List.length_reverse,
            List.length_cons, ← hValue]
          ring
        · cases hRead

/- No character of a numeral is anything but a digit. -/
theorem not_mem_of_isNumeral
    {base n : Nat}
    {cs : List Char}
    (hNumeral : IsNumeral base cs n)
    {m : Char}
    (hm : digitValue? m = none) :
    m ∉ cs := by
  rcases hNumeral with ⟨_, digits, hDigits, _⟩
  clear * - hDigits hm
  induction hDigits with
  | nil => exact List.not_mem_nil
  | @cons c d _ _ hd _ ih =>
      rw [List.mem_cons, not_or]
      refine ⟨?_, ih⟩
      rintro rfl
      rw [digit?, hm] at hd
      cases hd

/- A numeral of a 32-bit number is read as the number. -/
theorem read_of_isNumeral
    {base n : Nat}
    {cs : List Char}
    (hNumeral : IsNumeral base cs n)
    (hn : n < limit) :
    read base cs = .ok n := by
  have hPlus : '+' ∉ cs :=
    not_mem_of_isNumeral hNumeral rfl
  rcases hNumeral with ⟨hNotNil, digits, hDigits, hValue⟩
  have hRead : readDigits base 0 cs = .ok n :=
    readDigits_of_digits hDigits (by rw [← hValue]; simp) hn
  unfold read
  split
  · exact absurd rfl hNotNil
  · exact absurd (List.mem_cons_self ..) hPlus
  · exact absurd (List.mem_cons_self ..) hPlus
  · exact hRead

/- What is read without a sign is a numeral. -/
theorem isNumeral_of_read
    {base n : Nat}
    {cs : List Char}
    (hPlus : cs.head? ≠ some '+')
    (hRead : read base cs = .ok n) :
    IsNumeral base cs n := by
  unfold read at hRead
  split at hRead
  · cases hRead
  · cases hRead
  · exact absurd rfl hPlus
  · rcases exists_digits_of_readDigits hRead with
      ⟨digits, hDigits, hValue⟩
    refine ⟨by simp, digits, hDigits, ?_⟩
    simpa using hValue

end Numeral

------------------------------------------------------------
-- Written Characters
------------------------------------------------------------

namespace Reference

/-
  What writes a character in character data: itself, its name
  or its number.
-/
inductive Writes (c : Char) : List Char → Prop where
  | plain (hLess : c ≠ '<') (hAmp : c ≠ '&') : Writes c [c]
  | named
      {name : List Char}
      (hName : named? name = some c) :
      Writes c ('&' :: name ++ [';'])
  | decimal
      {cs : List Char}
      (hNumeral : Numeral.IsNumeral 10 cs c.toNat)
      (hPos : 0 < c.toNat) :
      Writes c ('&' :: ('#' :: cs) ++ [';'])
  | hexadecimal
      {cs : List Char}
      (hNumeral : Numeral.IsNumeral 16 cs c.toNat)
      (hPos : 0 < c.toNat) :
      Writes c ('&' :: ('#' :: 'x' :: cs) ++ [';'])

/- Texts that write a text, character by character. -/
inductive Escapes : List Char → List Char → Prop where
  | nil : Escapes [] []
  | cons
      {c : Char}
      {cs written rest : List Char}
      (hChar : Writes c written) :
      Escapes cs rest → Escapes (c :: cs) (written ++ rest)

/- Every code point but zero is that of its character. -/
theorem scalar_eq_ok_iff
    (n : Nat)
    (c : Char) :
    scalar n = .ok c ↔ n = c.toNat ∧ 0 < n := by
  constructor
  · intro hScalar
    unfold scalar at hScalar
    split at hScalar
    · cases hScalar
    · rename_i hZero
      split at hScalar
      · rename_i hValid
        cases hScalar
        refine ⟨?_, Nat.pos_of_ne_zero hZero⟩
        rw [Char.ofNat, dif_pos hValid]
        rfl
      · cases hScalar
  · rintro ⟨rfl, hPos⟩
    have hValid : c.toNat.isValidChar := c.valid
    rw [scalar, if_neg (Nat.ne_of_gt hPos), if_pos hValid,
      Char.ofNat_toNat]

/- A numeral of a code point stands for the character. -/
theorem numbered_of_isNumeral
    {base : Nat}
    {cs : List Char}
    {c : Char}
    (hNumeral : Numeral.IsNumeral base cs c.toNat)
    (hPos : 0 < c.toNat) :
    numbered base cs = .ok c := by
  have hBound : c.toNat < Numeral.limit := by
    have hValid : Nat.isValidChar c.toNat := c.valid
    unfold Nat.isValidChar at hValid
    unfold Numeral.limit
    omega
  have hPlus : '+' ∉ cs :=
    Numeral.not_mem_of_isNumeral hNumeral rfl
  have hMinus : '-' ∉ cs :=
    Numeral.not_mem_of_isNumeral hNumeral rfl
  unfold numbered
  split
  · exact absurd (List.mem_cons_self ..) hPlus
  · exact absurd (List.mem_cons_self ..) hMinus
  · rw [Numeral.read_of_isNumeral hNumeral hBound]
    exact (scalar_eq_ok_iff _ c).mpr ⟨rfl, hPos⟩

/- What stands for a character is a numeral of its number. -/
theorem isNumeral_of_numbered
    {base : Nat}
    {cs : List Char}
    {c : Char}
    (hNumbered : numbered base cs = .ok c) :
    Numeral.IsNumeral base cs c.toNat ∧ 0 < c.toNat := by
  unfold numbered at hNumbered
  split at hNumbered
  · cases hNumbered
  · cases hNumbered
  · rename_i hPlus _
    have hHead : cs.head? ≠ some '+' := by
      intro hHead
      rcases List.head?_eq_some_iff.mp hHead with
        ⟨ds, hds⟩
      exact hPlus ds hds
    split at hNumbered
    · rename_i n hRead
      rcases (scalar_eq_ok_iff n c).mp hNumbered with
        ⟨rfl, hPos⟩
      exact ⟨Numeral.isNumeral_of_read hHead hRead, hPos⟩
    · cases hNumbered

/-
  A body of a reference to a character: without the
  characters that end character data or a reference, and
  resolved to the character at every place.
-/
structure RefersTo (body : List Char) (c : Char) : Prop where
  inBody : ∀ b ∈ body, inBody b = true
  less_not_mem : '<' ∉ body
  resolve : ∀ offset, resolve offset body = .ok c

/- A name refers to its character. -/
theorem refersTo_of_named?
    {name : List Char}
    {c : Char}
    (hName : named? name = some c) :
    RefersTo name c := by
  unfold named? at hName
  split at hName <;> cases hName
  all_goals
    exact
      ⟨List.all_eq_true.mp rfl, by decide, fun _ => rfl⟩

/- A number refers to its character. -/
theorem refersTo_of_isNumeral
    {base : Nat}
    {cs front : List Char}
    {c : Char}
    (hFront : front = ['#'] ∨ front = ['#', 'x'])
    (hNumeral : Numeral.IsNumeral base cs c.toNat)
    (hResolve :
      ∀ offset, resolve offset (front ++ cs) = .ok c) :
    RefersTo (front ++ cs) c := by
  have hAmp : '&' ∉ cs :=
    Numeral.not_mem_of_isNumeral hNumeral rfl
  have hSemi : ';' ∉ cs :=
    Numeral.not_mem_of_isNumeral hNumeral rfl
  have hLess : '<' ∉ cs :=
    Numeral.not_mem_of_isNumeral hNumeral rfl
  have hMarks :
      (∀ b ∈ front, inBody b = true) ∧ '<' ∉ front := by
    rcases hFront with rfl | rfl <;>
      exact ⟨List.all_eq_true.mp rfl, by decide⟩
  refine ⟨?_, ?_, hResolve⟩
  · intro b hb
    rcases List.mem_append.mp hb with hb | hb
    · exact hMarks.1 b hb
    · have hNotAmp : b ≠ '&' := fun h => hAmp (h ▸ hb)
      have hNotSemi : b ≠ ';' := fun h => hSemi (h ▸ hb)
      simp [inBody, hNotAmp, hNotSemi]
  · rw [List.mem_append, not_or]
    exact ⟨hMarks.2, hLess⟩

/- A character is written as itself or by a reference. -/
theorem exists_body_of_writes
    {c : Char}
    {written : List Char}
    (hWrites : Writes c written) :
    (written = [c] ∧ c ≠ '<' ∧ c ≠ '&') ∨
      ∃ body,
        written = '&' :: body ++ [';'] ∧
          RefersTo body c := by
  cases hWrites with
  | plain hLess hAmp => exact Or.inl ⟨rfl, hLess, hAmp⟩
  | named hName =>
      exact Or.inr ⟨_, rfl, refersTo_of_named? hName⟩
  | @decimal cs hNumeral hPos =>
      refine Or.inr ⟨['#'] ++ cs, rfl, ?_⟩
      apply refersTo_of_isNumeral (Or.inl rfl) hNumeral
      intro offset
      have hNotHex : 'x' ∉ cs :=
        Numeral.not_mem_of_isNumeral hNumeral rfl
      rw [List.singleton_append, resolve]
      · exact numbered_of_isNumeral hNumeral hPos
      · rintro ds rfl
        exact hNotHex (List.mem_cons_self ..)
  | @hexadecimal cs hNumeral hPos =>
      refine Or.inr ⟨['#', 'x'] ++ cs, rfl, ?_⟩
      apply refersTo_of_isNumeral (Or.inr rfl) hNumeral
      intro offset
      exact numbered_of_isNumeral hNumeral hPos

/- What writes a character has no `<`. -/
theorem less_not_mem_of_writes
    {c : Char}
    {written : List Char}
    (hWrites : Writes c written) :
    '<' ∉ written := by
  rcases exists_body_of_writes hWrites with
    ⟨rfl, hLess, _⟩ | ⟨body, rfl, hBody⟩
  · simpa [eq_comm] using hLess
  · simpa using hBody.less_not_mem

/- What writes a character is not empty. -/
theorem ne_nil_of_writes
    {c : Char}
    {written : List Char}
    (hWrites : Writes c written) :
    written ≠ [] := by
  cases hWrites <;> simp

------------------------------------------------------------
-- Reading What Is Written
------------------------------------------------------------

/- What is put before a text is its first character. -/
theorem exists_of_map_cons_eq_ok
    {text : Except Fault (List Char)}
    {c : Char}
    {cs : List Char}
    (h : text.map (c :: ·) = .ok cs) :
    ∃ ds, text = .ok ds ∧ cs = c :: ds := by
  cases text with
  | error fault => cases h
  | ok ds =>
      cases h
      exact ⟨ds, rfl, rfl⟩

/- A character that starts no reference is itself. -/
theorem expandFrom_plain
    {c : Char}
    (hAmp : c ≠ '&')
    (cs : List Char)
    (offset total : Nat) :
    expandFrom offset total (c :: cs) =
      (expandFrom (offset + c.utf8Size) total cs).map
        (c :: ·) := by
  rw [expandFrom, if_neg hAmp]
  cases expandFrom (offset + c.utf8Size) total cs <;> rfl

/- A reference up to its `;` is what it is resolved to. -/
theorem expandFrom_reference
    {cs rest : List Char}
    (hRest : cs.dropWhile inBody = ';' :: rest)
    (offset total : Nat) :
    expandFrom offset total ('&' :: cs) =
      (resolve (offset + 1) (cs.takeWhile inBody)).bind
        fun c =>
          (expandFrom
            (offset +
              (String.ofList
                (cs.takeWhile inBody)).utf8ByteSize + 2)
            total rest).map (c :: ·) := by
  rw [expandFrom, if_pos rfl]
  split
  · rename_i rest' hRest'
    rw [hRest] at hRest'
    cases hRest'
    cases hResolve :
        resolve (offset + 1) (cs.takeWhile inBody) with
    | error fault =>
        simp only [hResolve]
        rfl
    | ok c =>
        simp only [hResolve, Except.bind]
        cases expandFrom _ total rest <;> rfl
  · rename_i hNone
    exact absurd hRest (hNone rest)

/- A written character is read back, whatever follows. -/
theorem expandFrom_of_writes
    {c : Char}
    {written : List Char}
    (hWrites : Writes c written)
    (cs : List Char)
    (offset total : Nat) :
    ∃ width,
      expandFrom offset total (written ++ cs) =
        (expandFrom (offset + width) total cs).map
          (c :: ·) := by
  rcases exists_body_of_writes hWrites with
    ⟨rfl, _, hAmp⟩ | ⟨body, rfl, hBody⟩
  · exact ⟨c.utf8Size, expandFrom_plain hAmp ..⟩
  · have hStop : inBody ';' = false := by decide
    have hSplit :=
      takeWhile_dropWhile_append_cons hBody.inBody
        hStop cs
    refine ⟨(String.ofList body).utf8ByteSize + 2, ?_⟩
    rw [List.cons_append, List.cons_append,
      List.append_assoc, List.singleton_append,
      expandFrom_reference hSplit.2, hSplit.1,
      hBody.resolve]
    rfl

/- A written text is read back from every place. -/
theorem expandFrom_of_escapes
    {cs written : List Char}
    (hEscapes : Escapes cs written)
    (offset total : Nat) :
    expandFrom offset total written = .ok cs := by
  induction hEscapes generalizing offset with
  | nil => simp [expandFrom]
  | @cons c cs written rest hChar _ ih =>
      rcases expandFrom_of_writes hChar rest offset total with
        ⟨width, hEq⟩
      rw [hEq, ih]
      rfl

/- Expanding a written text gives the text. -/
theorem expandChars_of_escapes
    {cs written : List Char}
    (hEscapes : Escapes cs written) :
    expandChars written = .ok cs :=
  expandFrom_of_escapes hEscapes 0 _

/- What writes a text has no `<`. -/
theorem less_not_mem_of_escapes
    {cs written : List Char}
    (hEscapes : Escapes cs written) :
    '<' ∉ written := by
  induction hEscapes with
  | nil => exact List.not_mem_nil
  | cons hChar _ ih =>
      rw [List.mem_append, not_or]
      exact ⟨less_not_mem_of_writes hChar, ih⟩

/- Only the empty text is written by nothing. -/
theorem eq_nil_iff_of_escapes
    {cs written : List Char}
    (hEscapes : Escapes cs written) :
    written = [] ↔ cs = [] := by
  cases hEscapes with
  | nil => simp
  | cons hChar _ =>
      simp [ne_nil_of_writes hChar]

/- A reference that is resolved writes its character. -/
theorem writes_of_resolve
    {offset : Nat}
    {body : List Char}
    {c : Char}
    (hResolve : resolve offset body = .ok c) :
    Writes c ('&' :: body ++ [';']) := by
  unfold resolve at hResolve
  split at hResolve
  · rcases isNumeral_of_numbered hResolve with
      ⟨hNumeral, hPos⟩
    exact Writes.hexadecimal hNumeral hPos
  · rcases isNumeral_of_numbered hResolve with
      ⟨hNumeral, hPos⟩
    exact Writes.decimal hNumeral hPos
  · split at hResolve
    · rename_i hName
      cases hResolve
      exact Writes.named hName
    · cases hResolve

/- Character data that is expanded writes its text. -/
theorem escapes_of_expandFrom
    {offset total : Nat}
    {cs written : List Char}
    (hLess : '<' ∉ written)
    (hExpand : expandFrom offset total written = .ok cs) :
    Escapes cs written := by
  induction offset, written using expandFrom.induct
    generalizing cs with
  | case1 offset =>
      rw [expandFrom] at hExpand
      cases hExpand
      exact Escapes.nil
  | case2 offset ds rest hRest body size =>
      rename_i ih
      -- The reference is its body between `&` and `;`.
      have hWhole :
          '&' :: ds = '&' :: body ++ [';'] ++ rest := by
        have hSplit :=
          List.takeWhile_append_dropWhile
            (p := inBody) (l := ds)
        rw [hRest] at hSplit
        rw [← hSplit]
        simp [body, hSplit]
      have hAfter : '<' ∉ rest := by
        intro h
        apply hLess
        rw [hWhole]
        exact List.mem_append_right _ h
      rw [expandFrom_reference hRest] at hExpand
      cases hResolve : resolve (offset + 1) body with
      | error fault =>
          rw [hResolve] at hExpand
          cases hExpand
      | ok c =>
          rw [hResolve] at hExpand
          rcases exists_of_map_cons_eq_ok hExpand with
            ⟨es, hTail, rfl⟩
          rw [hWhole]
          exact Escapes.cons (writes_of_resolve hResolve)
            (ih hAfter hTail)
  | case3 offset ds hNone =>
      rw [expandFrom, if_pos rfl] at hExpand
      split at hExpand
      · rename_i rest hRest
        exact absurd hRest (hNone rest)
      · cases hExpand
  | case4 offset c ds hAmp ih =>
      rw [List.mem_cons, not_or] at hLess
      rw [expandFrom_plain hAmp] at hExpand
      rcases exists_of_map_cons_eq_ok hExpand with
        ⟨es, hTail, rfl⟩
      have hChar : Writes c [c] :=
        Writes.plain (Ne.symm hLess.1) hAmp
      exact Escapes.cons hChar (ih hLess.2 hTail)

/-
  Character data without `<` is expanded to a text exactly if
  it writes the text.
-/
theorem expandChars_eq_ok_iff
    {cs written : List Char}
    (hLess : '<' ∉ written) :
    expandChars written = .ok cs ↔ Escapes cs written :=
  ⟨escapes_of_expandFrom hLess, expandChars_of_escapes⟩

/- Texts that follow each other are written in order. -/
theorem Escapes.append
    {cs ds written more : List Char}
    (hcs : Escapes cs written)
    (hds : Escapes ds more) :
    Escapes (cs ++ ds) (written ++ more) := by
  induction hcs with
  | nil => exact hds
  | cons hChar _ ih =>
      rw [List.append_assoc]
      exact Escapes.cons hChar ih

/- Escaping a character writes it. -/
theorem writes_escapeChar
    (c : Char) :
    Writes c (escapeChar c) := by
  unfold escapeChar
  split
  · rename_i hc
    subst hc
    exact @Writes.named _ ['l', 't'] rfl
  split
  · rename_i hc
    subst hc
    exact @Writes.named _ ['g', 't'] rfl
  split
  · rename_i hc
    subst hc
    exact @Writes.named _ ['a', 'm', 'p'] rfl
  split
  · rename_i hc
    subst hc
    exact @Writes.named _ ['a', 'p', 'o', 's'] rfl
  split
  · rename_i hc
    subst hc
    exact @Writes.named _ ['q', 'u', 'o', 't'] rfl
  · rename_i hLess _ hAmp _ _
    exact Writes.plain hLess hAmp

/- Escaping a text writes it. -/
theorem escapes_escape
    (s : String) :
    Escapes s.toList (escape s).toList := by
  rw [escape, String.toList_ofList]
  induction s.toList with
  | nil => exact Escapes.nil
  | cons c cs ih =>
      exact Escapes.cons (writes_escapeChar c) ih

end Reference

end AutomataStore
