import AutomataStore.Text.Numeral

/-
  References in character data and attribute values.

  Five characters have a name (`&lt;` and so on), and every
  other one can be written by its number (`&#955;`,
  `&#x3bb;`).  `Reference.escape` writes the five by name,
  `Reference.expand` reads every reference.

  Key definitions include:
    * `Reference.escape`
    * `Reference.expand`
    * `Reference.Fault`
-/

------------------------------------------------------------
-- Faults
------------------------------------------------------------

namespace AutomataStore

namespace Reference

/-
  Why a reference cannot be read.  Places are counted in
  bytes of UTF-8 from the start of the text.
-/
inductive Fault where
  | unterminated (first last : Nat)
  | unknown (first last : Nat) (name : String)
  | signed
  | numeral (fault : Numeral.Fault)
  | zero
  | notScalar (n : Nat)
deriving DecidableEq, Repr

/- The text of a reference fault. -/
def Fault.message : Fault → String
  | .unterminated first last =>
      s!"Error while escaping character at range " ++
        s!"{first}..{last}: Cannot find ';' after '&'"
  | .unknown first last name =>
      s!"at {first}..{last}: unrecognized entity `{name}`"
  | .signed =>
      "invalid character reference: unexpected number sign"
  | .numeral fault =>
      "invalid character reference: " ++ fault.message
  | .zero =>
      "invalid character reference: " ++
        "0x0 character is not permitted in XML"
  | .notScalar n =>
      s!"invalid character reference: `{n}` " ++
        "is not a valid codepoint"

------------------------------------------------------------
-- Names and Numbers
------------------------------------------------------------

/- The characters that have a name of their own. -/
def named? : List Char → Option Char
  | ['l', 't'] => some '<'
  | ['g', 't'] => some '>'
  | ['a', 'm', 'p'] => some '&'
  | ['a', 'p', 'o', 's'] => some '\''
  | ['q', 'u', 'o', 't'] => some '"'
  | _ => none

/- The character with code point `n`. -/
def scalar (n : Nat) : Except Fault Char :=
  if n = 0 then
    .error .zero
  else if n.isValidChar then
    .ok (Char.ofNat n)
  else
    .error (.notScalar n)

/- A number of the given base, which may carry no sign. -/
def numbered
    (base : Nat)
    (cs : List Char) : Except Fault Char :=
  match cs with
  | '+' :: _ => .error .signed
  | '-' :: _ => .error .signed
  | cs =>
      match Numeral.read base cs with
      | .ok n => scalar n
      | .error fault => .error (.numeral fault)

/-
  The character that the reference with the given body, found
  at byte `offset`, stands for.
-/
def resolve
    (offset : Nat)
    (body : List Char) : Except Fault Char :=
  match body with
  | '#' :: 'x' :: cs => numbered 16 cs
  | '#' :: cs => numbered 10 cs
  | cs =>
      match named? cs with
      | some c => .ok c
      | none =>
          let name := String.ofList cs
          .error (.unknown offset
            (offset + name.utf8ByteSize) name)

------------------------------------------------------------
-- Expanding
------------------------------------------------------------

/- A reference body runs up to the next of `&` and `;`. -/
def inBody (c : Char) : Bool :=
  c ≠ '&' && c ≠ ';'

/-
  Replace the references of a text of `total` bytes, whose
  rest from byte `offset` on is given.
-/
def expandFrom
    (offset total : Nat) :
    List Char → Except Fault (List Char)
  | [] => .ok []
  | c :: cs =>
      if c = '&' then
        match _h : cs.dropWhile inBody with
        | ';' :: rest => do
            let body := cs.takeWhile inBody
            let size := (String.ofList body).utf8ByteSize
            let d ← resolve (offset + 1) body
            let ds ← expandFrom (offset + size + 2) total rest
            return d :: ds
        | _ => .error (.unterminated offset total)
      else do
        let ds ← expandFrom (offset + c.utf8Size) total cs
        return c :: ds
termination_by cs => cs.length
decreasing_by
  · have hLe :=
      (List.dropWhile_sublist (l := cs) inBody).length_le
    rw [_h] at hLe
    simp only [List.length_cons] at hLe ⊢
    omega
  · simp

/- Replace the references of a text. -/
def expandChars
    (cs : List Char) : Except Fault (List Char) :=
  expandFrom 0 (String.ofList cs).utf8ByteSize cs

/- Replace the references of a text. -/
def expand (s : String) : Except Fault String :=
  (expandChars s.toList).map String.ofList

------------------------------------------------------------
-- Escaping
------------------------------------------------------------

/- A character that has a name is written by it. -/
def escapeChar (c : Char) : List Char :=
  if c = '<' then ['&', 'l', 't', ';']
  else if c = '>' then ['&', 'g', 't', ';']
  else if c = '&' then ['&', 'a', 'm', 'p', ';']
  else if c = '\'' then ['&', 'a', 'p', 'o', 's', ';']
  else if c = '"' then ['&', 'q', 'u', 'o', 't', ';']
  else [c]

/- Write the characters that have a name by it. -/
def escapeChars (cs : List Char) : List Char :=
  cs.flatMap escapeChar

/- Write the characters that have a name by it. -/
def escape (s : String) : String :=
  String.ofList (escapeChars s.toList)

end Reference

end AutomataStore
