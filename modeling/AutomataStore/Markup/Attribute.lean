import AutomataStore.Markup.Token

/-
  Attributes of a tag.

  The content of a tag is its name, then attributes
  `key="value"` or `key='value'`.  They are read from the
  left; each key may occur once.  Keys are decoded leniently,
  values strictly and with their references expanded.

  Key definitions include:
    * `Markup.Attribute`
    * `Markup.readText`
    * `Markup.readAttributes`
-/

------------------------------------------------------------
-- Text
------------------------------------------------------------

namespace AutomataStore

namespace Markup

/- The text that bytes of character data stand for. -/
def readText (bs : Bytes) : Except Fault String :=
  match Utf8.decode bs with
  | .error fault => .error (.encoding fault)
  | .ok s =>
      match Reference.expand s with
      | .error fault => .error (.reference fault)
      | .ok text => .ok text

------------------------------------------------------------
-- Attributes
------------------------------------------------------------

/- A named value of an element. -/
structure Attribute where
  name : String
  value : String
deriving DecidableEq, Repr

/- The name of a tag ends at the first space. -/
def tagName (content : Bytes) : Bytes :=
  content.takeWhile fun b => !isSpace b

/- What follows the name of a tag. -/
def tagFields (content : Bytes) : Bytes :=
  content.dropWhile fun b => !isSpace b

/- A byte that belongs to a key after its first byte. -/
def inKey (b : UInt8) : Bool :=
  b ≠ byte '=' && !isSpace b

/-
  The bytes of one attribute, the place after its closing
  quote and the bytes from there on.
-/
structure RawAttribute where
  key : Bytes
  value : Bytes
  next : Nat
  rest : Bytes
deriving DecidableEq, Repr

/- The value after an `=`, whose next byte stands at `place`. -/
def takeValue
    (key : Bytes)
    (place : Nat)
    (bs : Bytes) : Except AttributeFault RawAttribute :=
  let start := place + (bs.takeWhile isSpace).length
  match bs.dropWhile isSpace with
  | [] => .error (.missingValue start)
  | quote :: rest =>
      if quote = byte '"' ∨ quote = byte '\'' then
        let value := rest.takeWhile (· ≠ quote)
        let stop := start + 1 + value.length
        match rest.dropWhile (· ≠ quote) with
        | [] =>
            .error (.missingQuote stop
              (Char.ofNat quote.toNat))
        | _ :: rest => .ok ⟨key, value, stop + 1, rest⟩
      else
        .error (.unquotedValue start)

/-
  The attribute whose key starts with byte `b` at `place`.
  The first byte belongs to the key whatever it is.  `seen`
  holds the earlier keys and their places.
-/
def takeAttribute
    (seen : List (Bytes × Nat))
    (place : Nat)
    (b : UInt8)
    (bs : Bytes) : Except AttributeFault RawAttribute :=
  let key := b :: bs.takeWhile inKey
  let tail := bs.dropWhile inKey
  let stop := place + key.length +
    (tail.takeWhile isSpace).length
  match tail.dropWhile isSpace with
  | [] => .error (.missingEquals stop)
  | e :: rest =>
      if e = byte '=' then
        match seen.lookup key with
        | some earlier => .error (.duplicated place earlier)
        | none => takeValue key (stop + 1) rest
      else
        .error (.missingEquals stop)

/- Dropping from the front never lengthens a list. -/
theorem length_dropWhile_le
    (p : UInt8 → Bool)
    (bs : Bytes) :
    (bs.dropWhile p).length ≤ bs.length :=
  (List.dropWhile_sublist p).length_le

/- Taking a value leaves fewer bytes. -/
theorem length_rest_takeValue
    {key : Bytes}
    {place : Nat}
    {bs : Bytes}
    {raw : RawAttribute}
    (hTake : takeValue key place bs = .ok raw) :
    raw.rest.length < bs.length := by
  unfold takeValue at hTake
  have hOuter := length_dropWhile_le isSpace bs
  split at hTake
  · cases hTake
  · rename_i quote rest hSplit
    rw [hSplit] at hOuter
    have hInner := length_dropWhile_le (· ≠ quote) rest
    split at hTake
    · simp only at hTake
      split at hTake
      · cases hTake
      · rename_i hRest
        rw [hRest] at hInner
        simp only [Except.ok.injEq] at hTake
        rw [← hTake]
        simp only [List.length_cons] at hOuter hInner ⊢
        omega
    · cases hTake

/- Taking an attribute leaves fewer bytes. -/
theorem length_rest_takeAttribute
    {seen : List (Bytes × Nat)}
    {place : Nat}
    {b : UInt8}
    {bs : Bytes}
    {raw : RawAttribute}
    (hTake : takeAttribute seen place b bs = .ok raw) :
    raw.rest.length < bs.length := by
  unfold takeAttribute at hTake
  have hKey := length_dropWhile_le inKey bs
  have hGap := length_dropWhile_le isSpace
    (bs.dropWhile inKey)
  simp only at hTake
  split at hTake
  · cases hTake
  · rename_i hSplit
    rw [hSplit] at hGap
    split at hTake
    · split at hTake
      · cases hTake
      · have hValue := length_rest_takeValue hTake
        simp only [List.length_cons] at hGap
        omega
    · cases hTake

/-
  The attributes in `bs`, whose first byte stands at `place`
  of the tag's content.
-/
def readAttributes
    (seen : List (Bytes × Nat))
    (place : Nat)
    (bs : Bytes) : Except Fault (List Attribute) :=
  let start := place + (bs.takeWhile isSpace).length
  match _hKey : bs.dropWhile isSpace with
  | [] => .ok []
  | b :: tail =>
      match _hRaw : takeAttribute seen start b tail with
      | .error fault => .error (.attribute fault)
      | .ok raw => do
          let value ← readText raw.value
          let others ← readAttributes
            (seen ++ [(raw.key, start)]) raw.next raw.rest
          return ⟨Utf8.decodeLossy raw.key, value⟩ :: others
termination_by bs.length
decreasing_by
  have hGap := length_dropWhile_le isSpace bs
  have hRest := length_rest_takeAttribute _hRaw
  rw [_hKey] at hGap
  simp only [List.length_cons] at hGap
  omega

/- The attributes of a tag with the given content. -/
def attributesOf
    (content : Bytes) : Except Fault (List Attribute) :=
  readAttributes [] (tagName content).length
    (tagFields content)

end Markup

end AutomataStore
