/-
  UTF-8 as lists of bytes.

  `Utf8.next` takes one character off the front of a list of
  bytes.  Where no character starts it says how long the
  ill-formed part is: the longest part that could still have
  become a character.  `Utf8.decode` stops at the first such
  part, `Utf8.decodeLossy` puts one U+FFFD in its place.

  Key definitions include:
    * `Utf8.encode`
    * `Utf8.next`
    * `Utf8.decode`
    * `Utf8.decodeLossy`

  Correctness is proven by:
    * `Utf8.next_encodeChar`
    * `Utf8.decodeChars_encodeChars`
-/

------------------------------------------------------------
-- Encoding
------------------------------------------------------------

namespace AutomataStore

/- The bytes of a file or of a part of it. -/
abbrev Bytes := List UInt8

namespace Utf8

/- One character takes one to four bytes, leading bits first. -/
def encodeChar (c : Char) : Bytes :=
  let n := c.toNat
  if n < 0x80 then
    [UInt8.ofNat n]
  else if n < 0x800 then
    [UInt8.ofNat (0xC0 + n / 64),
     UInt8.ofNat (0x80 + n % 64)]
  else if n < 0x10000 then
    [UInt8.ofNat (0xE0 + n / 4096),
     UInt8.ofNat (0x80 + n / 64 % 64),
     UInt8.ofNat (0x80 + n % 64)]
  else
    [UInt8.ofNat (0xF0 + n / 262144),
     UInt8.ofNat (0x80 + n / 4096 % 64),
     UInt8.ofNat (0x80 + n / 64 % 64),
     UInt8.ofNat (0x80 + n % 64)]

/- The bytes of a list of characters. -/
def encodeChars (cs : List Char) : Bytes :=
  cs.flatMap encodeChar

/- The bytes of a text. -/
def encode (s : String) : Bytes :=
  encodeChars s.toList

------------------------------------------------------------
-- Taking One Character
------------------------------------------------------------

/-
  What stands at the front of a list of bytes: a character,
  an ill-formed part of some bytes, or the beginning of a
  character that the end of the list cuts off.
-/
inductive Next where
  | char (c : Char) (rest : Bytes)
  | illFormed (width : Nat) (rest : Bytes)
  | cut
deriving DecidableEq, Repr

/-
  Read one continuation byte between `lo` and `hi` and go on
  with its six bits appended to `acc`.  `width` counts the
  bytes read before it.
-/
def tail
    (lo hi : UInt8)
    (width acc : Nat)
    (bs : Bytes)
    (k : Nat → Bytes → Next) : Next :=
  match bs with
  | [] => .cut
  | b :: rest =>
      if lo ≤ b ∧ b ≤ hi then
        k (acc * 64 + (b.toNat - 0x80)) rest
      else
        .illFormed width (b :: rest)

/- The character with code point `n`, once its bytes are read. -/
def finish (n : Nat) (rest : Bytes) : Next :=
  .char (Char.ofNat n) rest

/- One more byte completes the character. -/
def lastTail (width acc : Nat) (bs : Bytes) : Next :=
  tail 0x80 0xBF width acc bs finish

/- Two more bytes complete the character. -/
def lastTwoTails (width acc : Nat) (bs : Bytes) : Next :=
  tail 0x80 0xBF width acc bs fun acc rest =>
    lastTail (width + 1) acc rest

/-
  Take the character that starts with byte `b`.  The range of
  the second byte keeps out overlong forms, surrogates and
  code points past U+10FFFF.
-/
def next (b : UInt8) (bs : Bytes) : Next :=
  if b < 0x80 then
    finish b.toNat bs
  else if b < 0xC2 then
    .illFormed 1 bs
  else if b < 0xE0 then
    lastTail 1 (b.toNat - 0xC0) bs
  else if b < 0xF0 then
    let lo := if b = 0xE0 then 0xA0 else 0x80
    let hi := if b = 0xED then 0x9F else 0xBF
    tail lo hi 1 (b.toNat - 0xE0) bs fun acc rest =>
      lastTail 2 acc rest
  else if b < 0xF5 then
    let lo := if b = 0xF0 then 0x90 else 0x80
    let hi := if b = 0xF4 then 0x8F else 0xBF
    tail lo hi 1 (b.toNat - 0xF0) bs fun acc rest =>
      lastTwoTails 2 acc rest
  else
    .illFormed 1 bs

/- What is left after the front of `bs` was taken. -/
def Next.rest : Next → Bytes
  | .char _ rest => rest
  | .illFormed _ rest => rest
  | .cut => []

/- Reading a continuation byte never lengthens the rest. -/
theorem length_rest_tail_le
    {lo hi : UInt8}
    {width acc : Nat}
    {bs : Bytes}
    {k : Nat → Bytes → Next}
    (hk : ∀ n r, (k n r).rest.length ≤ r.length) :
    (tail lo hi width acc bs k).rest.length ≤ bs.length := by
  cases bs with
  | nil => simp [tail, Next.rest]
  | cons b bs =>
      simp only [tail]
      split
      · exact Nat.le_succ_of_le (hk _ _)
      · simp [Next.rest]

/- Taking a character never lengthens the rest. -/
theorem length_rest_next_le
    (b : UInt8)
    (bs : Bytes) :
    (next b bs).rest.length ≤ bs.length := by
  have hFinish :
      ∀ n r, (finish n r).rest.length ≤ r.length := by
    intro n r
    exact Nat.le_refl _
  have hLast :
      ∀ w n r, (lastTail w n r).rest.length ≤ r.length :=
    fun _ _ _ => length_rest_tail_le hFinish
  unfold next
  split
  · exact hFinish _ _
  split
  · exact Nat.le_refl _
  split
  · exact hLast _ _ _
  split
  · exact length_rest_tail_le (hLast 2)
  split
  · exact length_rest_tail_le fun n r =>
      length_rest_tail_le (hLast _)
  · exact Nat.le_refl _

------------------------------------------------------------
-- Decoding
------------------------------------------------------------

/-
  Why bytes are no UTF-8: an ill-formed part of one to three
  bytes, or a character cut off by the end.  `offset` is where
  the part begins.
-/
inductive Fault where
  | illFormed (width offset : Nat)
  | incomplete (offset : Nat)
deriving DecidableEq, Repr

/- The text of a decoding fault. -/
def Fault.message : Fault → String
  | .illFormed width offset =>
      s!"invalid utf-8 sequence of {width} bytes " ++
        s!"from index {offset}"
  | .incomplete offset =>
      s!"incomplete utf-8 byte sequence from index {offset}"

/- Decode bytes whose first one stands at `offset`. -/
def decodeFrom
    (offset : Nat) : Bytes → Except Fault (List Char)
  | [] => .ok []
  | b :: bs =>
      match _h : next b bs with
      | .char c rest =>
          (decodeFrom (offset + c.utf8Size) rest).map (c :: ·)
      | .illFormed width _ => .error (.illFormed width offset)
      | .cut => .error (.incomplete offset)
termination_by bs => bs.length
decreasing_by
  have hLe := length_rest_next_le b bs
  rw [_h] at hLe
  exact Nat.lt_succ_of_le hLe

/- The characters that the bytes spell, if they are UTF-8. -/
def decodeChars (bs : Bytes) : Except Fault (List Char) :=
  decodeFrom 0 bs

/- The text that the bytes spell, if they are UTF-8. -/
def decode (bs : Bytes) : Except Fault String :=
  (decodeChars bs).map String.ofList

/- U+FFFD stands for bytes that spell no character. -/
def replacement : Char := Char.ofNat 0xFFFD

/- Decode with one replacement for each ill-formed part. -/
def decodeLossyChars : Bytes → List Char
  | [] => []
  | b :: bs =>
      match _h : next b bs with
      | .char c rest => c :: decodeLossyChars rest
      | .illFormed _ rest =>
          replacement :: decodeLossyChars rest
      | .cut => [replacement]
termination_by bs => bs.length
decreasing_by
  all_goals
    have hLe := length_rest_next_le b bs
    rw [_h] at hLe
    exact Nat.lt_succ_of_le hLe

/- The text of any bytes. -/
def decodeLossy (bs : Bytes) : String :=
  String.ofList (decodeLossyChars bs)

------------------------------------------------------------
-- Encoding Reads Back
------------------------------------------------------------

/- A continuation byte of six bits is read back. -/
theorem tail_ofNat
    {lo hi : UInt8}
    {width acc n : Nat}
    {rest : Bytes}
    {k : Nat → Bytes → Next}
    (hn : n < 64)
    (hLo : lo.toNat ≤ 0x80 + n)
    (hHi : 0x80 + n ≤ hi.toNat) :
    tail lo hi width acc (UInt8.ofNat (0x80 + n) :: rest) k =
      k (acc * 64 + n) rest := by
  have hNat : (UInt8.ofNat (0x80 + n)).toNat = 0x80 + n := by
    simp only [UInt8.toNat_ofNat']
    omega
  simp only [tail, UInt8.le_iff_toNat_le, hNat]
  rw [if_pos ⟨hLo, hHi⟩, Nat.add_sub_cancel_left]

/- A leading byte carries the bits it was made of. -/
theorem toNat_leadingByte
    {lead bits : Nat}
    (hBits : lead + bits < 256) :
    (UInt8.ofNat (lead + bits)).toNat = lead + bits := by
  simp only [UInt8.toNat_ofNat']
  omega

/- A character of one byte is taken off the front. -/
theorem next_oneByte
    {n : Nat}
    (hn : n < 0x80)
    (rest : Bytes) :
    next (UInt8.ofNat n) rest = finish n rest := by
  have hNat : (UInt8.ofNat n).toNat = n := by
    simp only [UInt8.toNat_ofNat']
    omega
  simp [next, UInt8.lt_iff_toNat_lt, hNat, hn]

/- A character of two bytes is taken off the front. -/
theorem next_twoBytes
    {n : Nat}
    (hLow : 0x80 ≤ n)
    (hHigh : n < 0x800)
    (rest : Bytes) :
    next (UInt8.ofNat (0xC0 + n / 64))
        (UInt8.ofNat (0x80 + n % 64) :: rest) =
      finish n rest := by
  have hNat :
      (UInt8.ofNat (0xC0 + n / 64)).toNat = 0xC0 + n / 64 :=
    toNat_leadingByte (by omega)
  simp only [next, UInt8.lt_iff_toNat_lt, hNat]
  rw [if_neg (by simp; omega), if_neg (by simp; omega),
    if_pos (by simp; omega)]
  simp only [lastTail]
  rw [tail_ofNat (by omega) (by simp) (by simp; omega)]
  congr 1
  omega

/- A character of three bytes is taken off the front. -/
theorem next_threeBytes
    {n : Nat}
    (hLow : 0x800 ≤ n)
    (hHigh : n < 0x10000)
    (hValid : n < 0xD800 ∨ 0xDFFF < n)
    (rest : Bytes) :
    next (UInt8.ofNat (0xE0 + n / 4096))
        (UInt8.ofNat (0x80 + n / 64 % 64) ::
          UInt8.ofNat (0x80 + n % 64) :: rest) =
      finish n rest := by
  have hNat :
      (UInt8.ofNat (0xE0 + n / 4096)).toNat =
        0xE0 + n / 4096 :=
    toNat_leadingByte (by omega)
  simp only [next, UInt8.lt_iff_toNat_lt, hNat,
    ← UInt8.toNat_inj]
  rw [if_neg (by simp; omega), if_neg (by simp; omega),
    if_neg (by simp), if_pos (by simp; omega)]
  -- The first byte bounds the second one from both sides.
  have hLo :
      (if 0xE0 + n / 4096 = UInt8.toNat 0xE0
        then (0xA0 : UInt8) else 0x80).toNat ≤
        0x80 + n / 64 % 64 := by
    simp only [apply_ite UInt8.toNat, UInt8.reduceToNat]
    split <;> omega
  have hHi :
      0x80 + n / 64 % 64 ≤
        (if 0xE0 + n / 4096 = UInt8.toNat 0xED
          then (0x9F : UInt8) else 0xBF).toNat := by
    simp only [apply_ite UInt8.toNat, UInt8.reduceToNat]
    split <;> omega
  rw [tail_ofNat (by omega) hLo hHi]
  simp only [lastTail]
  rw [tail_ofNat (by omega) (by simp) (by simp; omega)]
  congr 1
  omega

/- A character of four bytes is taken off the front. -/
theorem next_fourBytes
    {n : Nat}
    (hLow : 0x10000 ≤ n)
    (hHigh : n < 0x110000)
    (rest : Bytes) :
    next (UInt8.ofNat (0xF0 + n / 262144))
        (UInt8.ofNat (0x80 + n / 4096 % 64) ::
          UInt8.ofNat (0x80 + n / 64 % 64) ::
            UInt8.ofNat (0x80 + n % 64) :: rest) =
      finish n rest := by
  have hNat :
      (UInt8.ofNat (0xF0 + n / 262144)).toNat =
        0xF0 + n / 262144 :=
    toNat_leadingByte (by omega)
  simp only [next, UInt8.lt_iff_toNat_lt, hNat,
    ← UInt8.toNat_inj]
  rw [if_neg (by simp; omega), if_neg (by simp; omega),
    if_neg (by simp; omega), if_neg (by simp),
    if_pos (by simp; omega)]
  -- The first byte bounds the second one from both sides.
  have hLo :
      (if 0xF0 + n / 262144 = UInt8.toNat 0xF0
        then (0x90 : UInt8) else 0x80).toNat ≤
        0x80 + n / 4096 % 64 := by
    simp only [apply_ite UInt8.toNat, UInt8.reduceToNat]
    split <;> omega
  have hHi :
      0x80 + n / 4096 % 64 ≤
        (if 0xF0 + n / 262144 = UInt8.toNat 0xF4
          then (0x8F : UInt8) else 0xBF).toNat := by
    simp only [apply_ite UInt8.toNat, UInt8.reduceToNat]
    split <;> omega
  rw [tail_ofNat (by omega) hLo hHi]
  simp only [lastTwoTails, lastTail]
  rw [tail_ofNat (by omega) (by simp) (by simp; omega)]
  rw [tail_ofNat (by omega) (by simp) (by simp; omega)]
  congr 1
  omega

/- An encoded character is taken off the front again. -/
theorem next_encodeChar
    (c : Char)
    (rest : Bytes) :
    ∃ b bs,
      encodeChar c = b :: bs ∧
        next b (bs ++ rest) = .char c rest := by
  have hBound : Nat.isValidChar c.toNat := c.valid
  have hFinish : finish c.toNat rest = .char c rest := by
    rw [finish, Char.ofNat_toNat]
  rw [← hFinish]
  simp only [encodeChar]
  generalize c.toNat = n at hBound
  unfold Nat.isValidChar at hBound
  by_cases h1 : n < 0x80
  · refine ⟨_, _, if_pos h1, ?_⟩
    exact next_oneByte h1 rest
  by_cases h2 : n < 0x800
  · refine ⟨_, _, by rw [if_neg h1, if_pos h2], ?_⟩
    exact next_twoBytes (by omega) h2 rest
  by_cases h3 : n < 0x10000
  · refine ⟨_, _, by rw [if_neg h1, if_neg h2, if_pos h3], ?_⟩
    exact next_threeBytes (by omega) h3 (by omega) rest
  · refine ⟨_, _, by rw [if_neg h1, if_neg h2, if_neg h3], ?_⟩
    exact next_fourBytes (by omega) (by omega) rest

/- Decoding reads back what encoding wrote. -/
theorem decodeFrom_encodeChars
    (cs : List Char)
    (offset : Nat) :
    decodeFrom offset (encodeChars cs) = .ok cs := by
  induction cs generalizing offset with
  | nil => simp [encodeChars, decodeFrom]
  | cons c cs ih =>
      rcases next_encodeChar c (encodeChars cs) with
        ⟨b, bs, hEq, hNext⟩
      have hSplit :
          encodeChars (c :: cs) =
            b :: (bs ++ encodeChars cs) := by
        simp [encodeChars, hEq]
      rw [hSplit, decodeFrom]
      split
      · rename_i c' rest h
        rw [hNext] at h
        cases h
        rw [ih]
        rfl
      · rename_i h
        rw [hNext] at h
        cases h
      · rename_i h
        rw [hNext] at h
        cases h

/- Characters survive encoding and decoding. -/
theorem decodeChars_encodeChars
    (cs : List Char) :
    decodeChars (encodeChars cs) = .ok cs :=
  decodeFrom_encodeChars cs 0

end Utf8

end AutomataStore
