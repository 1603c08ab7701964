import AutomataStore.Markup.Attribute
import AutomataStore.Proofs.EscapedText

/-
  Text in bytes.

  Encoded text decodes to itself, strictly and leniently, and
  its ASCII bytes stand for ASCII characters only.  Escaped
  text shows none of the characters that end a run of
  character data or a quoted value.

  Key definitions include:
    * `Utf8.IsEncoded`
    * `Markup.IsAscii`

  Main declarations:
    * `Utf8.decode_encode`, `Utf8.decodeLossy_encode`
    * `Utf8.decode_of_isEncoded`
    * `Markup.mem_of_byte_mem_encodeChars`
    * `Markup.infix_of_mark`
    * `Markup.readText_encode_eq_ok_iff`
    * `Markup.readText_encode_escape`
-/

------------------------------------------------------------
-- Encoded Text
------------------------------------------------------------

namespace AutomataStore

namespace Utf8

/- The bytes of two texts follow each other. -/
theorem encodeChars_append
    (cs ds : List Char) :
    encodeChars (cs ++ ds) =
      encodeChars cs ++ encodeChars ds :=
  List.flatMap_append

/- The bytes of two texts follow each other. -/
theorem encode_append
    (s t : String) :
    encode (s ++ t) = encode s ++ encode t := by
  simp [encode, encodeChars_append]

/- A text is the strict reading of its bytes. -/
theorem decode_encode
    (s : String) :
    decode (encode s) = .ok s := by
  simp [decode, encode, decodeChars_encodeChars, Except.map]

/- Characters are the lenient reading of their bytes. -/
theorem decodeLossyChars_encodeChars
    (cs : List Char) :
    decodeLossyChars (encodeChars cs) = cs := by
  induction cs with
  | nil => simp [encodeChars, decodeLossyChars]
  | cons c cs ih =>
      rcases next_encodeChar c (encodeChars cs) with
        ⟨b, bs, hEq, hNext⟩
      have hSplit :
          encodeChars (c :: cs) =
            b :: (bs ++ encodeChars cs) := by
        simp [encodeChars, hEq]
      rw [hSplit, decodeLossyChars]
      split
      · rename_i h
        rw [hNext] at h
        cases h
        rw [ih]
      · rename_i h
        rw [hNext] at h
        cases h
      · rename_i h
        rw [hNext] at h
        cases h

/- A text is the lenient reading of its bytes. -/
theorem decodeLossy_encode
    (s : String) :
    decodeLossy (encode s) = s := by
  simp [decodeLossy, encode, decodeLossyChars_encodeChars]

/- Different texts have different bytes. -/
theorem encode_injective
    {s t : String}
    (h : encode s = encode t) :
    s = t := by
  have hDecode := congrArg decodeLossy h
  rwa [decodeLossy_encode, decodeLossy_encode] at hDecode

/- Bytes that are the encoding of some text. -/
def IsEncoded (bs : Bytes) : Prop :=
  ∃ s, bs = encode s

theorem isEncoded_encode
    (s : String) :
    IsEncoded (encode s) :=
  ⟨s, rfl⟩

theorem isEncoded_append
    {bs cs : Bytes}
    (hbs : IsEncoded bs)
    (hcs : IsEncoded cs) :
    IsEncoded (bs ++ cs) := by
  rcases hbs with ⟨s, rfl⟩
  rcases hcs with ⟨t, rfl⟩
  exact ⟨s ++ t, (encode_append s t).symm⟩

/- Pieces of encoded text make up encoded text. -/
theorem isEncoded_flatMap
    {α : Type}
    {l : List α}
    {f : α → Bytes}
    (h : ∀ a ∈ l, IsEncoded (f a)) :
    IsEncoded (l.flatMap f) := by
  induction l with
  | nil => exact isEncoded_encode ""
  | cons a l ih =>
      rw [List.flatMap_cons]
      apply isEncoded_append (h a (List.mem_cons_self ..))
      apply ih
      intro b hb
      exact h b (List.mem_cons_of_mem _ hb)

/- Encoded text is read as the same text either way. -/
theorem decode_of_isEncoded
    {bs : Bytes}
    (h : IsEncoded bs) :
    decode bs = .ok (decodeLossy bs) ∧
      encode (decodeLossy bs) = bs := by
  rcases h with ⟨s, rfl⟩
  rw [decodeLossy_encode, decode_encode]
  exact ⟨rfl, rfl⟩

end Utf8

------------------------------------------------------------
-- ASCII Bytes
------------------------------------------------------------

namespace Markup

/- The byte of an ASCII character carries its number. -/
theorem toNat_byte
    {m : Char}
    (hm : m.toNat < 0x80) :
    (byte m).toNat = m.toNat := by
  simp only [byte, UInt8.toNat_ofNat']
  omega

/- Only characters of ASCII. -/
def IsAscii (cs : List Char) : Prop :=
  ∀ c ∈ cs, c.toNat < 0x80

instance
    (cs : List Char) :
    Decidable (IsAscii cs) :=
  List.decidableBAll (fun c : Char => c.toNat < 0x80) cs

/- An ASCII character is its own byte. -/
theorem encodeChar_eq_byte
    {m : Char}
    (hm : m.toNat < 0x80) :
    Utf8.encodeChar m = [byte m] := by
  simp [Utf8.encodeChar, byte, hm]

/- ASCII characters are encoded as their bytes. -/
theorem encodeChars_eq_mark
    {ms : List Char}
    (hms : IsAscii ms) :
    Utf8.encodeChars ms = mark ms := by
  induction ms with
  | nil => rfl
  | cons m ms ih =>
      have hm := hms m (List.mem_cons_self ..)
      have hTail :=
        ih fun n hn => hms n (List.mem_cons_of_mem _ hn)
      rw [Utf8.encodeChars, List.flatMap_cons,
        encodeChar_eq_byte hm, ← Utf8.encodeChars, hTail]
      rfl

/- ASCII bytes are the encoding of their characters. -/
theorem isEncoded_mark
    {ms : List Char}
    (hms : IsAscii ms) :
    Utf8.IsEncoded (mark ms) :=
  ⟨String.ofList ms, by
    rw [Utf8.encode, String.toList_ofList,
      encodeChars_eq_mark hms]⟩

/- All bytes of a wider character lie past the ASCII range. -/
theorem le_toNat_of_mem_encodeChar
    {c : Char}
    {b : UInt8}
    (hc : 0x80 ≤ c.toNat)
    (hb : b ∈ Utf8.encodeChar c) :
    0x80 ≤ b.toNat := by
  have hValid : Nat.isValidChar c.toNat := c.valid
  unfold Nat.isValidChar at hValid
  simp only [Utf8.encodeChar, if_neg (Nat.not_lt.mpr hc)]
    at hb
  split at hb
  · simp only [List.mem_cons, List.not_mem_nil,
      or_false] at hb
    rcases hb with rfl | rfl <;>
      simp only [UInt8.toNat_ofNat'] <;> omega
  split at hb
  · simp only [List.mem_cons, List.not_mem_nil,
      or_false] at hb
    rcases hb with rfl | rfl | rfl <;>
      simp only [UInt8.toNat_ofNat'] <;> omega
  · simp only [List.mem_cons, List.not_mem_nil,
      or_false] at hb
    rcases hb with rfl | rfl | rfl | rfl <;>
      simp only [UInt8.toNat_ofNat'] <;> omega

/- An ASCII byte belongs to no other character. -/
theorem eq_of_byte_mem_encodeChar
    {m c : Char}
    (hm : m.toNat < 0x80)
    (h : byte m ∈ Utf8.encodeChar c) :
    c = m := by
  by_cases hc : c.toNat < 0x80
  · rw [encodeChar_eq_byte hc, List.mem_singleton] at h
    apply Char.toNat_inj.mp
    rw [← toNat_byte hc, ← toNat_byte hm, h]
  · have hWide :=
      le_toNat_of_mem_encodeChar (Nat.le_of_not_lt hc) h
    rw [toNat_byte hm] at hWide
    omega

/- An ASCII byte of a text is a character of it. -/
theorem mem_of_byte_mem_encodeChars
    {m : Char}
    (hm : m.toNat < 0x80)
    {cs : List Char}
    (h : byte m ∈ Utf8.encodeChars cs) :
    m ∈ cs := by
  rcases List.mem_flatMap.mp h with ⟨c, hc, hByte⟩
  rw [← eq_of_byte_mem_encodeChar hm hByte]
  exact hc

/- ASCII bytes at the front of a text are characters of it. -/
theorem prefix_of_mark
    {ms : List Char}
    (hms : IsAscii ms)
    {cs : List Char}
    (h : mark ms <+: Utf8.encodeChars cs) :
    ms <+: cs := by
  induction ms generalizing cs with
  | nil => exact List.nil_prefix
  | cons m ms ih =>
      have hm := hms m (List.mem_cons_self ..)
      cases cs with
      | nil =>
          exact absurd (List.prefix_nil.mp h) (by simp [mark])
      | cons c cs =>
          have hEncode :
              Utf8.encodeChars (c :: cs) =
                Utf8.encodeChar c ++ Utf8.encodeChars cs := by
            simp [Utf8.encodeChars]
          have hMem : byte m ∈ Utf8.encodeChar c := by
            rcases Utf8.next_encodeChar c [] with
              ⟨b, bs, hChar, _⟩
            rw [hEncode, hChar, List.cons_append] at h
            have hHead := (List.cons_prefix_cons.mp h).1
            rw [hChar, ← hHead]
            exact List.mem_cons_self ..
          have hc := eq_of_byte_mem_encodeChar hm hMem
          subst hc
          rw [hEncode, encodeChar_eq_byte hm,
            List.singleton_append] at h
          have hTail := (List.cons_prefix_cons.mp h).2
          apply List.cons_prefix_cons.mpr
          refine ⟨rfl, ih ?_ hTail⟩
          intro n hn
          exact hms n (List.mem_cons_of_mem _ hn)

/- What starts with a byte lies behind bytes without it. -/
theorem infix_of_infix_append
    {b : UInt8}
    {bs before after : Bytes}
    (hBefore : b ∉ before)
    (h : b :: bs <:+: before ++ after) :
    b :: bs <:+: after := by
  induction before with
  | nil => exact h
  | cons c before ih =>
      rw [List.mem_cons, not_or] at hBefore
      rw [List.cons_append, List.infix_cons_iff] at h
      rcases h with hPrefix | hInner
      · have hHead := (List.cons_prefix_cons.mp hPrefix).1
        exact absurd hHead hBefore.1
      · exact ih hBefore.2 hInner

/- ASCII bytes inside a text are characters inside it. -/
theorem infix_of_mark
    {m : Char}
    {ms : List Char}
    (hms : IsAscii (m :: ms))
    {cs : List Char}
    (h : mark (m :: ms) <:+: Utf8.encodeChars cs) :
    m :: ms <:+: cs := by
  have hm := hms m (List.mem_cons_self ..)
  induction cs with
  | nil =>
      exact absurd (List.infix_nil.mp h) (by simp [mark])
  | cons c cs ih =>
      have hEncode :
          Utf8.encodeChars (c :: cs) =
            Utf8.encodeChar c ++ Utf8.encodeChars cs := by
        simp [Utf8.encodeChars]
      by_cases hc : c = m
      · subst hc
        have hWhole := h
        rw [hEncode, encodeChar_eq_byte hm,
          List.singleton_append, List.infix_cons_iff] at h
        rcases h with hPrefix | hInner
        · apply List.IsPrefix.isInfix
          apply prefix_of_mark hms
          rw [hEncode, encodeChar_eq_byte hm,
            List.singleton_append]
          exact hPrefix
        · exact List.infix_cons (ih hInner)
      · -- No place inside another character can match.
        apply List.infix_cons
        apply ih
        rw [hEncode] at h
        apply infix_of_infix_append _ h
        intro hb
        exact hc (eq_of_byte_mem_encodeChar hm hb)

------------------------------------------------------------
-- Escaped Text
------------------------------------------------------------

/- An escaped character is none of the five marks but `&`. -/
theorem not_mem_escapeChar
    {m : Char}
    (hm : m ∈ ['<', '>', '\'', '"'])
    (c : Char) :
    m ∉ Reference.escapeChar c := by
  unfold Reference.escapeChar
  simp only [List.mem_cons, List.not_mem_nil, or_false] at hm
  rcases hm with rfl | rfl | rfl | rfl <;>
    (repeat' split) <;> simp_all [eq_comm]

/- No byte of escaped text is one of the four marks. -/
theorem byte_not_mem_encode_escape
    {m : Char}
    (hm : m ∈ ['<', '>', '\'', '"'])
    (s : String) :
    byte m ∉ Utf8.encode (Reference.escape s) := by
  intro h
  have hAscii : m.toNat < 0x80 := by
    simp only [List.mem_cons, List.not_mem_nil,
      or_false] at hm
    rcases hm with rfl | rfl | rfl | rfl <;> decide
  have hMem := mem_of_byte_mem_encodeChars hAscii h
  simp only [Reference.escape, String.toList_ofList,
    Reference.escapeChars, List.mem_flatMap] at hMem
  rcases hMem with ⟨c, _, hc⟩
  exact not_mem_escapeChar hm c hc

/- Escaping works character by character. -/
theorem escape_append
    (s t : String) :
    Reference.escape (s ++ t) =
      Reference.escape s ++ Reference.escape t := by
  apply String.toList_inj.mp
  simp [Reference.escape, Reference.escapeChars]

/-
  Character data without `<` is read as a text exactly if it
  writes the text.
-/
theorem readText_encode_eq_ok_iff
    {content written : String}
    (hLess : '<' ∉ written.toList) :
    readText (Utf8.encode written) = .ok content ↔
      Reference.Escapes content.toList written.toList := by
  rw [← Reference.expandChars_eq_ok_iff hLess]
  simp only [readText, Utf8.decode_encode, Reference.expand]
  cases Reference.expandChars written.toList with
  | error fault => simp [Except.map]
  | ok cs =>
      simp only [Except.map, Except.ok.injEq]
      rw [← String.toList_inj, String.toList_ofList]

/- What writes a text is read as the text. -/
theorem readText_of_escapes
    {content written : String}
    (hEscapes :
      Reference.Escapes content.toList written.toList) :
    readText (Utf8.encode written) = .ok content :=
  (readText_encode_eq_ok_iff
    (Reference.less_not_mem_of_escapes hEscapes)).mpr
      hEscapes

/- Escaped text is read back. -/
theorem readText_encode_escape
    (s : String) :
    readText (Utf8.encode (Reference.escape s)) = .ok s :=
  readText_of_escapes (Reference.escapes_escape s)

/- No byte of what writes a text is the start of markup. -/
theorem less_not_mem_encode_of_escapes
    {content written : String}
    (hEscapes :
      Reference.Escapes content.toList written.toList) :
    byte '<' ∉ Utf8.encode written := by
  intro h
  have hMem := mem_of_byte_mem_encodeChars (by decide) h
  exact Reference.less_not_mem_of_escapes hEscapes hMem

/- Only the empty text escapes to nothing. -/
theorem encode_escape_eq_nil_iff
    (s : String) :
    Utf8.encode (Reference.escape s) = [] ↔ s = "" := by
  constructor
  · intro h
    have hRead := readText_encode_escape s
    rw [h] at hRead
    have hEmpty := readText_encode_escape ""
    exact Except.ok.inj (hRead.symm.trans hEmpty)
  · intro h
    subst h
    rfl

end Markup

end AutomataStore
