import AutomataStore.Proofs.WrittenTags

/-
  Pieces of encoded text are encoded text.

  Markup is cut at ASCII bytes only, which belong to no other
  character.  So the pieces of a file of text are texts: the
  content of every token and the keys of every tag.

  Key definitions include:
    * `Token.OfText`

  Main declarations:
    * `Utf8.isEncoded_split`
    * `Markup.ofText_of_mem_tokens`
    * `Markup.names_of_readAttributes`
    * `Markup.nodup_of_attributesOf`
-/

------------------------------------------------------------
-- Cutting at ASCII Bytes
------------------------------------------------------------

namespace AutomataStore

open Markup (byte mark)

namespace Utf8

/- An ASCII byte of a character is all of the character. -/
theorem encodeChar_of_mem
    {b : UInt8}
    (hb : b.toNat < 0x80)
    {c : Char}
    (hMem : b ∈ encodeChar c) :
    encodeChar c = [b] := by
  by_cases hc : c.toNat < 0x80
  · have hChar := Markup.encodeChar_eq_byte hc
    rw [hChar, List.mem_singleton] at hMem
    rw [hChar, hMem]
  · have hWide :=
      Markup.le_toNat_of_mem_encodeChar
        (Nat.le_of_not_lt hc) hMem
    omega

/-
  An ASCII byte in the bytes of characters is one of the
  characters, with the others before and after it.
-/
theorem exists_split_of_encodeChars
    {b : UInt8}
    (hb : b.toNat < 0x80)
    {cs : List Char}
    {before after : Bytes}
    (hCut : encodeChars cs = before ++ b :: after) :
    ∃ front c back,
      encodeChars front = before ∧
        encodeChar c = [b] ∧
        encodeChars back = after := by
  induction cs generalizing before with
  | nil => simp [encodeChars] at hCut
  | cons c cs ih =>
      have hSplit :
          encodeChar c ++ encodeChars cs =
            before ++ b :: after := by
        simpa [encodeChars] using hCut
      have hLater :
          ∀ more,
            before = encodeChar c ++ more →
              encodeChars cs = more ++ b :: after →
              ∃ front d back,
                encodeChars front = before ∧
                  encodeChar d = [b] ∧
                  encodeChars back = after := by
        intro more hBefore hRest
        rcases ih hRest with
          ⟨front, d, back, hFront, hChar, hBack⟩
        refine ⟨c :: front, d, back, ?_, hChar, hBack⟩
        rw [hBefore, ← hFront]
        simp [encodeChars]
      rcases List.append_eq_append_iff.mp hSplit with
        ⟨more, hBefore, hRest⟩ | ⟨more, hChar, hRest⟩
      · exact hLater more hBefore hRest
      · cases more with
        | nil =>
            rw [List.append_nil] at hChar
            exact hLater [] (by simp [hChar])
              (by simpa using hRest.symm)
        | cons d more =>
            -- The byte lies in the first character.
            obtain ⟨rfl, hAfter⟩ := List.cons.inj hRest
            have hOnly : encodeChar c = [b] :=
              encodeChar_of_mem hb (by simp [hChar])
            rw [hOnly] at hChar
            have hBefore : before = [] ∧ more = [] := by
              have hLength := congrArg List.length hChar
              simp only [List.length_append,
                List.length_cons, List.length_nil]
                at hLength
              exact
                ⟨List.length_eq_zero_iff.mp (by omega),
                  List.length_eq_zero_iff.mp (by omega)⟩
            refine ⟨[], c, cs, ?_, hOnly, ?_⟩
            · simp [encodeChars, hBefore.1]
            · simp [hAfter, hBefore.2]

/- The bytes of characters are encoded text. -/
theorem isEncoded_encodeChars
    (cs : List Char) :
    IsEncoded (encodeChars cs) :=
  ⟨String.ofList cs, by simp [encode]⟩

/- Encoded text is cut into texts at an ASCII byte. -/
theorem isEncoded_split
    {b : UInt8}
    (hb : b.toNat < 0x80)
    {before after : Bytes}
    (h : IsEncoded (before ++ b :: after)) :
    IsEncoded before ∧ IsEncoded (b :: after) ∧
      IsEncoded after := by
  rcases h with ⟨s, hs⟩
  rcases exists_split_of_encodeChars hb hs.symm with
    ⟨front, c, back, hFront, hChar, hBack⟩
  refine ⟨?_, ?_, ?_⟩
  · rw [← hFront]
    exact isEncoded_encodeChars front
  · have hBoth : encodeChars (c :: back) = b :: after := by
      simp [encodeChars, hChar, ← hBack]
    rw [← hBoth]
    exact isEncoded_encodeChars (c :: back)
  · rw [← hBack]
    exact isEncoded_encodeChars back

/- What follows an ASCII byte of encoded text is text. -/
theorem isEncoded_of_cons
    {b : UInt8}
    (hb : b.toNat < 0x80)
    {bs : Bytes}
    (h : IsEncoded (b :: bs)) :
    IsEncoded bs := by
  have hSplit : IsEncoded ([] ++ b :: bs) := h
  exact (isEncoded_split hb hSplit).2.2

/- Leaving ASCII bytes out at the front leaves text. -/
theorem isEncoded_of_append
    {front bs : Bytes}
    (hFront : ∀ b ∈ front, b.toNat < 0x80)
    (h : IsEncoded (front ++ bs)) :
    IsEncoded bs := by
  induction front with
  | nil => exact h
  | cons b front ih =>
      rw [List.forall_mem_cons] at hFront
      exact ih hFront.2 (isEncoded_of_cons hFront.1 h)

/- Text up to the first byte of a kind that is ASCII. -/
theorem isEncoded_takeWhile
    {p : UInt8 → Bool}
    (hStop : ∀ b, p b = false → b.toNat < 0x80)
    {bs : Bytes}
    (h : IsEncoded bs) :
    IsEncoded (bs.takeWhile p) ∧
      IsEncoded (bs.dropWhile p) := by
  have hWhole :=
    List.takeWhile_append_dropWhile (p := p) (l := bs)
  cases hDrop : bs.dropWhile p with
  | nil =>
      rw [hDrop, List.append_nil] at hWhole
      rw [hWhole]
      exact ⟨h, isEncoded_encode ""⟩
  | cons b rest =>
      have hb : p b = false := by
        have hHead := List.head?_dropWhile_not p bs
        simpa [hDrop] using hHead
      rw [hDrop] at hWhole
      rw [← hWhole] at h
      have hSplit := isEncoded_split (hStop b hb) h
      exact ⟨hSplit.1, hSplit.2.1⟩

/- Leaving bytes of a kind that is ASCII out at the front. -/
theorem isEncoded_dropWhile
    {p : UInt8 → Bool}
    (hAscii : ∀ b, p b = true → b.toNat < 0x80)
    {bs : Bytes}
    (h : IsEncoded bs) :
    IsEncoded (bs.dropWhile p) := by
  have hWhole :=
    List.takeWhile_append_dropWhile (p := p) (l := bs)
  rw [← hWhole] at h
  apply isEncoded_of_append _ h
  intro b hb
  exact hAscii b
    (List.all_eq_true.mp List.all_takeWhile b hb)

/- A byte order mark is left out of encoded text. -/
theorem isEncoded_of_byteOrderMark
    {bs : Bytes}
    (h : IsEncoded (Markup.byteOrderMark ++ bs)) :
    IsEncoded bs := by
  rcases h with ⟨s, hs⟩
  cases hChars : s.toList with
  | nil =>
      rw [encode, hChars] at hs
      cases hs
  | cons c cs =>
      rcases next_encodeChar c (encodeChars cs) with
        ⟨b, rest, hChar, hNext⟩
      have hEncode :
          encode s = b :: (rest ++ encodeChars cs) := by
        rw [encode, hChars, encodeChars, List.flatMap_cons,
          hChar]
        rfl
      rw [hEncode] at hs
      obtain ⟨rfl, hRest⟩ := List.cons.inj hs
      have hMark :
          next 0xEF (0xBB :: 0xBF :: bs) =
            .char (Char.ofNat 0xFEFF) bs := by
        rfl
      rw [← hRest] at hNext
      have hTail :=
        congrArg Next.rest (hMark.symm.trans hNext)
      have hSame : bs = encodeChars cs := hTail
      rw [hSame]
      exact isEncoded_encodeChars cs

end Utf8

------------------------------------------------------------
-- Tokens
------------------------------------------------------------

namespace Markup

/- An ASCII mark has ASCII bytes. -/
theorem toNat_lt_of_mem_mark
    {ms : List Char}
    (hms : IsAscii ms)
    {b : UInt8}
    (hb : b ∈ mark ms) :
    b.toNat < 0x80 := by
  rcases List.mem_map.mp hb with ⟨m, hm, rfl⟩
  rw [toNat_byte (hms m hm)]
  exact hms m hm

/- A space is an ASCII byte. -/
theorem toNat_lt_of_isSpace
    {b : UInt8}
    (hb : isSpace b = true) :
    b.toNat < 0x80 := by
  simp only [isSpace, Bool.or_eq_true, decide_eq_true_eq]
    at hb
  rcases hb with ((rfl | rfl) | rfl) | rfl <;> decide

/- What comes before the first place of a mark lacks it. -/
theorem not_infix_of_cutAt
    {m bs before rest : Bytes}
    (hm : m ≠ [])
    (hCut : cutAt m bs = some (before, rest)) :
    ¬ m <:+: before := by
  induction bs generalizing before rest with
  | nil => simp [cutAt, hm] at hCut
  | cons b bs ih =>
      simp only [cutAt] at hCut
      split at hCut
      · simp only [Option.some.injEq, Prod.mk.injEq] at hCut
        rw [← hCut.1, List.infix_nil]
        exact hm
      · rename_i hNot
        rcases Option.map_eq_some_iff.mp hCut with
          ⟨cut, hRec, hEq⟩
        simp only [Prod.mk.injEq] at hEq
        rw [← hEq.1, List.infix_cons_iff]
        rintro (hStart | hInner)
        · apply hNot
          rw [List.isPrefixOf_iff_prefix,
            eq_of_cutAt hRec, List.append_assoc]
          exact hStart.trans (List.prefix_append ..)
        · exact ih hRec hInner

namespace Token

/-
  A token of text: its content is encoded text, and a comment
  does not contain its end.
-/
def OfText (t : Token) : Prop :=
  Utf8.IsEncoded t.content ∧
    ∀ content, t = .comment content →
      ¬ mark commentEnd <:+: content

/- The delimiters of tokens are ASCII marks. -/
theorem toNat_lt_of_mem_delimiters
    (t : Token) :
    (∀ b ∈ t.before, b.toNat < 0x80) ∧
      ∀ b ∈ t.after, b.toNat < 0x80 := by
  cases t with
  | text content => exact ⟨by simp [before], by simp [after]⟩
  | _ =>
      exact ⟨fun _ => toNat_lt_of_mem_mark (by decide),
        fun _ => toNat_lt_of_mem_mark (by decide)⟩

/- Only text has no delimiter behind it. -/
theorem after_ne_nil
    {t : Token}
    (hMarkup : ∀ content, t ≠ .text content) :
    t.after ≠ [] := by
  cases t with
  | text content => exact absurd rfl (hMarkup content)
  | _ => simp [after, mark]

/-
  The content of a piece of markup and the bytes after it are
  texts, if the piece with these bytes is text.
-/
theorem isEncoded_content
    {t : Token}
    {rest : Bytes}
    (hMarkup : ∀ content, t ≠ .text content)
    (h : Utf8.IsEncoded (t.spell ++ rest)) :
    Utf8.IsEncoded t.content ∧ Utf8.IsEncoded rest := by
  have hAscii := toNat_lt_of_mem_delimiters t
  rw [spell, List.append_assoc, List.append_assoc] at h
  have hInner := Utf8.isEncoded_of_append hAscii.1 h
  cases hAfter : t.after with
  | nil => exact absurd hAfter (after_ne_nil hMarkup)
  | cons b more =>
      rw [hAfter, List.forall_mem_cons] at hAscii
      rw [hAfter, List.cons_append] at hInner
      have hSplit :=
        Utf8.isEncoded_split hAscii.2.1 hInner
      exact ⟨hSplit.1,
        Utf8.isEncoded_of_append hAscii.2.2 hSplit.2.2⟩

end Token

/- A comment that is taken does not contain its end. -/
theorem not_infix_of_takeMarkup
    {bs rest content : Bytes}
    (hTake : takeMarkup bs = .token (.comment content) rest) :
    ¬ mark commentEnd <:+: content := by
  unfold takeMarkup takeDeclaration takeComment takeCData
    takeDoctype takeInstruction takeTag tagToken at hTake
  repeat' split at hTake
  all_goals simp at hTake
  -- Only a comment is left, with the place of its end.
  rename_i hCut _
  rw [← hTake.1]
  exact not_infix_of_cutAt (by decide) hCut

/- A piece of markup that is taken from text is of text. -/
theorem ofText_of_takeMarkup
    {bs rest : Bytes}
    {t : Token}
    (hText : Utf8.IsEncoded (byte '<' :: bs))
    (hTake : takeMarkup bs = .token t rest) :
    t.OfText ∧ Utf8.IsEncoded rest := by
  have hMarkup : ∀ content, t ≠ .text content := by
    rintro content rfl
    exact takeMarkup_ne_text hTake
  rw [← spell_takeMarkup hTake] at hText
  have hParts := Token.isEncoded_content hMarkup hText
  refine ⟨⟨hParts.1, ?_⟩, hParts.2⟩
  rintro content rfl
  exact not_infix_of_takeMarkup hTake

/- All tokens of text are of text. -/
theorem ofText_of_mem_tokensFrom
    (offset : Nat)
    {bs : Bytes}
    (hText : Utf8.IsEncoded bs)
    {t : Token}
    (ht : t ∈ (tokensFrom offset bs).items) :
    t.OfText := by
  induction offset, bs using tokensFrom.induct with
  | case1 offset => simp [tokensFrom, Feed.items] at ht
  | case2 offset bs taken rest hTake ih =>
      have hTaken := ofText_of_takeMarkup hText hTake
      rw [tokensFrom_markup offset hTake, Feed.items,
        List.mem_cons] at ht
      rcases ht with rfl | ht
      · exact hTaken.1
      · exact ih hTaken.2 ht
  | case3 offset bs width fault hTake =>
      rw [tokensFrom_fault offset hTake] at ht
      cases ht
  | case4 offset b bs hb run ih =>
      have hStop :
          ∀ c, decide (c ≠ byte '<') = false →
            c.toNat < 0x80 := by
        intro c hc
        have hEq : c = byte '<' := by simpa using hc
        rw [hEq]
        decide
      have hParts := Utf8.isEncoded_takeWhile hStop hText
      simp only [List.takeWhile_cons, List.dropWhile_cons,
        hb, ne_eq, not_false_eq_true, decide_true, if_true]
        at hParts
      rw [tokensFrom, if_neg hb, Feed.items,
        List.mem_cons] at ht
      rcases ht with rfl | ht
      · refine ⟨hParts.1, ?_⟩
        intro content hComment
        cases hComment
      · exact ih hParts.2 ht

/- All tokens of a file of text are of text. -/
theorem ofText_of_mem_tokens
    {bs : Bytes}
    (hText : Utf8.IsEncoded bs)
    {t : Token}
    (ht : t ∈ (tokens bs).items) :
    t.OfText := by
  unfold tokens at ht
  split at ht
  · rename_i hMark
    rcases List.isPrefixOf_iff_prefix.mp hMark with
      ⟨rest, rfl⟩
    exact ofText_of_mem_tokensFrom 0
      (Utf8.isEncoded_of_byteOrderMark hText) ht
  · exact ofText_of_mem_tokensFrom 0 hText ht

------------------------------------------------------------
-- Attributes
------------------------------------------------------------

/- A value that is taken from text leaves text. -/
theorem isEncoded_of_takeValue
    {key bs : Bytes}
    {place : Nat}
    {raw : RawAttribute}
    (hText : Utf8.IsEncoded bs)
    (hTake : takeValue key place bs = .ok raw) :
    raw.key = key ∧ Utf8.IsEncoded raw.rest := by
  have hDrop :=
    Utf8.isEncoded_dropWhile
      (fun _ => toNat_lt_of_isSpace) hText
  unfold takeValue at hTake
  split at hTake
  · cases hTake
  · rename_i quote rest hSplit
    rw [hSplit] at hDrop
    split at hTake
    · rename_i hQuote
      have hAscii : quote.toNat < 0x80 := by
        rcases hQuote with rfl | rfl <;> decide
      have hRest := Utf8.isEncoded_of_cons hAscii hDrop
      have hStop :
          ∀ b, decide (b ≠ quote) = false →
            b.toNat < 0x80 := by
        intro b hb
        have hEq : b = quote := by simpa using hb
        rw [hEq]
        exact hAscii
      have hAfter :=
        (Utf8.isEncoded_takeWhile hStop hRest).2
      simp only at hTake
      split at hTake
      · cases hTake
      · rename_i b after hClose
        have hHead := List.head?_dropWhile_not
          (fun b => decide (b ≠ quote)) rest
        rw [hClose] at hAfter hHead
        simp only [Except.ok.injEq] at hTake
        subst hTake
        exact ⟨rfl,
          Utf8.isEncoded_of_cons
            (hStop b (by simpa using hHead)) hAfter⟩
    · cases hTake

/- A key ends before an ASCII byte. -/
theorem toNat_lt_of_not_inKey
    {b : UInt8}
    (hb : inKey b = false) :
    b.toNat < 0x80 := by
  cases hSpace : isSpace b with
  | true => exact toNat_lt_of_isSpace hSpace
  | false =>
      have hEq : b = byte '=' := by
        simpa [inKey, hSpace] using hb
      rw [hEq]
      decide

/-
  A key of text is text, and so is what follows it.  Its first
  byte may be any.
-/
theorem isEncoded_key
    {b : UInt8}
    {bs : Bytes}
    (hText : Utf8.IsEncoded (b :: bs)) :
    Utf8.IsEncoded (b :: bs.takeWhile inKey) ∧
      Utf8.IsEncoded (bs.dropWhile inKey) := by
  have hWhole := List.takeWhile_append_dropWhile
    (p := inKey) (l := bs)
  cases hTail : bs.dropWhile inKey with
  | nil =>
      rw [hTail, List.append_nil] at hWhole
      rw [hWhole]
      exact ⟨hText, Utf8.isEncoded_encode ""⟩
  | cons c rest =>
      have hHead := List.head?_dropWhile_not inKey bs
      rw [hTail] at hHead hWhole
      rw [← hWhole, ← List.cons_append] at hText
      have hSplit :=
        Utf8.isEncoded_split
          (toNat_lt_of_not_inKey (by simpa using hHead))
          hText
      exact ⟨hSplit.1, hSplit.2.1⟩

/-
  An attribute that is taken from text has a key that is text
  and was not seen before, and leaves text.
-/
theorem isEncoded_of_takeAttribute
    {seen : List (Bytes × Nat)}
    {place : Nat}
    {b : UInt8}
    {bs : Bytes}
    {raw : RawAttribute}
    (hText : Utf8.IsEncoded (b :: bs))
    (hTake : takeAttribute seen place b bs = .ok raw) :
    Utf8.IsEncoded raw.key ∧ Utf8.IsEncoded raw.rest ∧
      seen.lookup raw.key = none := by
  have hParts := isEncoded_key hText
  have hDrop :=
    Utf8.isEncoded_dropWhile
      (fun _ => toNat_lt_of_isSpace) hParts.2
  unfold takeAttribute at hTake
  simp only at hTake
  split at hTake
  · cases hTake
  · rename_i e rest hSplit
    rw [hSplit] at hDrop
    split at hTake
    · rename_i hEquals
      split at hTake
      · cases hTake
      · rename_i hNew
        have hRest :=
          Utf8.isEncoded_of_cons
            (by rw [hEquals]; decide) hDrop
        have hValue := isEncoded_of_takeValue hRest hTake
        rw [hValue.1]
        exact ⟨hParts.1, hValue.2, hNew⟩
    · cases hTake

/- A key that was not seen differs from those that were. -/
theorem decodeLossy_ne_of_lookup
    {seen : List (Bytes × Nat)}
    (hSeen : ∀ s ∈ seen, Utf8.IsEncoded s.1)
    {key : Bytes}
    (hKey : Utf8.IsEncoded key)
    (hNew : seen.lookup key = none)
    {s : Bytes × Nat}
    (hs : s ∈ seen) :
    Utf8.decodeLossy s.1 ≠ Utf8.decodeLossy key := by
  intro hSame
  have hEncode := congrArg Utf8.encode hSame
  rw [(Utf8.decode_of_isEncoded (hSeen s hs)).2,
    (Utf8.decode_of_isEncoded hKey).2] at hEncode
  have hOther := List.lookup_eq_none_iff.mp hNew s hs
  simp [hEncode] at hOther

/-
  Attributes are read one after the other: there are none
  left, or one is taken and the others are read after it.
-/
theorem readAttributes_eq_ok
    {seen : List (Bytes × Nat)}
    {place : Nat}
    {bs : Bytes}
    {attributes : List Attribute}
    (hRead : readAttributes seen place bs = .ok attributes) :
    attributes = [] ∨
      ∃ b tail start raw value others,
        bs.dropWhile isSpace = b :: tail ∧
        takeAttribute seen start b tail = .ok raw ∧
        readAttributes (seen ++ [(raw.key, start)]) raw.next
            raw.rest =
          .ok others ∧
        attributes =
          ⟨Utf8.decodeLossy raw.key, value⟩ :: others := by
  rw [readAttributes] at hRead
  split at hRead
  · exact Or.inl (Except.ok.inj hRead).symm
  · rename_i b tail hDrop
    split at hRead
    · cases hRead
    · rename_i raw hTake
      cases hValue : readText raw.value with
      | error fault =>
          rw [hValue] at hRead
          cases hRead
      | ok value =>
          rw [hValue] at hRead
          cases hOthers :
              readAttributes
                (seen ++ [(raw.key, place +
                  (bs.takeWhile isSpace).length)])
                raw.next raw.rest with
          | error fault =>
              simp only [bind, Except.bind, hOthers] at hRead
              cases hRead
          | ok others =>
              simp only [bind, Except.bind, hOthers] at hRead
              exact Or.inr ⟨b, tail, _, raw, value, others,
                hDrop, hTake, hOthers,
                (Except.ok.inj hRead).symm⟩

/-
  The attributes that are read from text have names that
  differ from each other and from the keys seen before.
-/
theorem names_of_readAttributes
    {seen : List (Bytes × Nat)}
    {place : Nat}
    {bs : Bytes}
    {attributes : List Attribute}
    (hSeen : ∀ s ∈ seen, Utf8.IsEncoded s.1)
    (hText : Utf8.IsEncoded bs)
    (hRead : readAttributes seen place bs = .ok attributes) :
    (attributes.map Attribute.name).Nodup ∧
      ∀ a ∈ attributes, ∀ s ∈ seen,
        Utf8.decodeLossy s.1 ≠ a.name := by
  induction attributes generalizing seen place bs with
  | nil => exact ⟨List.nodup_nil, nofun⟩
  | cons a attributes ih =>
      rcases readAttributes_eq_ok hRead with
        hNil | ⟨b, tail, start, raw, value, others, hDrop,
          hTake, hOthers, hAll⟩
      · cases hNil
      obtain ⟨rfl, rfl⟩ := List.cons.inj hAll
      have hRest :=
        Utf8.isEncoded_dropWhile
          (fun _ => toNat_lt_of_isSpace) hText
      rw [hDrop] at hRest
      rcases isEncoded_of_takeAttribute hRest hTake with
        ⟨hKey, hAfter, hNew⟩
      have hMore :
          ∀ s ∈ seen ++ [(raw.key, start)],
            Utf8.IsEncoded s.1 := by
        intro s hs
        rcases List.mem_append.mp hs with hs | hs
        · exact hSeen s hs
        · rw [List.mem_singleton.mp hs]
          exact hKey
      rcases ih hMore hAfter hOthers with ⟨hNodup, hApart⟩
      refine ⟨?_, ?_⟩
      · rw [List.map_cons, List.nodup_cons]
        refine ⟨?_, hNodup⟩
        intro hMem
        rcases List.mem_map.mp hMem with ⟨c, hc, hName⟩
        exact hApart c hc (raw.key, start) (by simp)
          hName.symm
      · intro c hc s hs
        rcases List.mem_cons.mp hc with rfl | hc
        · exact decodeLossy_ne_of_lookup hSeen hKey hNew hs
        · exact hApart c hc s (List.mem_append_left _ hs)

/- The attributes of a tag that is text have distinct names. -/
theorem nodup_of_attributesOf
    {content : Bytes}
    {attributes : List Attribute}
    (hText : Utf8.IsEncoded content)
    (hRead : attributesOf content = .ok attributes) :
    (attributes.map Attribute.name).Nodup := by
  have hFields :=
    (Utf8.isEncoded_takeWhile
      (fun b (hb : (!isSpace b) = false) =>
        toNat_lt_of_isSpace (by simpa using hb)) hText).2
  exact
    (names_of_readAttributes (by simp) hFields hRead).1

end Markup

end AutomataStore
