import AutomataStore.Document.Layout
import AutomataStore.Markup.Event
import AutomataStore.Proofs.TokenRuns
import AutomataStore.Proofs.WrittenText

/-
  Tags and comments as they are written.

  A name that avoids the characters with a meaning inside a
  tag is read back from the tag it was written into, and so
  are its attributes, whatever their values.  A comment is
  read back when it does not contain its own end.

  Key definitions include:
    * `Markup.IsName`, `Markup.NamesApart`
    * `Markup.IsCommentText`
    * `Markup.ClosesQuotes`

  Main declarations:
    * `Markup.attributesOf_tagContent`
    * `Markup.recoverable_opening` and its siblings
-/

------------------------------------------------------------
-- Names
------------------------------------------------------------

namespace AutomataStore

namespace Markup

/- The characters with a meaning inside a tag. -/
def nameStops : List Char :=
  [' ', '\t', '\r', '\n', '<', '>', '/', '=', '\'', '"']

/-
  A name of an element or an attribute: not empty, without
  the characters with a meaning inside a tag, and no start of
  a declaration or an instruction.
-/
def IsName (s : String) : Prop :=
  s ≠ "" ∧ (∀ c ∈ s.toList, c ∉ nameStops) ∧
    s.toList.head? ≠ some '!' ∧ s.toList.head? ≠ some '?'

instance
    (s : String) :
    Decidable (IsName s) :=
  have : Decidable (∀ c ∈ s.toList, c ∉ nameStops) :=
    List.decidableBAll (fun c => c ∉ nameStops) s.toList
  instDecidableAnd

/- Attributes are named, and no name occurs twice. -/
def NamesApart (attributes : List Attribute) : Prop :=
  (∀ a ∈ attributes, IsName a.name) ∧
    (attributes.map Attribute.name).Nodup

instance
    (attributes : List Attribute) :
    Decidable (NamesApart attributes) :=
  have : Decidable (∀ a ∈ attributes, IsName a.name) :=
    List.decidableBAll (fun a => IsName a.name) attributes
  instDecidableAnd

/- A stop is an ASCII character. -/
theorem toNat_lt_of_mem_nameStops
    {m : Char}
    (hm : m ∈ nameStops) :
    m.toNat < 0x80 := by
  have hAscii : IsAscii nameStops := by decide
  exact hAscii m hm

/- No byte of a name is a stop. -/
theorem byte_not_mem_of_isName
    {s : String}
    (hs : IsName s)
    {m : Char}
    (hm : m ∈ nameStops) :
    byte m ∉ Utf8.encode s := by
  intro h
  have hMem :=
    mem_of_byte_mem_encodeChars
      (toNat_lt_of_mem_nameStops hm) h
  exact hs.2.1 m hMem hm

/- A name has no spaces. -/
theorem not_isSpace_of_mem_name
    {s : String}
    (hs : IsName s)
    {b : UInt8}
    (hb : b ∈ Utf8.encode s) :
    isSpace b = false := by
  cases h : isSpace b with
  | false => rfl
  | true =>
      simp only [isSpace, Bool.or_eq_true,
        decide_eq_true_eq] at h
      have hNot :
          ∀ m ∈ nameStops, byte m ∉ Utf8.encode s :=
        fun _ hm => byte_not_mem_of_isName hs hm
      rcases h with ((rfl | rfl) | rfl) | rfl
      · exact absurd hb (hNot ' ' (by decide))
      · exact absurd hb (hNot '\t' (by decide))
      · exact absurd hb (hNot '\r' (by decide))
      · exact absurd hb (hNot '\n' (by decide))

/-
  The first byte of a name is none of those that tell other
  markup from a tag that opens an element.
-/
theorem exists_encode_eq_cons
    {s : String}
    (hs : IsName s) :
    ∃ b bs, Utf8.encode s = b :: bs ∧
      b ≠ byte '!' ∧ b ≠ byte '?' ∧ b ≠ byte '/' := by
  rcases hs with ⟨hNotEmpty, hStops, hBang, hQuery⟩
  cases hList : s.toList with
  | nil =>
      exact absurd (String.toList_eq_nil_iff.mp hList)
        hNotEmpty
  | cons c cs =>
      rcases Utf8.next_encodeChar c [] with
        ⟨b, bs, hChar, _⟩
      have hEncode :
          Utf8.encode s =
            b :: (bs ++ Utf8.encodeChars cs) := by
        simp [Utf8.encode, Utf8.encodeChars, hList, hChar]
      have hOther :
          ∀ m : Char, m.toNat < 0x80 → c ≠ m →
            b ≠ byte m := by
        intro m hm hNe hEq
        apply hNe
        apply eq_of_byte_mem_encodeChar hm
        rw [hChar, hEq]
        exact List.mem_cons_self ..
      refine ⟨b, _, hEncode, ?_, ?_, ?_⟩
      · apply hOther '!' (by decide)
        rintro rfl
        exact hBang (by rw [hList]; rfl)
      · apply hOther '?' (by decide)
        rintro rfl
        exact hQuery (by rw [hList]; rfl)
      · apply hOther '/' (by decide)
        rintro rfl
        exact hStops '/' (by simp [hList]) (by decide)

------------------------------------------------------------
-- Quotes
------------------------------------------------------------

/-
  Bytes that leave no quote open and hold no `>` outside
  quotes: the search for the end of a tag runs past them.
-/
def ClosesQuotes (bs : Bytes) : Prop :=
  ∀ rest,
    cutTag none (bs ++ rest) =
      (cutTag none rest).map fun cut =>
        (bs ++ cut.1, cut.2)

theorem closesQuotes_nil : ClosesQuotes [] := by
  intro rest
  simp

theorem closesQuotes_append
    {bs cs : Bytes}
    (hbs : ClosesQuotes bs)
    (hcs : ClosesQuotes cs) :
    ClosesQuotes (bs ++ cs) := by
  intro rest
  rw [List.append_assoc, hbs, hcs, Option.map_map]
  simp [Function.comp_def]

/- Bytes other than `>` and quotes are run past. -/
theorem closesQuotes_of_plain
    {bs : Bytes}
    (hTag : byte '>' ∉ bs)
    (hSingle : byte '\'' ∉ bs)
    (hDouble : byte '"' ∉ bs) :
    ClosesQuotes bs := by
  intro rest
  induction bs with
  | nil => exact closesQuotes_nil rest
  | cons b bs ih =>
      rw [List.mem_cons, not_or] at hTag hSingle hDouble
      have hTail := ih hTag.2 hSingle.2 hDouble.2
      rw [List.cons_append, cutTag]
      simp only [Ne.symm hTag.1, Ne.symm hSingle.1,
        Ne.symm hDouble.1, if_false, or_self]
      rw [hTail, Option.map_map]
      simp [Function.comp_def]

/- An open quote is run past up to the same quote. -/
theorem cutTag_quoted
    {q : UInt8}
    {bs : Bytes}
    (hbs : q ∉ bs)
    (rest : Bytes) :
    cutTag (some q) (bs ++ q :: rest) =
      (cutTag none rest).map fun cut =>
        (bs ++ q :: cut.1, cut.2) := by
  induction bs with
  | nil => simp [cutTag]
  | cons b bs ih =>
      have hb : b ≠ q := by
        intro hEq
        exact hbs (hEq ▸ List.mem_cons_self ..)
      have hTail :=
        ih fun h => hbs (List.mem_cons_of_mem _ h)
      rw [List.cons_append, cutTag]
      simp only [hb, if_false]
      rw [hTail, Option.map_map]
      simp [Function.comp_def]

/- A quoted value is run past. -/
theorem closesQuotes_quoted
    {bs : Bytes}
    (hbs : byte '"' ∉ bs) :
    ClosesQuotes (byte '"' :: bs ++ [byte '"']) := by
  intro rest
  simp only [List.cons_append, List.append_assoc,
    List.nil_append]
  rw [cutTag]
  simp only [show ¬ byte '"' = byte '>' by decide, if_false,
    or_true, if_true]
  rw [cutTag_quoted hbs, Option.map_map]
  simp [Function.comp_def]

/- A name is run past. -/
theorem closesQuotes_name
    {s : String}
    (hs : IsName s) :
    ClosesQuotes (Utf8.encode s) := by
  apply closesQuotes_of_plain
  · exact byte_not_mem_of_isName hs (by decide)
  · exact byte_not_mem_of_isName hs (by decide)
  · exact byte_not_mem_of_isName hs (by decide)

------------------------------------------------------------
-- Attributes
------------------------------------------------------------

/- The bytes of one attribute, with the space before it. -/
def fieldContent (a : Attribute) : Bytes :=
  byte ' ' :: Utf8.encode a.name ++ mark ['=', '"'] ++
    Utf8.encode (Reference.escape a.value) ++ mark ['"']

/- A tag is its name and its attributes. -/
theorem tagContent_eq
    (tag : String)
    (attributes : List Attribute) :
    Layout.tagContent tag attributes =
      Utf8.encode tag ++ attributes.flatMap fieldContent :=
  rfl

/- The content of a tag is text. -/
theorem isEncoded_tagContent
    (tag : String)
    (attributes : List Attribute) :
    Utf8.IsEncoded (Layout.tagContent tag attributes) := by
  apply Utf8.isEncoded_append (Utf8.isEncoded_encode tag)
  apply Utf8.isEncoded_flatMap
  intro a _
  have hSpace : Utf8.IsEncoded (mark [' ']) :=
    isEncoded_mark (by decide)
  have hOpen : Utf8.IsEncoded (mark ['=', '"']) :=
    isEncoded_mark (by decide)
  have hClose : Utf8.IsEncoded (mark ['"']) :=
    isEncoded_mark (by decide)
  have hName :=
    Utf8.isEncoded_append hSpace
      (Utf8.isEncoded_encode a.name)
  have hValue :=
    Utf8.isEncoded_append
      (Utf8.isEncoded_append hName hOpen)
      (Utf8.isEncoded_encode (Reference.escape a.value))
  exact Utf8.isEncoded_append hValue hClose

/- An attribute is run past. -/
theorem closesQuotes_fieldContent
    {a : Attribute}
    (ha : IsName a.name) :
    ClosesQuotes (fieldContent a) := by
  have hSplit :
      fieldContent a =
        [byte ' '] ++ Utf8.encode a.name ++ [byte '='] ++
          (byte '"' ::
            Utf8.encode (Reference.escape a.value) ++
              [byte '"']) := by
    simp [fieldContent, mark]
  rw [hSplit]
  apply closesQuotes_append
  · apply closesQuotes_append
    · apply closesQuotes_append
      · exact closesQuotes_of_plain (by decide) (by decide)
          (by decide)
      · exact closesQuotes_name ha
    · exact closesQuotes_of_plain (by decide) (by decide)
          (by decide)
  · apply closesQuotes_quoted
    exact byte_not_mem_encode_escape (by decide) a.value

/- The content of a tag is run past. -/
theorem closesQuotes_tagContent
    {tag : String}
    (hTag : IsName tag)
    {attributes : List Attribute}
    (hNames : ∀ a ∈ attributes, IsName a.name) :
    ClosesQuotes (Layout.tagContent tag attributes) := by
  rw [tagContent_eq]
  apply closesQuotes_append (closesQuotes_name hTag)
  induction attributes with
  | nil => exact closesQuotes_nil
  | cons a attributes ih =>
      rw [List.flatMap_cons]
      apply closesQuotes_append
      · exact closesQuotes_fieldContent
          (hNames a (List.mem_cons_self ..))
      · apply ih
        intro b hb
        exact hNames b (List.mem_cons_of_mem _ hb)

/- A quoted value without quotes in it is taken back. -/
theorem takeValue_quoted
    (key : Bytes)
    (place : Nat)
    {value : Bytes}
    (hValue : byte '"' ∉ value)
    (rest : Bytes) :
    takeValue key place
        (byte '"' :: value ++ byte '"' :: rest) =
      .ok ⟨key, value, place + 1 + value.length + 1,
        rest⟩ := by
  have hSpace : isSpace (byte '"') = false := by decide
  have hAll :
      ∀ b ∈ value, decide (b ≠ byte '"') = true := by
    intro b hb
    apply decide_eq_true
    intro hEq
    exact hValue (hEq ▸ hb)
  have hStop :
      decide (byte '"' ≠ byte '"') = false := by decide
  have hSplit :=
    takeWhile_dropWhile_append_cons hAll hStop rest
  simp only [takeValue, List.cons_append,
    List.takeWhile_cons, List.dropWhile_cons, hSpace,
    Bool.false_eq_true, if_false, true_or, if_true,
    hSplit.1, hSplit.2, List.length_nil, Nat.add_zero]

/-
  A written attribute is taken back, if no earlier one has
  its key.
-/
theorem takeAttribute_field
    (seen : List (Bytes × Nat))
    (place : Nat)
    {a : Attribute}
    (ha : IsName a.name)
    (hNew : seen.lookup (Utf8.encode a.name) = none)
    (rest : Bytes)
    {b : UInt8}
    {bs : Bytes}
    (hKey : Utf8.encode a.name = b :: bs) :
    takeAttribute seen place b
        (bs ++ mark ['=', '"'] ++
          Utf8.encode (Reference.escape a.value) ++
          mark ['"'] ++ rest) =
      .ok ⟨Utf8.encode a.name,
        Utf8.encode (Reference.escape a.value),
        place + (Utf8.encode a.name).length + 1 + 1 +
          (Utf8.encode
            (Reference.escape a.value)).length + 1,
        rest⟩ := by
  have hInKey : ∀ c ∈ bs, inKey c = true := by
    intro c hc
    have hMem : c ∈ Utf8.encode a.name := by
      rw [hKey]
      exact List.mem_cons_of_mem _ hc
    have hEquals : c ≠ byte '=' := by
      intro hEq
      exact byte_not_mem_of_isName ha (by decide)
        (hEq ▸ hMem)
    simp [inKey, hEquals, not_isSpace_of_mem_name ha hMem]
  have hStop : inKey (byte '=') = false := by decide
  have hSplit :=
    takeWhile_dropWhile_append_cons hInKey hStop
  have hSpace : isSpace (byte '=') = false := by decide
  rw [hKey] at hNew ⊢
  rw [← takeValue_quoted (b :: bs) _
    (byte_not_mem_encode_escape (by decide) a.value) rest]
  simp only [mark, List.map_cons, List.map_nil,
    List.append_assoc, List.cons_append, List.nil_append]
  simp only [takeAttribute, (hSplit _).1, (hSplit _).2,
    List.takeWhile_cons, List.dropWhile_cons, hSpace,
    Bool.false_eq_true, if_false, if_true, hNew,
    List.length_nil, Nat.add_zero]

/- Behind the space, attributes start with the first key. -/
theorem dropWhile_fields
    {a : Attribute}
    (ha : IsName a.name)
    {b : UInt8}
    {bs : Bytes}
    (hKey : Utf8.encode a.name = b :: bs)
    (attributes : List Attribute) :
    ((a :: attributes).flatMap fieldContent).dropWhile
        isSpace =
      b :: (bs ++ mark ['=', '"'] ++
        Utf8.encode (Reference.escape a.value) ++
        mark ['"'] ++ attributes.flatMap fieldContent) := by
  have hFirst : isSpace b = false :=
    not_isSpace_of_mem_name ha (by simp [hKey])
  simp [fieldContent, hKey, hFirst,
    show isSpace (byte ' ') = true by decide]

/- A key stays new when another one is seen. -/
theorem lookup_seen_append
    {seen : List (Bytes × Nat)}
    {name other : String}
    (hNew : seen.lookup (Utf8.encode name) = none)
    (hNe : name ≠ other)
    (place : Nat) :
    (seen ++ [(Utf8.encode other, place)]).lookup
        (Utf8.encode name) =
      none := by
  have hKeys : Utf8.encode name ≠ Utf8.encode other :=
    fun hEq => hNe (Utf8.encode_injective hEq)
  rw [List.lookup_append, hNew]
  simp [List.lookup_cons, beq_eq_false_iff_ne.mpr hKeys]

/-
  Written attributes are read back, if their names are apart
  from each other and from the keys that were seen.
-/
theorem readAttributes_fields
    (seen : List (Bytes × Nat))
    (place : Nat)
    {attributes : List Attribute}
    (hApart : NamesApart attributes)
    (hNew :
      ∀ a ∈ attributes,
        seen.lookup (Utf8.encode a.name) = none) :
    readAttributes seen place
        (attributes.flatMap fieldContent) =
      .ok attributes := by
  induction attributes generalizing seen place with
  | nil => simp [readAttributes]
  | cons a attributes ih =>
      rcases hApart with ⟨hNames, hNodup⟩
      have hName := hNames a (List.mem_cons_self ..)
      rw [List.map_cons, List.nodup_cons] at hNodup
      rcases exists_encode_eq_cons hName with
        ⟨b, bs, hKey, _⟩
      have hDrop := dropWhile_fields hName hKey attributes
      rw [readAttributes]
      split
      · rename_i hNil
        rw [hDrop] at hNil
        cases hNil
      · rename_i c tail hCons
        rw [hDrop] at hCons
        cases hCons
        have hSeen :=
          hNew a (List.mem_cons_self ..)
        have hOthers :
            ∀ start, ∀ c ∈ attributes,
              (seen ++
                [(Utf8.encode a.name, start)]).lookup
                  (Utf8.encode c.name) = none := by
          intro start c hc
          have hOld := hNew c (List.mem_cons_of_mem _ hc)
          have hNe : c.name ≠ a.name := by
            intro hEq
            apply hNodup.1
            rw [← hEq]
            exact List.mem_map_of_mem hc
          exact lookup_seen_append hOld hNe start
        have hTail : NamesApart attributes :=
          ⟨fun c hc => hNames c (List.mem_cons_of_mem _ hc),
            hNodup.2⟩
        split
        · rename_i h
          rw [takeAttribute_field seen _ hName hSeen _
            hKey] at h
          cases h
        · rename_i h
          rw [takeAttribute_field seen _ hName hSeen _
            hKey] at h
          cases h
          simp only [readText_encode_escape,
            ih _ _ hTail (hOthers _),
            Utf8.decodeLossy_encode]
          rfl

/- The name of a written tag. -/
theorem tagName_tagContent
    {tag : String}
    (hTag : IsName tag)
    (attributes : List Attribute) :
    tagName (Layout.tagContent tag attributes) =
      Utf8.encode tag ∧
    tagFields (Layout.tagContent tag attributes) =
      attributes.flatMap fieldContent := by
  have hAll :
      ∀ b ∈ Utf8.encode tag, (!isSpace b) = true := by
    intro b hb
    rw [not_isSpace_of_mem_name hTag hb]
    rfl
  rw [tagContent_eq]
  cases attributes with
  | nil =>
      simp only [List.flatMap_nil, List.append_nil]
      rw [← List.append_nil (Utf8.encode tag), tagName,
        tagFields, List.takeWhile_append_of_pos hAll,
        List.dropWhile_append_of_pos hAll]
      exact ⟨rfl, rfl⟩
  | cons a attributes =>
      exact takeWhile_dropWhile_append_cons hAll
        (by decide) _

/- The attributes of a written tag are read back. -/
theorem attributesOf_tagContent
    {tag : String}
    (hTag : IsName tag)
    {attributes : List Attribute}
    (hApart : NamesApart attributes) :
    attributesOf (Layout.tagContent tag attributes) =
      .ok attributes := by
  rw [attributesOf, (tagName_tagContent hTag _).1,
    (tagName_tagContent hTag _).2]
  apply readAttributes_fields [] _ hApart
  intro a _
  rfl

------------------------------------------------------------
-- Recoverable Tags
------------------------------------------------------------

/- The end of a tag is found behind closed quotes. -/
theorem takeTag_of_closesQuotes
    {content : Bytes}
    (hContent : ClosesQuotes content)
    (rest : Bytes) :
    takeTag (content ++ byte '>' :: rest) =
      .token (tagToken content) rest := by
  have hEnd :
      cutTag none (byte '>' :: rest) = some ([], rest) := by
    simp [cutTag]
  rw [takeTag, hContent, hEnd]
  simp

/-
  Bytes inside `<` and `>` are taken back as the token they
  make, unless they start a declaration or an instruction.
-/
theorem takeMarkup_of_closesQuotes
    {b : UInt8}
    {bs : Bytes}
    (hContent : ClosesQuotes (b :: bs))
    (hBang : b ≠ byte '!')
    (hQuery : b ≠ byte '?')
    (rest : Bytes) :
    takeMarkup (b :: bs ++ byte '>' :: rest) =
      .token (tagToken (b :: bs)) rest := by
  rw [← takeTag_of_closesQuotes hContent]
  simp only [takeMarkup, List.cons_append, hBang, hQuery,
    if_false]

/- The last byte of a written tag is no `/`. -/
theorem getLast?_tagContent_ne
    {tag : String}
    (hTag : IsName tag)
    (attributes : List Attribute) :
    (Layout.tagContent tag attributes).getLast? ≠
      some (byte '/') := by
  rw [tagContent_eq]
  rcases List.eq_nil_or_concat attributes with
    rfl | ⟨before, a, rfl⟩
  · intro hLast
    rw [List.flatMap_nil, List.append_nil] at hLast
    exact byte_not_mem_of_isName hTag (by decide)
      (List.mem_of_getLast? hLast)
  · -- The content ends with the quote of the last value.
    have hSplit :
        Utf8.encode tag ++
            (before ++ [a]).flatMap fieldContent =
          (Utf8.encode tag ++ before.flatMap fieldContent ++
            byte ' ' :: Utf8.encode a.name ++
            mark ['=', '"'] ++
            Utf8.encode (Reference.escape a.value)) ++
            [byte '"'] := by
      simp [fieldContent, mark]
    rw [List.concat_eq_append, hSplit, List.getLast?_concat]
    decide

/- The kind of the tag that a written content makes. -/
theorem tagToken_tagContent
    {tag : String}
    (hTag : IsName tag)
    (attributes : List Attribute) :
    tagToken (Layout.tagContent tag attributes) =
        .opening (Layout.tagContent tag attributes) ∧
      tagToken
          (Layout.tagContent tag attributes ++ [byte '/']) =
        .empty (Layout.tagContent tag attributes) := by
  have hLast := getLast?_tagContent_ne hTag attributes
  rcases exists_encode_eq_cons hTag with
    ⟨b, bs, hEncode, _, _, hSlash⟩
  have hCons :
      Layout.tagContent tag attributes =
        b :: (bs ++ attributes.flatMap fieldContent) := by
    rw [tagContent_eq, hEncode, List.cons_append]
  rw [hCons] at hLast ⊢
  constructor
  · simp only [tagToken, hSlash, hLast, if_false]
  · have hEnd :
        (b :: (bs ++ attributes.flatMap fieldContent ++
          [byte '/'])).getLast? = some (byte '/') := by
      rw [← List.cons_append, List.getLast?_concat]
    rw [List.cons_append]
    simp only [tagToken, hSlash, hEnd, if_false, if_true]
    rw [← List.cons_append, List.dropLast_concat]

namespace Token

/- Markup is recoverable when it is taken back. -/
theorem recoverable_of_take
    {t : Token}
    (ht : t.isText = false)
    (hTake :
      ∀ rest,
        takeMarkup (t.spell.drop 1 ++ rest) =
          .token t rest) :
    t.Recoverable := by
  simpa [Recoverable, ht] using hTake

/- An opening tag is recoverable. -/
theorem recoverable_opening
    {tag : String}
    (hTag : IsName tag)
    {attributes : List Attribute}
    (hNames : ∀ a ∈ attributes, IsName a.name) :
    (opening
      (Layout.tagContent tag attributes)).Recoverable := by
  apply recoverable_of_take rfl
  intro rest
  have hCloses := closesQuotes_tagContent hTag hNames
  have hToken := (tagToken_tagContent hTag attributes).1
  rcases exists_encode_eq_cons hTag with
    ⟨b, bs, hEncode, hBang, hQuery, _⟩
  rw [tagContent_eq, hEncode, List.cons_append]
    at hCloses hToken ⊢
  have hTake :=
    takeMarkup_of_closesQuotes hCloses hBang hQuery rest
  rw [hToken] at hTake
  simpa [spell, before, content, after, mark] using hTake

/- A tag without content is recoverable. -/
theorem recoverable_empty
    {tag : String}
    (hTag : IsName tag)
    {attributes : List Attribute}
    (hNames : ∀ a ∈ attributes, IsName a.name) :
    (empty
      (Layout.tagContent tag attributes)).Recoverable := by
  apply recoverable_of_take rfl
  intro rest
  have hCloses :
      ClosesQuotes
        (Layout.tagContent tag attributes ++ [byte '/']) :=
    closesQuotes_append
      (closesQuotes_tagContent hTag hNames)
      (closesQuotes_of_plain (by decide) (by decide)
        (by decide))
  have hToken := (tagToken_tagContent hTag attributes).2
  rcases exists_encode_eq_cons hTag with
    ⟨b, bs, hEncode, hBang, hQuery, _⟩
  rw [tagContent_eq, hEncode, List.cons_append,
    List.cons_append] at hCloses hToken
  rw [tagContent_eq, hEncode, List.cons_append]
  have hTake :=
    takeMarkup_of_closesQuotes hCloses hBang hQuery rest
  rw [hToken] at hTake
  simpa [spell, before, content, after, mark] using hTake

/- A closing tag is recoverable. -/
theorem recoverable_closing
    {tag : String}
    (hTag : IsName tag) :
    (closing (Utf8.encode tag)).Recoverable := by
  apply recoverable_of_take rfl
  intro rest
  have hSlash : ClosesQuotes [byte '/'] :=
    closesQuotes_of_plain (by decide) (by decide)
      (by decide)
  have hCloses :
      ClosesQuotes (byte '/' :: Utf8.encode tag) :=
    closesQuotes_append hSlash (closesQuotes_name hTag)
  have hTake :=
    takeMarkup_of_closesQuotes hCloses (by decide)
      (by decide) rest
  have hToken :
      tagToken (byte '/' :: Utf8.encode tag) =
        .closing (Utf8.encode tag) := by
    simp [tagToken]
  rw [hToken] at hTake
  simpa [spell, before, content, after, mark] using hTake

end Token

------------------------------------------------------------
-- Events of Tags
------------------------------------------------------------

/- A written opening tag starts its element. -/
theorem readToken_opening
    {tag : String}
    (hTag : IsName tag)
    {attributes : List Attribute}
    (hApart : NamesApart attributes)
    (opened : List Bytes) :
    readToken opened
        (.opening (Layout.tagContent tag attributes)) =
      .ok (.start tag attributes,
        Utf8.encode tag :: opened) := by
  simp only [readToken, attributesOf_tagContent hTag hApart,
    (tagName_tagContent hTag attributes).1,
    Utf8.decodeLossy_encode]
  rfl

/- A written tag without content is its element. -/
theorem readToken_empty
    {tag : String}
    (hTag : IsName tag)
    {attributes : List Attribute}
    (hApart : NamesApart attributes)
    (opened : List Bytes) :
    readToken opened
        (.empty (Layout.tagContent tag attributes)) =
      .ok (.empty tag attributes, opened) := by
  simp only [readToken, attributesOf_tagContent hTag hApart,
    (tagName_tagContent hTag attributes).1,
    Utf8.decodeLossy_encode]
  rfl

/- A name in a closing tag has no spaces to leave out. -/
theorem closingName_name
    {tag : String}
    (hTag : IsName tag) :
    closingName (Utf8.encode tag) = Utf8.encode tag := by
  rcases exists_encode_eq_cons hTag with
    ⟨b, bs, hEncode, _⟩
  have hFirst : isSpace b = false :=
    not_isSpace_of_mem_name hTag (by simp [hEncode])
  have hSome : (Utf8.encode tag).all isSpace = false := by
    simp [hEncode, hFirst]
  have hKeep :
      (Utf8.encode tag).reverse.dropWhile isSpace =
        (Utf8.encode tag).reverse := by
    cases hReverse : (Utf8.encode tag).reverse with
    | nil => rfl
    | cons c cs =>
        have hLast : isSpace c = false := by
          apply not_isSpace_of_mem_name hTag
          rw [← List.mem_reverse, hReverse]
          exact List.mem_cons_self ..
        simp [hLast]
  simp [closingName, hSome, hKeep]

/- A written closing tag ends the innermost element. -/
theorem readToken_closing
    {tag : String}
    (hTag : IsName tag)
    (opened : List Bytes) :
    readToken (Utf8.encode tag :: opened)
        (.closing (Utf8.encode tag)) =
      .ok (.finish, opened) := by
  simp only [readToken, closeName, closingName_name hTag,
    if_true]
  rfl

------------------------------------------------------------
-- Comments and the Declaration
------------------------------------------------------------

/- The characters that end a comment. -/
def commentEnd : List Char :=
  ['-', '-', '>']

/- A text that can be a comment does not end it. -/
def IsCommentText (s : String) : Prop :=
  ¬ commentEnd <:+: s.toList

instance
    (s : String) :
    Decidable (IsCommentText s) :=
  inferInstanceAs (Decidable (¬ commentEnd <:+: s.toList))

/- A mark at the front is found there. -/
theorem cutAt_self_append
    {m : Bytes}
    (hm : m ≠ [])
    (rest : Bytes) :
    cutAt m (m ++ rest) = some ([], rest) := by
  cases m with
  | nil => exact absurd rfl hm
  | cons b m =>
      have hStarts :
          (b :: m).isPrefixOf (b :: (m ++ rest)) = true := by
        rw [List.isPrefixOf_iff_prefix, ← List.cons_append]
        exact List.prefix_append ..
      rw [List.cons_append, cutAt, if_pos hStarts]
      simp

/-
  A mark that starts inside bytes and ends behind them, over
  the same mark, has its last byte among the others.
-/
theorem mem_of_prefix_overlap
    {front bs rest : Bytes}
    {z : UInt8}
    (hNotNil : bs ≠ [])
    (hShort : bs.length ≤ front.length)
    (hPrefix :
      front ++ [z] <+: bs ++ (front ++ [z]) ++ rest) :
    z ∈ front := by
  have hLength := List.length_pos_iff.mpr hNotNil
  have hInside : bs <+: front := by
    have hWhole :
        bs <+: bs ++ (front ++ [z]) ++ rest := by
      rw [List.append_assoc]
      exact List.prefix_append ..
    have hFront :
        front <+: bs ++ (front ++ [z]) ++ rest :=
      (List.prefix_append front [z]).trans hPrefix
    exact List.prefix_of_prefix_length_le hWhole hFront
      hShort
  rcases hInside with ⟨back, rfl⟩
  rw [List.length_append] at hShort
  have hBack : back ++ [z] <+: bs ++ back := by
    have hTail :
        back ++ [z] <+:
          (bs ++ back) ++ ([z] ++ rest) := by
      rw [List.append_assoc, List.append_assoc,
        List.prefix_append_right_inj] at hPrefix
      simpa using hPrefix
    have hFront :
        bs ++ back <+: (bs ++ back) ++ ([z] ++ rest) :=
      List.prefix_append ..
    apply List.prefix_of_prefix_length_le hTail hFront
    simp only [List.length_append, List.length_singleton]
    omega
  exact hBack.subset (by simp)

/-
  A mark whose last byte occurs nowhere else in it is found
  behind bytes that do not contain it.
-/
theorem cutAt_append
    {front bs : Bytes}
    {z : UInt8}
    (hLast : z ∉ front)
    (hbs : ¬ front ++ [z] <:+: bs)
    (rest : Bytes) :
    cutAt (front ++ [z]) (bs ++ (front ++ [z]) ++ rest) =
      some (bs, rest) := by
  induction bs with
  | nil =>
      rw [List.nil_append]
      exact cutAt_self_append (by simp) rest
  | cons b bs ih =>
      have hTail : ¬ front ++ [z] <:+: bs :=
        fun h => hbs (List.infix_cons h)
      have hHere :
          ¬ (front ++ [z]).isPrefixOf
            (b :: (bs ++ (front ++ [z]) ++ rest)) = true := by
        rw [List.isPrefixOf_iff_prefix, ← List.cons_append,
          ← List.cons_append]
        intro hPrefix
        by_cases hShort :
            (b :: bs).length ≤ front.length
        · exact hLast
            (mem_of_prefix_overlap (by simp) hShort hPrefix)
        · apply hbs
          apply List.IsPrefix.isInfix
          have hWhole :
              b :: bs <+:
                b :: bs ++ (front ++ [z]) ++ rest := by
            rw [List.append_assoc]
            exact List.prefix_append ..
          apply List.prefix_of_prefix_length_le hPrefix
            hWhole
          simp only [List.length_append,
            List.length_singleton]
          omega
      rw [List.cons_append, List.cons_append, cutAt,
        if_neg hHere, ih hTail]
      rfl

/- The end of a comment is found behind its text. -/
theorem cutAt_commentEnd
    {bs : Bytes}
    (hbs : ¬ mark commentEnd <:+: bs)
    (rest : Bytes) :
    cutAt (mark commentEnd) (bs ++ mark commentEnd ++ rest) =
      some (bs, rest) := by
  have hLast : byte '>' ∉ mark ['-', '-'] := by decide
  exact cutAt_append hLast hbs rest

namespace Token

/- A comment is recoverable. -/
theorem recoverable_comment
    {s : String}
    (hs : IsCommentText s) :
    (comment (Utf8.encode s)).Recoverable := by
  apply recoverable_of_take rfl
  intro rest
  have hBytes : ¬ mark commentEnd <:+: Utf8.encode s := by
    intro h
    exact hs (infix_of_mark (by decide) h)
  have hCut := cutAt_commentEnd hBytes rest
  have hSpell :
      (comment (Utf8.encode s)).spell.drop 1 ++ rest =
        byte '!' :: byte '-' :: byte '-' ::
          (Utf8.encode s ++ mark commentEnd ++ rest) := by
    simp [spell, before, content, after, mark, commentEnd]
  rw [hSpell]
  simp only [takeMarkup, takeDeclaration, takeComment,
    List.drop_succ_cons, List.drop_zero,
    List.take_succ_cons, List.take_zero, if_true]
  rw [show mark ['-', '-', '>'] = mark commentEnd from rfl,
    hCut]
  rfl

/- The declaration is recoverable. -/
theorem recoverable_declaration :
    (instruction
      (Utf8.encode Layout.declarationText)).Recoverable := by
  apply recoverable_of_take rfl
  intro rest
  rfl

end Token

end Markup

end AutomataStore
