import AutomataStore.Markup.Feed

/-
  Tokens of marked-up text.

  The bytes are cut into character data and pieces of markup.
  A token keeps every byte between its delimiters, so that
  `Token.spell` gives back the bytes it was cut from.

  Key definitions include:
    * `Markup.Token`
    * `Token.spell`
    * `Markup.takeMarkup`
    * `Markup.tokens`

  Correctness is proven by:
    * `Markup.spell_takeMarkup`
-/

------------------------------------------------------------
-- Marks
------------------------------------------------------------

namespace AutomataStore

namespace Markup

/- The byte of an ASCII character. -/
def byte (c : Char) : UInt8 :=
  UInt8.ofNat c.toNat

/- The bytes of ASCII characters. -/
def mark (cs : List Char) : Bytes :=
  cs.map byte

/- Space, tab, carriage return and line feed. -/
def isSpace (b : UInt8) : Bool :=
  b = byte ' ' || b = byte '\t' ||
    b = byte '\r' || b = byte '\n'

/- Cut a list before and after the first place of a mark. -/
def cutAt (m : Bytes) : Bytes → Option (Bytes × Bytes)
  | [] => if m = [] then some ([], []) else none
  | b :: bs =>
      if m.isPrefixOf (b :: bs) then
        some ([], (b :: bs).drop m.length)
      else
        (cutAt m bs).map fun cut => (b :: cut.1, cut.2)

/-
  Cut a list at the first `>` outside quotes.  `quote` is the
  quote that is open.
-/
def cutTag
    (quote : Option UInt8) : Bytes → Option (Bytes × Bytes)
  | [] => none
  | b :: bs =>
      let go (next : Option UInt8) :=
        (cutTag next bs).map fun cut => (b :: cut.1, cut.2)
      match quote with
      | some q => if b = q then go none else go quote
      | none =>
          if b = byte '>' then
            some ([], bs)
          else if b = byte '\'' ∨ b = byte '"' then
            go (some b)
          else
            go none

/- Cut a list at the `>` that closes `depth` open `<`. -/
def cutBalanced
    (depth : Nat) : Bytes → Option (Bytes × Bytes)
  | [] => none
  | b :: bs =>
      let go (depth : Nat) :=
        (cutBalanced depth bs).map fun cut =>
          (b :: cut.1, cut.2)
      if b = byte '>' then
        match depth with
        | 0 => some ([], bs)
        | depth + 1 => go depth
      else if b = byte '<' then
        go (depth + 1)
      else
        go depth

/- The parts and the mark make up the list that was cut. -/
theorem eq_of_cutAt
    {m bs before rest : Bytes}
    (hCut : cutAt m bs = some (before, rest)) :
    bs = before ++ m ++ rest := by
  induction bs generalizing before rest with
  | nil =>
      simp only [cutAt] at hCut
      split at hCut
      · rename_i hm
        simp only [Option.some.injEq, Prod.mk.injEq] at hCut
        simp [hm, ← hCut.1, ← hCut.2]
      · cases hCut
  | cons b bs ih =>
      simp only [cutAt] at hCut
      split at hCut
      · rename_i hStarts
        simp only [Option.some.injEq, Prod.mk.injEq] at hCut
        rcases List.isPrefixOf_iff_prefix.mp hStarts with
          ⟨t, ht⟩
        rw [← hCut.1, ← hCut.2, ← ht]
        simp
      · rcases Option.map_eq_some_iff.mp hCut with
          ⟨cut, hRec, hEq⟩
        simp only [Prod.mk.injEq] at hEq
        rw [← hEq.1, ← hEq.2, ih hRec]
        simp

/- The parts and the `>` make up the list that was cut. -/
theorem eq_of_cutTag
    {quote : Option UInt8}
    {bs before rest : Bytes}
    (hCut : cutTag quote bs = some (before, rest)) :
    bs = before ++ byte '>' :: rest := by
  induction bs generalizing quote before rest with
  | nil => simp [cutTag] at hCut
  | cons b bs ih =>
      have hGo :
          ∀ next,
            (cutTag next bs).map
                (fun cut => (b :: cut.1, cut.2)) =
              some (before, rest) →
            b :: bs = before ++ byte '>' :: rest := by
        intro next hMap
        rcases Option.map_eq_some_iff.mp hMap with
          ⟨cut, hRec, hEq⟩
        simp only [Prod.mk.injEq] at hEq
        rw [← hEq.1, ← hEq.2, List.cons_append,
          ← ih hRec]
      simp only [cutTag] at hCut
      split at hCut
      · split at hCut
        · exact hGo _ hCut
        · exact hGo _ hCut
      · split at hCut
        · rename_i hb
          simp only [Option.some.injEq, Prod.mk.injEq] at hCut
          simp [← hCut.1, ← hCut.2, hb]
        · split at hCut
          · exact hGo _ hCut
          · exact hGo _ hCut

/- The parts and the `>` make up the list that was cut. -/
theorem eq_of_cutBalanced
    {depth : Nat}
    {bs before rest : Bytes}
    (hCut : cutBalanced depth bs = some (before, rest)) :
    bs = before ++ byte '>' :: rest := by
  induction bs generalizing depth before rest with
  | nil => simp [cutBalanced] at hCut
  | cons b bs ih =>
      have hGo :
          ∀ depth,
            (cutBalanced depth bs).map
                (fun cut => (b :: cut.1, cut.2)) =
              some (before, rest) →
            b :: bs = before ++ byte '>' :: rest := by
        intro depth hMap
        rcases Option.map_eq_some_iff.mp hMap with
          ⟨cut, hRec, hEq⟩
        simp only [Prod.mk.injEq] at hEq
        rw [← hEq.1, ← hEq.2, List.cons_append,
          ← ih hRec]
      simp only [cutBalanced] at hCut
      split at hCut
      · rename_i hb
        split at hCut
        · simp only [Option.some.injEq,
            Prod.mk.injEq] at hCut
          simp [← hCut.1, ← hCut.2, hb]
        · exact hGo _ hCut
      · split at hCut
        · exact hGo _ hCut
        · exact hGo _ hCut

------------------------------------------------------------
-- Tokens
------------------------------------------------------------

/-
  A run of character data, or one piece of markup with the
  bytes between its delimiters.  The content of a doctype
  includes its keyword.
-/
inductive Token where
  | text (content : Bytes)
  | opening (content : Bytes)
  | empty (content : Bytes)
  | closing (content : Bytes)
  | comment (content : Bytes)
  | cdata (content : Bytes)
  | instruction (content : Bytes)
  | doctype (content : Bytes)
deriving DecidableEq, Repr

namespace Token

/- The bytes before the content. -/
def before : Token → Bytes
  | .text _ => []
  | .opening _ => mark ['<']
  | .empty _ => mark ['<']
  | .closing _ => mark ['<', '/']
  | .comment _ => mark ['<', '!', '-', '-']
  | .cdata _ =>
      mark ['<', '!', '[', 'C', 'D', 'A', 'T', 'A', '[']
  | .instruction _ => mark ['<', '?']
  | .doctype _ => mark ['<', '!']

/- The bytes of a token between its delimiters. -/
def content : Token → Bytes
  | .text bs => bs
  | .opening bs => bs
  | .empty bs => bs
  | .closing bs => bs
  | .comment bs => bs
  | .cdata bs => bs
  | .instruction bs => bs
  | .doctype bs => bs

/- The bytes after the content. -/
def after : Token → Bytes
  | .text _ => []
  | .opening _ => mark ['>']
  | .empty _ => mark ['/', '>']
  | .closing _ => mark ['>']
  | .comment _ => mark ['-', '-', '>']
  | .cdata _ => mark [']', ']', '>']
  | .instruction _ => mark ['?', '>']
  | .doctype _ => mark ['>']

/- All bytes of a token. -/
def spell (t : Token) : Bytes :=
  t.before ++ t.content ++ t.after

/- The number of bytes of a token. -/
def width (t : Token) : Nat :=
  t.before.length + t.content.length + t.after.length

/- The width counts the bytes that spell the token. -/
theorem length_spell
    (t : Token) :
    t.spell.length = t.width := by
  simp [spell, width, Nat.add_assoc]

end Token

------------------------------------------------------------
-- Taking One Piece of Markup
------------------------------------------------------------

/-
  The outcome of taking a piece of markup: a token and the
  bytes after it, or a fault found after `width` bytes, the
  `<` included.
-/
inductive Taken where
  | token (t : Token) (rest : Bytes)
  | fault (width : Nat) (fault : Fault)
deriving DecidableEq, Repr

/-
  A comment, given the bytes after `<!`.  Its end is looked
  for after the two bytes that should complete `<!--`.
-/
def takeComment (bs : Bytes) : Taken :=
  match cutAt (mark ['-', '-', '>']) (bs.drop 2) with
  | none => .fault (2 + bs.length) .unclosedComment
  | some (content, rest) =>
      if bs.take 2 = mark ['-', '-'] then
        .token (.comment content) rest
      else
        .fault (7 + content.length) .unclosedComment

/- A CDATA section, given the bytes after `<!`. -/
def takeCData (bs : Bytes) : Taken :=
  match cutAt (mark [']', ']', '>']) bs with
  | none => .fault (2 + bs.length) .unclosedCData
  | some (content, rest) =>
      if content.take 7 =
          mark ['[', 'C', 'D', 'A', 'T', 'A', '['] then
        .token (.cdata (content.drop 7)) rest
      else
        .fault (5 + content.length) .unclosedCData

/- The lower-case form of an ASCII letter. -/
def lower (b : UInt8) : UInt8 :=
  if byte 'A' ≤ b ∧ b ≤ byte 'Z' then b + 32 else b

/-
  A doctype, given the bytes after `<!`.  Its keyword may
  have any case, and a name must follow it.
-/
def takeDoctype (bs : Bytes) : Taken :=
  match cutBalanced 0 bs with
  | none => .fault (2 + bs.length) .unclosedDoctype
  | some (content, rest) =>
      if (content.take 7).map lower =
          mark ['d', 'o', 'c', 't', 'y', 'p', 'e'] then
        if (content.drop 7).all isSpace then
          .fault (3 + content.length) .namelessDoctype
        else
          .token (.doctype content) rest
      else
        .fault (3 + content.length) .unclosedDoctype

/- Markup that starts with `<!`, given the bytes after it. -/
def takeDeclaration (bs : Bytes) : Taken :=
  match bs with
  | [] => .fault 1 .unknownMarkup
  | b :: _ =>
      if b = byte '-' then
        takeComment bs
      else if b = byte '[' then
        takeCData bs
      else if b = byte 'D' ∨ b = byte 'd' then
        takeDoctype bs
      else
        .fault 1 .unknownMarkup

/-
  A processing instruction, given the bytes after `<`.  The
  end may not share its `?` with the beginning.
-/
def takeInstruction (bs : Bytes) : Taken :=
  match cutAt (mark ['?', '>']) bs with
  | none => .fault (1 + bs.length) .unclosedInstruction
  | some ([], _) => .fault 3 .unclosedInstruction
  | some (_ :: content, rest) =>
      .token (.instruction content) rest

/- The kind of a tag with the given bytes inside `<` `>`. -/
def tagToken (content : Bytes) : Token :=
  match content with
  | [] => .opening []
  | b :: bs =>
      if b = byte '/' then
        .closing bs
      else if (b :: bs).getLast? = some (byte '/') then
        .empty (b :: bs).dropLast
      else
        .opening (b :: bs)

/- A tag, given the bytes after `<`. -/
def takeTag (bs : Bytes) : Taken :=
  match cutTag none bs with
  | none => .fault (1 + bs.length) .unclosedTag
  | some (content, rest) => .token (tagToken content) rest

/- One piece of markup, given the bytes after `<`. -/
def takeMarkup (bs : Bytes) : Taken :=
  match bs with
  | [] => .fault 1 .unclosedTag
  | b :: rest =>
      if b = byte '!' then
        takeDeclaration rest
      else if b = byte '?' then
        takeInstruction bs
      else
        takeTag bs

/- A tag is spelled by its content between `<` and `>`. -/
theorem spell_tagToken
    (content : Bytes) :
    (tagToken content).spell =
      byte '<' :: content ++ [byte '>'] := by
  unfold tagToken
  split
  · rfl
  · rename_i b bs
    split
    · rename_i hb
      simp [Token.spell, Token.before, Token.content,
        Token.after, mark, hb]
    · split
      · rename_i hLast
        rcases List.getLast?_eq_some_iff.mp hLast with
          ⟨init, hInit⟩
        simp [hInit, Token.spell, Token.before,
          Token.content, Token.after, mark]
      · simp [Token.spell, Token.before, Token.content,
          Token.after, mark]

/- A comment is spelled by the bytes it was cut from. -/
theorem spell_takeComment
    {bs rest : Bytes}
    {t : Token}
    (hTake : takeComment bs = .token t rest) :
    t.spell ++ rest = mark ['<', '!'] ++ bs := by
  unfold takeComment at hTake
  split at hTake
  · cases hTake
  · rename_i hCut
    split at hTake
    · rename_i hStart
      simp only [Taken.token.injEq] at hTake
      have hWhole := List.take_append_drop 2 bs
      rw [hStart, eq_of_cutAt hCut] at hWhole
      rw [← hTake.1, ← hTake.2, ← hWhole]
      simp [Token.spell, Token.before, Token.content,
        Token.after, mark]
    · cases hTake

/- A CDATA section is spelled by the bytes it was cut from. -/
theorem spell_takeCData
    {bs rest : Bytes}
    {t : Token}
    (hTake : takeCData bs = .token t rest) :
    t.spell ++ rest = mark ['<', '!'] ++ bs := by
  unfold takeCData at hTake
  split at hTake
  · cases hTake
  · rename_i content _ hCut
    split at hTake
    · rename_i hStart
      simp only [Taken.token.injEq] at hTake
      have hWhole := List.take_append_drop 7 content
      rw [hStart] at hWhole
      rw [← hTake.1, ← hTake.2, eq_of_cutAt hCut]
      conv => rhs; rw [← hWhole]
      simp [Token.spell, Token.before, Token.content,
        Token.after, mark]
    · cases hTake

/- A doctype is spelled by the bytes it was cut from. -/
theorem spell_takeDoctype
    {bs rest : Bytes}
    {t : Token}
    (hTake : takeDoctype bs = .token t rest) :
    t.spell ++ rest = mark ['<', '!'] ++ bs := by
  unfold takeDoctype at hTake
  split at hTake
  · cases hTake
  · rename_i hCut
    split at hTake
    · split at hTake
      · cases hTake
      · simp only [Taken.token.injEq] at hTake
        rw [← hTake.1, ← hTake.2, eq_of_cutBalanced hCut]
        simp [Token.spell, Token.before, Token.content,
          Token.after, mark]
    · cases hTake

/- An instruction is spelled by the bytes it was cut from. -/
theorem spell_takeInstruction
    {bs rest : Bytes}
    {t : Token}
    (hTake :
      takeInstruction (byte '?' :: bs) = .token t rest) :
    t.spell ++ rest = mark ['<', '?'] ++ bs := by
  unfold takeInstruction at hTake
  split at hTake
  · cases hTake
  · cases hTake
  · rename_i hCut
    simp only [Taken.token.injEq] at hTake
    have hEq := eq_of_cutAt hCut
    simp only [List.cons_append, List.cons.injEq] at hEq
    rw [← hTake.1, ← hTake.2, hEq.2]
    simp [Token.spell, Token.before, Token.content,
      Token.after, mark]

/- A piece of markup is spelled by the bytes it was cut from. -/
theorem spell_takeMarkup
    {bs rest : Bytes}
    {t : Token}
    (hTake : takeMarkup bs = .token t rest) :
    t.spell ++ rest = byte '<' :: bs := by
  unfold takeMarkup at hTake
  split at hTake
  · cases hTake
  · rename_i b bs
    split at hTake
    · rename_i hb
      subst hb
      unfold takeDeclaration at hTake
      split at hTake
      · cases hTake
      split at hTake
      · exact spell_takeComment hTake
      split at hTake
      · exact spell_takeCData hTake
      split at hTake
      · exact spell_takeDoctype hTake
      · cases hTake
    split at hTake
    · rename_i hb
      subst hb
      exact spell_takeInstruction hTake
    · unfold takeTag at hTake
      split at hTake
      · cases hTake
      · rename_i hCut
        simp only [Taken.token.injEq] at hTake
        rw [← hTake.1, ← hTake.2, spell_tagToken,
          eq_of_cutTag hCut]
        simp

/- Markup is no character data. -/
theorem takeMarkup_ne_text
    {bs rest content : Bytes} :
    takeMarkup bs ≠ .token (.text content) rest := by
  intro hTake
  unfold takeMarkup takeDeclaration takeComment takeCData
    takeDoctype takeInstruction takeTag tagToken at hTake
  repeat' split at hTake
  all_goals simp at hTake

/- Every piece of markup has at least one byte. -/
theorem length_lt_of_takeMarkup
    {bs rest : Bytes}
    {t : Token}
    (hTake : takeMarkup bs = .token t rest) :
    rest.length < bs.length + 1 := by
  have hLength :=
    congrArg List.length (spell_takeMarkup hTake)
  have hPos : 0 < t.spell.length := by
    rw [Token.length_spell]
    cases t with
    | text content => exact absurd hTake takeMarkup_ne_text
    | _ =>
        simp only [Token.width, Token.before, mark,
          List.map_cons, List.length_cons]
        omega
  simp only [List.length_append, List.length_cons] at hLength
  omega

------------------------------------------------------------
-- Tokens of All Bytes
------------------------------------------------------------

/- The tokens of bytes whose first one stands at `offset`. -/
def tokensFrom
    (offset : Nat)
    (bs : Bytes) : Feed Token :=
  match bs with
  | [] => .complete offset
  | b :: bs =>
      if b = byte '<' then
        match _h : takeMarkup bs with
        | .token t rest =>
            .item t (offset + t.width)
              (tokensFrom (offset + t.width) rest)
        | .fault width fault =>
            .broken (offset + width) fault
      else
        let run := b :: bs.takeWhile (· ≠ byte '<')
        .item (.text run) (offset + run.length)
          (tokensFrom (offset + run.length)
            (bs.dropWhile (· ≠ byte '<')))
termination_by bs.length
decreasing_by
  · exact length_lt_of_takeMarkup _h
  · exact Nat.lt_succ_of_le
      (List.dropWhile_sublist _).length_le

/- The mark that may open a file of UTF-8 bytes. -/
def byteOrderMark : Bytes :=
  [0xEF, 0xBB, 0xBF]

/-
  The tokens of a file.  A byte order mark at its start is
  left out and not counted.
-/
def tokens (bs : Bytes) : Feed Token :=
  if byteOrderMark.isPrefixOf bs then
    tokensFrom 0 (bs.drop 3)
  else
    tokensFrom 0 bs

end Markup

end AutomataStore
