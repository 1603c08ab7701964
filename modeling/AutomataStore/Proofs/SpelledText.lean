import AutomataStore.Proofs.RecursiveReading
import AutomataStore.Proofs.WrittenDocuments

/-
  Text in all its spellings.

  The text inside an element is cut into pieces, each one
  written as character data or as a CDATA section, with
  comments and processing instructions between them.  The
  element is read back with the text that the pieces make up,
  wherever the cuts are and however a piece is written.

  Key definitions include:
    * `Markup.Piece`
    * `Piece.content`, `Piece.written`
    * `Document.around`

  Main declarations:
    * `Piece.exists_map_token_eq_mergeRuns`
    * `Document.parse_around`
    * `Document.text_of_pieces`
-/

------------------------------------------------------------
-- CDATA Sections and Instructions
------------------------------------------------------------

namespace AutomataStore

namespace Markup

/- The characters that end a CDATA section. -/
def cdataEnd : List Char :=
  [']', ']', '>']

/- A text that can be a CDATA section does not end it. -/
def IsCDataText (s : String) : Prop :=
  ¬ cdataEnd <:+: s.toList

instance
    (s : String) :
    Decidable (IsCDataText s) :=
  inferInstanceAs (Decidable (¬ cdataEnd <:+: s.toList))

/- The characters that end an instruction. -/
def instructionEnd : List Char :=
  ['?', '>']

/-
  A text that can be an instruction does not end it, also not
  together with the `?` before it.
-/
def IsInstructionText (s : String) : Prop :=
  s.toList.head? ≠ some '>' ∧
    ¬ instructionEnd <:+: s.toList

instance
    (s : String) :
    Decidable (IsInstructionText s) :=
  inferInstanceAs
    (Decidable
      (s.toList.head? ≠ some '>' ∧
        ¬ instructionEnd <:+: s.toList))

/- The bytes of a text that is an instruction do not end it. -/
theorem not_infix_of_isInstructionText
    {s : String}
    (hs : IsInstructionText s) :
    ¬ mark instructionEnd <:+:
      byte '?' :: Utf8.encode s := by
  have hAscii : IsAscii instructionEnd := by decide
  intro h
  rcases List.infix_cons_iff.mp h with hPrefix | hInner
  · have hTail := (List.cons_prefix_cons.mp hPrefix).2
    have hStarts : ['>'] <+: s.toList :=
      prefix_of_mark (by decide) hTail
    rcases hStarts with ⟨cs, hcs⟩
    apply hs.1
    rw [← hcs]
    rfl
  · exact hs.2 (infix_of_mark hAscii hInner)

/- A section with its keyword at the front is taken. -/
theorem takeCData_of_cutAt
    {bs content rest : Bytes}
    (hCut :
      cutAt (mark cdataEnd) bs =
        some (mark ['[', 'C', 'D', 'A', 'T', 'A', '['] ++
          content, rest)) :
    takeCData bs = .token (.cdata content) rest := by
  have hMark : mark [']', ']', '>'] = mark cdataEnd := rfl
  rw [takeCData, hMark, hCut]
  simp [mark]

namespace Token

/- A CDATA section is recoverable. -/
theorem recoverable_cdata
    {s : String}
    (hs : IsCDataText s) :
    (cdata (Utf8.encode s)).Recoverable := by
  apply recoverable_of_take rfl
  intro rest
  -- The end is looked for from the keyword on.
  have hContent :
      ¬ mark cdataEnd <:+:
        mark ['[', 'C', 'D', 'A', 'T', 'A', '['] ++
          Utf8.encode s := by
    intro h
    have hInner := infix_of_infix_append (by decide) h
    exact hs (infix_of_mark (by decide) hInner)
  have hLast : byte '>' ∉ mark [']', ']'] := by decide
  have hCut :
      cutAt (mark cdataEnd)
          (mark ['[', 'C', 'D', 'A', 'T', 'A', '['] ++
            Utf8.encode s ++ mark cdataEnd ++ rest) =
        some (mark ['[', 'C', 'D', 'A', 'T', 'A', '['] ++
          Utf8.encode s, rest) :=
    cutAt_append hLast hContent rest
  have hSpell :
      (cdata (Utf8.encode s)).spell.drop 1 ++ rest =
        byte '!' ::
          (mark ['[', 'C', 'D', 'A', 'T', 'A', '['] ++
            Utf8.encode s ++ mark cdataEnd ++ rest) := by
    simp [spell, before, content, after, mark, cdataEnd]
  have hTake :
      ∀ bs,
        takeMarkup (byte '!' :: byte '[' :: bs) =
          takeCData (byte '[' :: bs) :=
    fun _ => rfl
  rw [hSpell]
  exact (hTake _).trans (takeCData_of_cutAt hCut)

/- An instruction is recoverable. -/
theorem recoverable_instruction
    {s : String}
    (hs : IsInstructionText s) :
    (instruction (Utf8.encode s)).Recoverable := by
  apply recoverable_of_take rfl
  intro rest
  have hLast : byte '>' ∉ mark ['?'] := by decide
  have hCut :
      cutAt (mark ['?', '>'])
          (byte '?' :: Utf8.encode s ++
            mark instructionEnd ++ rest) =
        some (byte '?' :: Utf8.encode s, rest) :=
    cutAt_append hLast
      (not_infix_of_isInstructionText hs) rest
  have hSpell :
      (instruction (Utf8.encode s)).spell.drop 1 ++ rest =
        byte '?' :: Utf8.encode s ++ mark instructionEnd ++
          rest := by
    simp [spell, before, content, after, mark,
      instructionEnd]
  have hTake :
      ∀ bs,
        takeMarkup (byte '?' :: bs) =
          takeInstruction (byte '?' :: bs) :=
    fun _ => rfl
  rw [hSpell, List.cons_append, List.cons_append, hTake,
    takeInstruction, ← List.cons_append, ← List.cons_append,
    hCut]

end Token

------------------------------------------------------------
-- Pieces
------------------------------------------------------------

/-
  A piece of what is written inside an element: a part of its
  text, as character data or as a CDATA section, or markup
  that adds no text.
-/
inductive Piece where
  | data
      (content written : String)
      (hWritten :
        Reference.Escapes content.toList written.toList)
  | cdata
      (content : String)
      (hContent : IsCDataText content)
  | comment
      (content : String)
      (hContent : IsCommentText content)
  | instruction
      (content : String)
      (hContent : IsInstructionText content)

namespace Piece

/- Character data with every character that has a name by it. -/
def escaped (content : String) : Piece :=
  .data content (Reference.escape content)
    (Reference.escapes_escape content)

/- The part of the text that a piece is. -/
def content : Piece → String
  | .data content _ _ => content
  | .cdata content _ => content
  | .comment _ _ => ""
  | .instruction _ _ => ""

/- A piece as it is written. -/
def written : Piece → String
  | .data _ written _ => written
  | .cdata content _ => "<![CDATA[" ++ content ++ "]]>"
  | .comment content _ => "<!--" ++ content ++ "-->"
  | .instruction content _ => "<?" ++ content ++ "?>"

/- The text that pieces make up. -/
def text (ps : List Piece) : String :=
  String.join (ps.map content)

/- The token of a piece. -/
def token : Piece → Token
  | .data _ written _ => .text (Utf8.encode written)
  | .cdata content _ => .cdata (Utf8.encode content)
  | .comment content _ => .comment (Utf8.encode content)
  | .instruction content _ =>
      .instruction (Utf8.encode content)

/- The event of a piece. -/
def event : Piece → Event
  | .data content _ _ => .text content
  | .cdata content _ => .text content
  | .comment content _ => .comment content
  | .instruction _ _ => .skipped

/- The nodes that a piece adds to its element. -/
def nodes : Piece → List Node
  | .data content _ _ => [.text content]
  | .cdata content _ => [.text content]
  | .comment content _ => [.comment content]
  | .instruction _ _ => []

@[simp]
theorem text_cons
    (p : Piece)
    (ps : List Piece) :
    text (p :: ps) = p.content ++ text ps := by
  simp [text, String.join_cons]

/- A piece is written as its token is spelled. -/
theorem encode_written
    (p : Piece) :
    Utf8.encode p.written = p.token.spell := by
  cases p with
  | data content written hWritten =>
      simp [Piece.written, token, Token.spell, Token.before,
        Token.content, Token.after]
  | _ =>
      simp only [written, Utf8.encode_append]
      rfl

/- Every piece is recoverable. -/
theorem recoverable_token
    (p : Piece) :
    p.token.Recoverable := by
  cases p with
  | data content written hWritten =>
      exact Token.recoverable_text_iff.mpr
        (less_not_mem_encode_of_escapes hWritten)
  | cdata content hContent =>
      exact Token.recoverable_cdata hContent
  | comment content hContent =>
      exact Token.recoverable_comment hContent
  | instruction content hContent =>
      exact Token.recoverable_instruction hContent

/- The token of a piece is read as its event. -/
theorem readToken_token
    (p : Piece)
    (opened : List Bytes) :
    readToken opened p.token = .ok (p.event, opened) := by
  cases p with
  | data content written hWritten =>
      simp only [token, readToken,
        readText_of_escapes hWritten]
      rfl
  | cdata content hContent =>
      simp only [token, readToken, Utf8.decodeLossy_encode,
        event]
  | comment content hContent =>
      simp only [token, readToken, Utf8.decodeLossy_encode,
        event]
  | instruction content hContent => rfl

/- The tokens of pieces are read as their events. -/
theorem reads_map_token
    (ps : List Piece)
    (opened : List Bytes) :
    Reads opened (ps.map token) (ps.map event) opened := by
  induction ps with
  | nil => exact Reads.nil opened
  | cons p ps ih =>
      exact Reads.cons (p.readToken_token opened) ih

/- Only character data is spelled as such. -/
theorem eq_data_of_isText
    {p : Piece}
    (hp : p.token.isText = true) :
    ∃ content written hWritten,
      p = .data content written hWritten := by
  cases p with
  | data content written hWritten =>
      exact ⟨content, written, hWritten, rfl⟩
  | _ => cases hp

/- Character data before pieces is a piece before them. -/
theorem exists_map_token_eq_joinRun
    {content written : String}
    (hWritten :
      Reference.Escapes content.toList written.toList)
    (ps : List Piece) :
    ∃ qs : List Piece,
      qs.map token =
          Token.joinRun (Utf8.encode written)
            (ps.map token) ∧
        text qs = content ++ text ps := by
  by_cases hEmpty : written = ""
  · have hNone : content = "" := by
      subst hEmpty
      exact String.toList_eq_nil_iff.mp
        ((Reference.eq_nil_iff_of_escapes hWritten).mp rfl)
    refine ⟨ps, ?_, ?_⟩
    · rw [hEmpty]
      exact (Token.joinRun_nil _).symm
    · rw [hNone, String.empty_append]
  · have hSome : Utf8.encode written ≠ [] := by
      intro h
      exact hEmpty (Utf8.encode_injective h)
    cases ps with
    | nil =>
        refine ⟨[data content written hWritten], ?_, ?_⟩
        · simp [Token.joinRun, token, hSome]
        · exact text_cons ..
    | cons p ps =>
        cases hp : p.token.isText with
        | false =>
            refine
              ⟨data content written hWritten :: p :: ps, ?_,
                text_cons ..⟩
            rw [List.map_cons, List.map_cons,
              Token.joinRun_of_not_isText _ hp,
              if_neg hSome]
            rfl
        | true =>
            rcases eq_data_of_isText hp with
              ⟨more, spelled, hSpelled, rfl⟩
            have hBoth :
                Reference.Escapes (content ++ more).toList
                  (written ++ spelled).toList := by
              rw [String.toList_append,
                String.toList_append]
              exact hWritten.append hSpelled
            refine
              ⟨data (content ++ more) (written ++ spelled)
                hBoth :: ps, ?_, ?_⟩
            · simp [Token.joinRun, token,
                Utf8.encode_append]
            · simp [Piece.content, String.append_assoc]

/-
  Merging the runs of pieces gives pieces again, which make up
  the same text.
-/
theorem exists_map_token_eq_mergeRuns
    (ps : List Piece) :
    ∃ qs : List Piece,
      qs.map token = Token.mergeRuns (ps.map token) ∧
        text qs = text ps := by
  induction ps with
  | nil => exact ⟨[], rfl, rfl⟩
  | cons p ps ih =>
      rcases ih with ⟨qs, hTokens, hText⟩
      rw [text_cons, ← hText, List.map_cons]
      cases hp : p.token.isText with
      | false =>
          refine ⟨p :: qs, ?_, text_cons ..⟩
          rw [List.map_cons, hTokens,
            Token.mergeRuns_cons hp]
      | true =>
          rcases eq_data_of_isText hp with
            ⟨content, written, hWritten, rfl⟩
          rw [token, Token.mergeRuns, ← hTokens]
          exact exists_map_token_eq_joinRun hWritten qs

------------------------------------------------------------
-- Nodes of Pieces
------------------------------------------------------------

/- The events of pieces are read up to an end tag. -/
theorem read_map_event
    (ps : List Piece)
    (after : List Event) :
    forestOf (ps.map event ++ .finish :: after) =
        ps.flatMap nodes ∧
      restOf (ps.map event ++ .finish :: after) =
        .finish :: after := by
  induction ps with
  | nil => simp
  | cons p ps ih =>
      cases p <;> simp [event, nodes, ih.1, ih.2]

/- Pieces add no elements. -/
theorem any_isElement_nodes
    (ps : List Piece) :
    (ps.flatMap nodes).any Node.isElement = false := by
  have hOne :
      ∀ p : Piece, p.nodes.any Node.isElement = false := by
    intro p
    cases p <;> rfl
  rw [List.any_flatMap, List.any_eq_false]
  intro p _
  simp [hOne p]

/- The texts of the nodes are the text of the pieces. -/
theorem textOf_nodes
    (ps : List Piece) :
    Node.textOf (ps.flatMap nodes) = text ps := by
  induction ps with
  | nil => rfl
  | cons p ps ih =>
      cases p <;> simp [nodes, Node.textOf, content, ih]

end Piece

end Markup

------------------------------------------------------------
-- Documents of Pieces
------------------------------------------------------------

namespace Node

/- A forest without elements has no elements. -/
theorem elements_eq_nil
    {nodes : List Node}
    (hNone : nodes.any isElement = false) :
    elements nodes = [] := by
  induction nodes using forestInduction with
  | nil => rfl
  | element tag attributes children rest _ _ =>
      simp [isElement] at hNone
  | text content rest ih =>
      simp_all [elements, isElement]
  | comment content rest ih =>
      simp_all [elements, isElement]

/- A forest without elements has no gaps. -/
theorem normalizeInside_of_no_elements
    {nodes : List Node}
    (hNone : nodes.any isElement = false) :
    normalizeInside nodes = nodes := by
  induction nodes using forestInduction with
  | nil => simp [normalizeInside]
  | element tag attributes children rest _ _ =>
      simp [isElement] at hNone
  | text content rest ih =>
      simp_all [normalizeInside, isElement]
  | comment content rest ih =>
      simp_all [normalizeInside, isElement]

end Node

namespace Document

open Markup

/- The text of a document with pieces inside its root. -/
def around (tag : String) (ps : List Piece) : String :=
  "<" ++ tag ++ ">" ++ String.join (ps.map Piece.written) ++
    "</" ++ tag ++ ">"

/- The tokens of a document with pieces inside its root. -/
def tokensAround
    (tag : String)
    (ps : List Piece) : List Token :=
  .opening (Layout.tagContent tag []) ::
    (ps.map Piece.token ++ [.closing (Utf8.encode tag)])

/- The bytes of the document spell its tokens. -/
theorem encode_around
    (tag : String)
    (ps : List Piece) :
    Utf8.encode (around tag ps) =
      (tokensAround tag ps).flatMap Token.spell := by
  have hPieces :
      Utf8.encode (String.join (ps.map Piece.written)) =
        (ps.map Piece.token).flatMap Token.spell := by
    induction ps with
    | nil => rfl
    | cons p ps ih =>
        rw [List.map_cons, String.join_cons,
          Utf8.encode_append, ih, p.encode_written]
        rfl
  have hLess : Utf8.encode "<" = mark ['<'] := rfl
  have hGreater : Utf8.encode ">" = mark ['>'] := rfl
  have hSlash : Utf8.encode "</" = mark ['<', '/'] := rfl
  simp [around, tokensAround, Utf8.encode_append, hPieces,
    hLess, hGreater, hSlash, Token.spell, Token.before,
    Token.content, Token.after, tagContent_eq]

/- The bytes of the document are cut into its tokens. -/
theorem tokens_around_delivers
    {tag : String}
    (hTag : IsName tag)
    (ps : List Piece) :
    (tokens (Utf8.encode (around tag ps))).Delivers
      (Token.mergeRuns (tokensAround tag ps)) := by
  have hRecoverable :
      ∀ t ∈ tokensAround tag ps, t.Recoverable := by
    intro t ht
    simp only [tokensAround, List.mem_cons,
      List.mem_append, List.mem_map, List.not_mem_nil,
      or_false] at ht
    rcases ht with rfl | ⟨p, _, rfl⟩ | rfl
    · exact Token.recoverable_opening hTag (by simp)
    · exact p.recoverable_token
    · exact Token.recoverable_closing hTag
  have hTokens :=
    tokensFrom_spell_delivers (tokensAround tag ps)
      hRecoverable [] (by simp) 0
  rw [Token.joinRun_nil, List.nil_append,
    ← encode_around] at hTokens
  have hStart :
      tokens (Utf8.encode (around tag ps)) =
        tokensFrom 0 (Utf8.encode (around tag ps)) := by
    rw [encode_around, tokensAround, List.flatMap_cons,
      Token.spell_eq_cons rfl, List.cons_append]
    exact tokens_markup _
  rw [hStart]
  exact hTokens

/-
  The document is parsed as its root with the nodes of pieces
  that make up the same text.
-/
theorem parse_around
    {tag : String}
    (hTag : IsName tag)
    (ps : List Piece) :
    ∃ qs : List Piece,
      Piece.text qs = Piece.text ps ∧
        parse (Utf8.encode (around tag ps)) =
          .ok ⟨{ tag, children := qs.flatMap Piece.nodes }⟩
        := by
  rcases Piece.exists_map_token_eq_mergeRuns ps with
    ⟨qs, hMerged, hText⟩
  refine ⟨qs, hText, ?_⟩
  have hTokens := tokens_around_delivers hTag ps
  rw [tokensAround, Token.mergeRuns_cons rfl,
    Token.mergeRuns_append_cons rfl, ← hMerged] at hTokens
  have hReads :
      Reads []
        (.opening (Layout.tagContent tag []) ::
          (qs.map Piece.token ++
            [.closing (Utf8.encode tag)]))
        (.start tag [] ::
          (qs.map Piece.event ++ [.finish])) [] := by
    apply Reads.cons
      (readToken_opening hTag ⟨by simp, by simp⟩ [])
    apply Reads.append (Piece.reads_map_token qs _)
    exact Reads.cons (readToken_closing hTag [])
      (Reads.nil [])
  have hRead := Piece.read_map_event qs []
  have hNone := Piece.any_isElement_nodes qs
  have hNormal :
      Element.normalize
          ⟨tag, [], qs.flatMap Piece.nodes⟩ =
        ⟨tag, [], qs.flatMap Piece.nodes⟩ := by
    simp only [Element.normalize,
      Node.normalizeInside_of_no_elements hNone,
      Node.dropGaps, hNone]
    rfl
  unfold parse events
  apply assemble_of_delivers
    (eventsFrom_delivers hTokens hReads)
  rw [Assembly.foldlM_step_first_root hRead.2, hRead.1,
    hNormal]
  rfl

/-
  However the text inside an element is cut and written, with
  comments and instructions anywhere between the pieces, it
  is parsed as an element without elements inside it, whose
  text is what the pieces make up.
-/
theorem text_of_pieces
    (tag : String)
    (hTag : IsName tag)
    (ps : List Piece) :
    ∃ root,
      parse
          (Utf8.encode
            ("<" ++ tag ++ ">" ++
              String.join (ps.map Piece.written) ++
              "</" ++ tag ++ ">")) =
        .ok ⟨root⟩ ∧
      root.tag = tag ∧
      root.attributes = [] ∧
      root.elements = [] ∧
      root.text = String.join (ps.map Piece.content) := by
  rcases parse_around hTag ps with ⟨qs, hText, hParse⟩
  have hNone := Piece.any_isElement_nodes qs
  refine ⟨_, hParse, rfl, rfl, ?_, ?_⟩
  · exact Node.elements_eq_nil hNone
  · exact (Piece.textOf_nodes qs).trans hText

/- One character by its number, and markup, between texts. -/
def samplePieces : List Piece :=
  [.escaped " ",
   .cdata "<&" (by decide +kernel),
   .comment "a -- b" (by decide +kernel),
   .data "λ" "&#x03BB;"
    ((Reference.expandChars_eq_ok_iff (by decide +kernel)).mp
      (by decide +kernel)),
   .instruction "cut here" (by decide +kernel),
   .cdata "]]" (by decide +kernel),
   .escaped ">\n"]

/- The pieces make up one text. -/
theorem text_of_pieces_samplePieces :
    IsName "t" ∧
      ∃ root,
        parse
            (Utf8.encode
              ("<t> <![CDATA[<&]]><!--a -- b-->" ++
                "&#x03BB;<?cut here?><![CDATA[]]]]>" ++
                "&gt;\n</t>")) =
          .ok ⟨root⟩ ∧
        root.elements = [] ∧
        root.text = " <&λ]]>\n" := by
  have hTag : IsName "t" := by decide +kernel
  rcases text_of_pieces "t" hTag samplePieces with
    ⟨root, hParse, _, _, hElements, hText⟩
  have hWritten :
      "<" ++ "t" ++ ">" ++
          String.join (samplePieces.map Piece.written) ++
          "</" ++ "t" ++ ">" =
        "<t> <![CDATA[<&]]><!--a -- b-->" ++
          "&#x03BB;<?cut here?><![CDATA[]]]]>" ++
          "&gt;\n</t>" := by
    decide +kernel
  have hContent :
      String.join (samplePieces.map Piece.content) =
        " <&λ]]>\n" := by
    decide +kernel
  rw [hWritten] at hParse
  rw [hContent] at hText
  exact ⟨hTag, root, hParse, hElements, hText⟩

end Document

end AutomataStore
