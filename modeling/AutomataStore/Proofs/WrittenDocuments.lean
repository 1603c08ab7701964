import AutomataStore.Proofs.EventForests
import AutomataStore.Proofs.IndentedForests
import AutomataStore.Proofs.WrittenTags

/-
  Written documents are read back.

  The bytes of a document are cut into its tokens, with texts
  that follow each other in one piece; the tokens are read as
  events, and the events are assembled into the canonical
  form of the document.

  Key definitions include:
    * `Token.Spells`
    * `Node.Writable`, `Document.Writable`
    * `Markup.Reads`

  Main declarations:
    * `Token.spells_mergeRuns`
    * `Document.parse_toBytes`
    * `Document.parse_toText`
-/

------------------------------------------------------------
-- Tokens that Spell Forests
------------------------------------------------------------

namespace AutomataStore

open Markup

/-
  Tokens that spell a forest, as they are written.  Names are
  names, and comments do not contain their end.
-/
inductive Markup.Token.Spells :
    List Token → List Node → Prop where
  | nil : Spells [] []
  | element
      {tag : String}
      {attributes : List Attribute}
      {inner rest : List Token}
      {children nodes : List Node}
      (hTag : IsName tag)
      (hAttributes : NamesApart attributes) :
      Spells inner children → Spells rest nodes →
        Spells
          (.opening (Layout.tagContent tag attributes) ::
            inner ++ .closing (Utf8.encode tag) :: rest)
          (.element tag attributes children :: nodes)
  | empty
      {tag : String}
      {attributes : List Attribute}
      {rest : List Token}
      {nodes : List Node}
      (hTag : IsName tag)
      (hAttributes : NamesApart attributes) :
      Spells rest nodes →
        Spells
          (.empty (Layout.tagContent tag attributes) :: rest)
          (.element tag attributes [] :: nodes)
  | text
      {content : String}
      {rest : List Token}
      {nodes : List Node} :
      Spells rest nodes →
        Spells
          (.text (Utf8.encode (Reference.escape content)) ::
            rest)
          (.text content :: nodes)
  | comment
      {content : String}
      {rest : List Token}
      {nodes : List Node}
      (hContent : IsCommentText content) :
      Spells rest nodes →
        Spells
          (.comment (Utf8.encode content) :: rest)
          (.comment content :: nodes)

namespace Markup.Token

/- Forests that follow each other are spelled in order. -/
theorem Spells.append
    {ts us : List Token}
    {nodes others : List Node}
    (hts : Spells ts nodes)
    (hus : Spells us others) :
    Spells (ts ++ us) (nodes ++ others) := by
  induction hts with
  | nil => exact hus
  | @element tag attributes inner rest children nodes
      hTag hAttributes hInner _ _ ihRest =>
      have hWhole :=
        Spells.element hTag hAttributes hInner ihRest
      simpa using hWhole
  | empty hTag hAttributes _ ih =>
      exact Spells.empty hTag hAttributes ih
  | text _ ih => exact Spells.text ih
  | comment hContent _ ih =>
      exact Spells.comment hContent ih

/- Every token that spells a part of a forest is recoverable. -/
theorem recoverable_of_spells
    {ts : List Token}
    {nodes : List Node}
    (hSpells : Spells ts nodes) :
    ∀ t ∈ ts, t.Recoverable := by
  induction hSpells with
  | nil =>
      intro t ht
      cases ht
  | element hTag hAttributes _ _ ihInner ihRest =>
      intro t ht
      simp only [List.cons_append, List.mem_cons,
        List.mem_append] at ht
      rcases ht with rfl | ht | rfl | ht
      · exact recoverable_opening hTag hAttributes.1
      · exact ihInner t ht
      · exact recoverable_closing hTag
      · exact ihRest t ht
  | empty hTag hAttributes _ ih =>
      intro t ht
      rcases List.mem_cons.mp ht with rfl | ht
      · exact recoverable_empty hTag hAttributes.1
      · exact ih t ht
  | text _ ih =>
      intro t ht
      rcases List.mem_cons.mp ht with rfl | ht
      · rw [recoverable_text_iff]
        exact byte_not_mem_encode_escape (by decide) _
      · exact ih t ht
  | comment hContent _ ih =>
      intro t ht
      rcases List.mem_cons.mp ht with rfl | ht
      · exact recoverable_comment hContent
      · exact ih t ht

/- Text between delimiters is text. -/
theorem isEncoded_spell
    {t : Token}
    (ht : Utf8.IsEncoded t.content) :
    Utf8.IsEncoded t.spell := by
  have hBefore : Utf8.IsEncoded t.before := by
    cases t with
    | text _ => exact Utf8.isEncoded_encode ""
    | _ => exact isEncoded_mark (by decide)
  have hAfter : Utf8.IsEncoded t.after := by
    cases t with
    | text _ => exact Utf8.isEncoded_encode ""
    | _ => exact isEncoded_mark (by decide)
  exact Utf8.isEncoded_append
    (Utf8.isEncoded_append hBefore ht) hAfter

/- The content of every token that spells a part is text. -/
theorem isEncoded_of_spells
    {ts : List Token}
    {nodes : List Node}
    (hSpells : Spells ts nodes) :
    ∀ t ∈ ts, Utf8.IsEncoded t.content := by
  induction hSpells with
  | nil =>
      intro t ht
      cases ht
  | element _ _ _ _ ihInner ihRest =>
      intro t ht
      simp only [List.cons_append, List.mem_cons,
        List.mem_append] at ht
      rcases ht with rfl | ht | rfl | ht
      · exact isEncoded_tagContent _ _
      · exact ihInner t ht
      · exact Utf8.isEncoded_encode _
      · exact ihRest t ht
  | empty _ _ _ ih =>
      intro t ht
      rcases List.mem_cons.mp ht with rfl | ht
      · exact isEncoded_tagContent _ _
      · exact ih t ht
  | text _ ih =>
      intro t ht
      rcases List.mem_cons.mp ht with rfl | ht
      · rw [content]
        exact Utf8.isEncoded_encode _
      · exact ih t ht
  | comment _ _ ih =>
      intro t ht
      rcases List.mem_cons.mp ht with rfl | ht
      · exact Utf8.isEncoded_encode _
      · exact ih t ht

/- A text put before a spelled forest is spelled before it. -/
theorem spells_joinRun
    (content : String)
    {ts : List Token}
    {nodes : List Node}
    (hSpells : Spells ts nodes) :
    Spells
      (joinRun (Utf8.encode (Reference.escape content)) ts)
      (Node.joinText content nodes) := by
  by_cases hEmpty : content = ""
  · have hNone := (encode_escape_eq_nil_iff content).mpr hEmpty
    rw [hNone, joinRun_nil, hEmpty, Node.joinText_empty]
    exact hSpells
  · have hSome :
        Utf8.encode (Reference.escape content) ≠ [] :=
      fun h => hEmpty ((encode_escape_eq_nil_iff _).mp h)
    -- Before anything but text, the text stands on its own.
    have hAlone :
        Spells
          (.text (Utf8.encode (Reference.escape content)) ::
            ts)
          (.text content :: nodes) :=
      Spells.text hSpells
    cases hSpells with
    | text hRest =>
        simp only [joinRun, Node.joinText]
        rw [← Utf8.encode_append, ← escape_append]
        exact Spells.text hRest
    | nil =>
        rw [joinRun, Node.joinText, if_neg hSome,
          if_neg hEmpty]
        · exact hAlone
        all_goals simp
    | element hTag hAttributes hInner hRest =>
        rw [List.cons_append,
          joinRun_of_not_isText _ rfl,
          Node.joinText_cons _ rfl, if_neg hSome,
          if_neg hEmpty]
        exact hAlone
    | empty hTag hAttributes hRest =>
        rw [joinRun_of_not_isText _ rfl,
          Node.joinText_cons _ rfl, if_neg hSome,
          if_neg hEmpty]
        exact hAlone
    | comment hContent hRest =>
        rw [joinRun_of_not_isText _ rfl,
          Node.joinText_cons _ rfl, if_neg hSome,
          if_neg hEmpty]
        exact hAlone

/-
  Merging the runs of tokens spells the forest with its texts
  merged.
-/
theorem spells_mergeRuns
    {ts : List Token}
    {nodes : List Node}
    (hSpells : Spells ts nodes) :
    Spells (mergeRuns ts) (Node.mergeTexts nodes) := by
  induction hSpells with
  | nil =>
      simp only [mergeRuns, Node.mergeTexts]
      exact Spells.nil
  | element hTag hAttributes _ _ ihInner ihRest =>
      rw [List.cons_append, mergeRuns_cons rfl,
        mergeRuns_append_cons rfl]
      simp only [Node.mergeTexts]
      exact Spells.element hTag hAttributes ihInner ihRest
  | empty hTag hAttributes _ ih =>
      rw [mergeRuns_cons rfl]
      simp only [Node.mergeTexts]
      exact Spells.empty hTag hAttributes ih
  | text _ ih =>
      simp only [mergeRuns, Node.mergeTexts]
      exact spells_joinRun _ ih
  | comment hContent _ ih =>
      rw [mergeRuns_cons rfl]
      simp only [Node.mergeTexts]
      exact Spells.comment hContent ih

end Markup.Token

------------------------------------------------------------
-- Written Forests
------------------------------------------------------------

namespace Node

/-
  A forest can be written when its elements and attributes
  have names, no element has two attributes of one name, and
  no comment contains its end.
-/
def Writable : List Node → Prop
  | [] => True
  | .element tag attributes children :: rest =>
      IsName tag ∧ NamesApart attributes ∧
        Writable children ∧ Writable rest
  | .text _ :: rest => Writable rest
  | .comment content :: rest =>
      IsCommentText content ∧ Writable rest

end Node

namespace Layout

/- The bytes of a line break. -/
theorem encode_escape_gapText
    (l : Layout)
    (depth : Nat) :
    Utf8.encode (Reference.escape (l.gapText depth)) =
      byte '\n' ::
        List.replicate (depth * l.indent) (byte ' ') := by
  have hSpaces :
      ∀ n,
        Utf8.encodeChars
            (Reference.escapeChars (List.replicate n ' ')) =
          List.replicate n (byte ' ') := by
    intro n
    induction n with
    | zero => rfl
    | succ n ih =>
        rw [List.replicate_succ, List.replicate_succ, ← ih]
        rfl
  rw [← hSpaces]
  simp only [Reference.escape, gapText, Utf8.encode,
    String.toList_ofList]
  rfl

/- A line break spells its text. -/
theorem spells_gap
    (l : Layout)
    (depth : Nat)
    (due : Bool) :
    Token.Spells (l.gap depth due) (l.gapNodes depth due) := by
  unfold gap gapNodes
  split
  · rw [← encode_escape_gapText]
    exact Token.Spells.text Token.Spells.nil
  · exact Token.Spells.nil

/- The tokens of an element and of the forest after it. -/
theorem forest_element
    (l : Layout)
    (depth : Nat)
    (due : Bool)
    (tag : String)
    (attributes : List Attribute)
    (children rest : List Node) :
    l.forest depth due
        (.element tag attributes children :: rest) =
      l.gap depth due ++
        ((if children.isEmpty then
          [Token.empty (tagContent tag attributes)]
        else
          Token.opening (tagContent tag attributes) ::
            (l.forest (depth + 1) true children ++
              l.gap depth (dueAfter true children)) ++
            [Token.closing (Utf8.encode tag)]) ++
          l.forest depth true rest) := by
  rw [forest, forestBefore]
  split
  · rfl
  · rw [forestBefore_eq]
    simp [forest]

/- A forest that can be written is spelled with line breaks. -/
theorem spells_forest
    (l : Layout)
    (depth : Nat)
    (due : Bool)
    {nodes : List Node}
    (hNodes : Node.Writable nodes) :
    Token.Spells (l.forest depth due nodes)
      (l.indentedForest depth due nodes) := by
  induction nodes using Node.forestInduction
    generalizing depth due with
  | nil =>
      simp only [forest, forestBefore, indentedForest]
      exact Token.Spells.nil
  | element tag attributes children rest ihInner ihRest =>
      simp only [Node.Writable] at hNodes
      rcases hNodes with
        ⟨hTag, hAttributes, hChildren, hRest⟩
      have hAfter := ihRest depth true hRest
      rw [forest_element, indentedForest]
      apply Token.Spells.append (l.spells_gap depth due)
      split
      · exact Token.Spells.empty hTag hAttributes hAfter
      · have hInner :=
          Token.Spells.append
            (ihInner (depth + 1) true hChildren)
            (l.spells_gap depth (dueAfter true children))
        have hWhole :=
          Token.Spells.element hTag hAttributes hInner hAfter
        simpa using hWhole
  | text content rest ih =>
      simp only [Node.Writable] at hNodes
      simp only [forest, forestBefore, indentedForest]
      exact Token.Spells.text (ih depth false hNodes)
  | comment content rest ih =>
      simp only [Node.Writable] at hNodes
      simp only [forest, forestBefore, indentedForest]
      apply Token.Spells.append (l.spells_gap depth due)
      exact Token.Spells.comment hNodes.1
        (ih depth true hNodes.2)

end Layout

------------------------------------------------------------
-- Events of Tokens
------------------------------------------------------------

/-
  Tokens are read as events, from the names that are open
  before them to those open after them.
-/
inductive Markup.Reads :
    List Bytes → List Token → List Event → List Bytes →
      Prop where
  | nil (opened : List Bytes) : Reads opened [] [] opened
  | cons
      {opened between after : List Bytes}
      {t : Token}
      {ts : List Token}
      {e : Event}
      {es : List Event}
      (hToken : readToken opened t = .ok (e, between)) :
      Reads between ts es after →
        Reads opened (t :: ts) (e :: es) after

namespace Markup

/- Readings go on where the ones before them stopped. -/
theorem Reads.append
    {opened between after : List Bytes}
    {ts us : List Token}
    {es fs : List Event}
    (hts : Reads opened ts es between)
    (hus : Reads between us fs after) :
    Reads opened (ts ++ us) (es ++ fs) after := by
  induction hts with
  | nil _ => exact hus
  | cons hToken _ ih => exact Reads.cons hToken (ih hus)

/- A feed of tokens that are read is a feed of their events. -/
theorem eventsFrom_delivers
    {f : Feed Token}
    {opened after : List Bytes}
    {ts : List Token}
    {es : List Event}
    (hFeed : f.Delivers ts)
    (hReads : Reads opened ts es after) :
    (eventsFrom opened f).Delivers es := by
  induction f generalizing opened ts es with
  | complete offset =>
      rw [Feed.delivers_complete] at hFeed
      subst hFeed
      cases hReads
      simp [eventsFrom]
  | broken offset fault =>
      cases hFeed.1
  | item t offset rest ih =>
      rcases hFeed with ⟨hComplete, rfl⟩
      simp only [Feed.items] at hReads
      cases hReads with
      | cons hToken hRest =>
          simp only [eventsFrom, hToken]
          rw [Feed.delivers_item]
          exact ih ⟨hComplete, rfl⟩ hRest

/-
  Tokens that spell a forest are read as events that spell
  it, whatever is open around it.
-/
theorem exists_reads_of_spells
    {ts : List Token}
    {nodes : List Node}
    (hSpells : Token.Spells ts nodes)
    (opened : List Bytes) :
    ∃ es, Reads opened ts es opened ∧
      Event.Spells es nodes := by
  induction hSpells generalizing opened with
  | nil => exact ⟨[], Reads.nil opened, Event.Spells.nil⟩
  | @element tag attributes inner rest children nodes
      hTag hAttributes _ _ ihInner ihRest =>
      rcases ihInner (Utf8.encode tag :: opened) with
        ⟨inside, hInside, hInner⟩
      rcases ihRest opened with ⟨es, hReads, hEvents⟩
      have hClosing :=
        Reads.cons (readToken_closing hTag opened) hReads
      refine
        ⟨.start tag attributes :: inside ++ .finish :: es,
          ?_, Event.Spells.element hInner hEvents⟩
      exact Reads.cons
        (readToken_opening hTag hAttributes opened)
        (Reads.append hInside hClosing)
  | @empty tag attributes rest nodes hTag hAttributes _ ih =>
      rcases ih opened with ⟨es, hReads, hEvents⟩
      exact
        ⟨.empty tag attributes :: es,
          Reads.cons
            (readToken_empty hTag hAttributes opened) hReads,
          Event.Spells.empty hEvents⟩
  | @text content rest nodes _ ih =>
      rcases ih opened with ⟨es, hReads, hEvents⟩
      refine ⟨.text content :: es, Reads.cons ?_ hReads,
        Event.Spells.text hEvents⟩
      simp only [readToken, readText_encode_escape]
      rfl
  | @comment content rest nodes hContent _ ih =>
      rcases ih opened with ⟨es, hReads, hEvents⟩
      refine ⟨.comment content :: es, Reads.cons ?_ hReads,
        Event.Spells.comment hEvents⟩
      simp only [readToken, Utf8.decodeLossy_encode]

end Markup

------------------------------------------------------------
-- Reading Back Documents
------------------------------------------------------------

namespace Document

/- A document can be written when its root can. -/
def Writable (d : Document) : Prop :=
  Node.Writable [d.root.toNode]

/- Markup at the start of a file is no byte order mark. -/
theorem tokens_markup
    (bs : Bytes) :
    tokens (byte '<' :: bs) =
      tokensFrom 0 (byte '<' :: bs) := by
  have hMark :
      byteOrderMark.isPrefixOf (byte '<' :: bs) = false := by
    rfl
  simp [tokens, hMark]

/- The first token of a document is markup. -/
theorem exists_toTokens_eq_cons
    (d : Document)
    (l : Layout) :
    ∃ t ts, d.toTokens l = t :: ts ∧ t.isText = false := by
  unfold toTokens
  split
  · exact ⟨_, _, rfl, rfl⟩
  · have hNoGap : l.gap 0 false = [] := by
      simp [Layout.gap]
    rw [Element.toNode, Layout.forest_element, hNoGap,
      List.nil_append]
    split
    · exact ⟨_, _, rfl, rfl⟩
    · exact ⟨_, _, rfl, rfl⟩

/- Every token of a document is recoverable. -/
theorem recoverable_of_mem_toTokens
    {d : Document}
    (hd : d.Writable)
    (l : Layout) :
    ∀ t ∈ d.toTokens l, t.Recoverable := by
  intro t ht
  unfold toTokens at ht
  split at ht
  · rcases List.mem_cons.mp ht with rfl | ht
    · exact Token.recoverable_declaration
    · exact Token.recoverable_of_spells
        (l.spells_forest 0 true hd) t ht
  · exact Token.recoverable_of_spells
      (l.spells_forest 0 false hd) t ht

/- The bytes of a document are cut into its tokens. -/
theorem tokens_toBytes_delivers
    {d : Document}
    (hd : d.Writable)
    (l : Layout) :
    (tokens (d.toBytes l)).Delivers
      (Token.mergeRuns (d.toTokens l)) := by
  have hTokens :=
    tokensFrom_spell_delivers (d.toTokens l)
      (recoverable_of_mem_toTokens hd l) [] (by simp) 0
  rw [Token.joinRun_nil, List.nil_append] at hTokens
  rcases d.exists_toTokens_eq_cons l with
    ⟨t, ts, hCons, ht⟩
  have hStart :
      tokens (d.toBytes l) = tokensFrom 0 (d.toBytes l) := by
    rw [toBytes, hCons, List.flatMap_cons,
      Token.spell_eq_cons ht, List.cons_append]
    exact tokens_markup _
  rw [hStart]
  exact hTokens

/-
  The tokens of the root, after a line break or not, are read
  and assembled into the root in canonical form, with the
  line breaks inside it.
-/
theorem exists_reads_root
    {d : Document}
    (hd : d.Writable)
    (l : Layout)
    (due : Bool) :
    ∃ es,
      Reads []
          (Token.mergeRuns (l.forest 0 due [d.root.toNode]))
          es [] ∧
        es.foldlM Assembly.step {} =
          .ok ⟨[], some (Element.canonical
            { d.root with
              children :=
                l.indentedChildren 0 d.root.children })⟩ := by
  have hSpells :=
    Token.spells_mergeRuns (l.spells_forest 0 due hd)
  rcases exists_reads_of_spells hSpells [] with
    ⟨es, hReads, hEvents⟩
  refine ⟨es, hReads, ?_⟩
  have hForest :
      l.indentedForest 0 due [d.root.toNode] =
        l.gapNodes 0 due ++
          [.element d.root.tag d.root.attributes
            (l.indentedChildren 0 d.root.children)] := by
    simp [Element.toNode, Layout.indentedForest,
      Layout.indentedChildren]
  rw [hForest] at hEvents
  unfold Layout.gapNodes at hEvents
  split at hEvents
  · -- The line break before the root is blank and dropped.
    have hBlank := Layout.isBlankText_gapText l 0
    rw [List.singleton_append] at hEvents
    simp only [Node.mergeTexts] at hEvents
    rw [Node.joinText_cons _ rfl,
      if_neg (Layout.gapText_ne_empty l 0)] at hEvents
    cases hEvents with
    | text hRoot =>
        have hGap :
            Assembly.step {} (.text (l.gapText 0)) =
              .ok {} := by
          simp [Assembly.step, Assembly.appendNode, hBlank]
        rw [Assembly.foldlM_step_cons hGap]
        exact Assembly.foldlM_step_root_of_spells hRoot
  · simp only [List.nil_append, Node.mergeTexts] at hEvents
    exact Assembly.foldlM_step_root_of_spells hEvents

/-
  A written document is parsed as its canonical form, with
  the line breaks of its layout inside it.
-/
theorem parse_toBytes
    {d : Document}
    (hd : d.Writable)
    (l : Layout) :
    parse (d.toBytes l) =
      .ok ⟨Element.canonical
        { d.root with
          children :=
            l.indentedChildren 0 d.root.children }⟩ := by
  have hTokens := tokens_toBytes_delivers hd l
  unfold toTokens at hTokens
  unfold parse events
  split at hTokens
  · rcases exists_reads_root hd l true with
      ⟨es, hReads, hSteps⟩
    rw [Token.mergeRuns_cons rfl] at hTokens
    have hDeclaration :
        readToken []
            (.instruction
              (Utf8.encode Layout.declarationText)) =
          .ok (.skipped, []) :=
      rfl
    have hAll := Reads.cons hDeclaration hReads
    exact assemble_of_delivers
      (eventsFrom_delivers hTokens hAll) hSteps
  · rcases exists_reads_root hd l false with
      ⟨es, hReads, hSteps⟩
    exact assemble_of_delivers
      (eventsFrom_delivers hTokens hReads) hSteps

/- The bytes of a document are text. -/
theorem isEncoded_toBytes
    {d : Document}
    (hd : d.Writable)
    (l : Layout) :
    Utf8.IsEncoded (d.toBytes l) := by
  apply Utf8.isEncoded_flatMap
  intro t ht
  apply Token.isEncoded_spell
  unfold toTokens at ht
  split at ht
  · rcases List.mem_cons.mp ht with rfl | ht
    · exact Utf8.isEncoded_encode _
    · exact Token.isEncoded_of_spells
        (l.spells_forest 0 true hd) t ht
  · exact Token.isEncoded_of_spells
      (l.spells_forest 0 false hd) t ht

/-
  A written document is parsed as its canonical form, if its
  layout has no line breaks or every comment stands beside an
  element.
-/
theorem parse_toBytes_eq_canonical
    {d : Document}
    (hd : d.Writable)
    {l : Layout}
    (hLayout :
      l.indent = 0 ∨
        Node.CommentsBesideElements [d.root.toNode]) :
    parse (d.toBytes l) = .ok d.canonical := by
  rw [parse_toBytes hd l,
    l.canonical_indented 0 d.root hLayout]
  rfl

/-
  Writing a document as text and parsing the text gives its
  canonical form; a canonical document is read back exactly.
-/
theorem parse_toText
    (d : Document)
    (l : Layout)
    (hd : d.Writable)
    (hLayout :
      l.indent = 0 ∨
        Node.CommentsBesideElements [d.root.toNode]) :
    Utf8.decode (d.toBytes l) = .ok (d.toText l) ∧
      parse (Utf8.encode (d.toText l)) = .ok d.canonical ∧
      (d.canonical = d →
        parse (Utf8.encode (d.toText l)) = .ok d) := by
  have hText :=
    Utf8.decode_of_isEncoded (isEncoded_toBytes hd l)
  have hParse := parse_toBytes_eq_canonical hd hLayout
  have hEncode : Utf8.encode (d.toText l) = d.toBytes l :=
    hText.2
  refine ⟨hText.1, ?_, ?_⟩
  · rw [hEncode]
    exact hParse
  · intro hCanonical
    rw [hEncode, hParse, hCanonical]

/- A note with a comment, texts in a row and gaps. -/
def sampleNote : Document :=
  ⟨{ tag := "note"
     attributes := [⟨"to", "<a> & \"b\""⟩]
     children :=
       [.comment "first -- part",
        .element "p" [] [.text " ", .text "", .text "x]]>"],
        .text "\n",
        .element "q" [] [.text "", .text "\t"],
        .text " "] }⟩

/- The note is read back without its gaps. -/
theorem parse_toText_sampleNote :
    sampleNote.Writable ∧
      Node.CommentsBesideElements
        [sampleNote.root.toNode] ∧
      parse (Utf8.encode (sampleNote.toText {})) =
        .ok ⟨{ sampleNote.root with
          children :=
            [.comment "first -- part",
             .element "p" [] [.text " x]]>"],
             .element "q" [] [.text "\t"]] }⟩ := by
  have hWritable : sampleNote.Writable := by
    simp only [Writable, sampleNote, Element.toNode,
      Node.Writable]
    decide +kernel
  have hBeside :
      Node.CommentsBesideElements
        [sampleNote.root.toNode] := by
    simp [sampleNote, Element.toNode,
      Node.CommentsBesideElements, Node.isComment,
      Node.isElement]
  have hBreak : Text.IsBlankText "\n" := by decide +kernel
  have hSpace : Text.IsBlankText " " := by decide +kernel
  have hCanonical :
      sampleNote.canonical =
        ⟨{ sampleNote.root with
          children :=
            [.comment "first -- part",
             .element "p" [] [.text " x]]>"],
             .element "q" [] [.text "\t"]] }⟩ := by
    simp [canonical, Element.canonical, Element.normalize,
      sampleNote, Node.mergeTexts, Node.joinText,
      Node.normalizeInside, Node.dropGaps, Node.isElement,
      hBreak, hSpace]
  refine ⟨hWritable, hBeside, ?_⟩
  rw [← hCanonical]
  exact (parse_toText sampleNote {} hWritable
    (Or.inr hBeside)).2.1

end Document

end AutomataStore
