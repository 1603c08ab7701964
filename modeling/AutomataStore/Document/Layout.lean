import AutomataStore.Document.Tree

/-
  Writing documents.

  A document is written as a list of tokens.  With an indent
  of zero there is nothing between them.  Otherwise every tag
  and comment stands on a line of its own, indented by its
  depth, unless text stands right before it.

  Key definitions include:
    * `Layout`
    * `Layout.forest`
    * `Document.toTokens`
    * `Document.toBytes`

  Correctness is proven by:
    * `Layout.forestBefore_eq`
-/

------------------------------------------------------------
-- Layouts
------------------------------------------------------------

namespace AutomataStore

open Markup (Attribute Token byte mark)

/-
  How a document is laid out: the spaces for each level of
  depth, and whether the declaration comes first.
-/
structure Layout where
  indent : Nat := 2
  declaration : Bool := true
deriving DecidableEq, Repr

namespace Layout

/- The declaration of a file in UTF-8. -/
def declarationText : String :=
  "xml version=\"1.0\" encoding=\"UTF-8\" standalone=\"no\""

/- The content of the tag that opens an element. -/
def tagContent
    (tag : String)
    (attributes : List Attribute) : Bytes :=
  Utf8.encode tag ++ attributes.flatMap fun a =>
    byte ' ' :: Utf8.encode a.name ++ mark ['=', '"'] ++
      Utf8.encode (Reference.escape a.value) ++ mark ['"']

/- The line break before a piece of markup, if one is due. -/
def gap
    (l : Layout)
    (depth : Nat)
    (due : Bool) : List Token :=
  if due = true ∧ 0 < l.indent then
    [.text (byte '\n' ::
      List.replicate (depth * l.indent) (byte ' '))]
  else
    []

/-
  Whether a line break is due after a forest.  Text puts it
  off, everything else makes it due.
-/
def dueAfter (due : Bool) : List Node → Bool
  | [] => due
  | n :: rest => dueAfter (!n.isText) rest

/-
  The tokens of a forest at a depth, before the tokens that
  come after it.
-/
def forestBefore
    (l : Layout)
    (depth : Nat)
    (due : Bool)
    (after : List Token) : List Node → List Token
  | [] => after
  | .element tag attributes children :: rest =>
      let after := l.forestBefore depth true after rest
      l.gap depth due ++
        if children.isEmpty then
          .empty (tagContent tag attributes) :: after
        else
          .opening (tagContent tag attributes) ::
            l.forestBefore (depth + 1) true
              (l.gap depth (dueAfter true children) ++
                .closing (Utf8.encode tag) :: after)
              children
  | .text content :: rest =>
      .text (Utf8.encode (Reference.escape content)) ::
        l.forestBefore depth false after rest
  | .comment content :: rest =>
      l.gap depth due ++
        .comment (Utf8.encode content) ::
          l.forestBefore depth true after rest

/- The tokens of a forest at a depth. -/
def forest
    (l : Layout)
    (depth : Nat)
    (due : Bool)
    (nodes : List Node) : List Token :=
  l.forestBefore depth due [] nodes

/- What comes after a forest does not change its tokens. -/
theorem forestBefore_eq
    (l : Layout)
    (depth : Nat)
    (due : Bool)
    (after : List Token)
    (nodes : List Node) :
    l.forestBefore depth due after nodes =
      l.forest depth due nodes ++ after := by
  unfold forest
  induction nodes using Node.forestInduction
    generalizing depth due after with
  | nil => simp [forestBefore]
  | element tag attributes children rest ihInner ihRest =>
      simp only [forestBefore]
      rw [ihRest depth true after]
      split
      · simp
      · rw [ihInner, ihInner _ _ (_ ++ _ :: _)]
        simp
  | text content rest ih =>
      simp only [forestBefore]
      rw [ih depth false after]
      simp
  | comment content rest ih =>
      simp only [forestBefore]
      rw [ih depth true after]
      simp

end Layout

------------------------------------------------------------
-- Written Documents
------------------------------------------------------------

namespace Document

/- The tokens of a document. -/
def toTokens (d : Document) (l : Layout) : List Token :=
  if l.declaration then
    .instruction (Utf8.encode Layout.declarationText) ::
      l.forest 0 true [d.root.toNode]
  else
    l.forest 0 false [d.root.toNode]

/- The bytes of a document. -/
def toBytes (d : Document) (l : Layout) : Bytes :=
  (d.toTokens l).flatMap Token.spell

/- The text of a document. -/
def toText (d : Document) (l : Layout) : String :=
  Utf8.decodeLossy (d.toBytes l)

end Document

end AutomataStore
