import AutomataStore.Document.Reading
import AutomataStore.Document.Sink
import AutomataStore.Storage.PathName
import AutomataStore.Storage.Registry

/-
  The codec.

  Decoding parses bytes, chooses a transducer by the type of
  the document and reads the structure.  Encoding resolves
  choosers, chooses a transducer by kind, and writes the
  normalized document.

  Key definitions include:
    * `CodecOptions`, `Codec`
    * `Codec.decode`
    * `Codec.documentFor`, `Codec.encodeTo`
    * `Codec.canEncode`
    * `Codec.accepts`, `Codec.proposeName`
-/

------------------------------------------------------------
-- Options
------------------------------------------------------------

namespace AutomataStore

/-
  How files are written and named: the spaces for each level
  of depth, the suffix of a proposed name, the extensions of
  files worth offering, and whether the declaration is
  written.
-/
structure CodecOptions where
  indent : UInt64 := 2
  suffix : String := ".jff"
  extensions : List String := ["jff", "xml"]
  writeDeclaration : Bool := true
deriving DecidableEq, Inhabited, Repr

/- The layout of the files that the options ask for. -/
def CodecOptions.layout (o : CodecOptions) : Layout where
  indent := o.indent.toNat
  declaration := o.writeDeclaration

structure Codec where
  registry : Registry := .standard
  options : CodecOptions := {}
deriving DecidableEq, Inhabited, Repr

namespace Codec

/- The name of the file format. -/
def description : String :=
  "JFLAP 4 File"

------------------------------------------------------------
-- Decoding
------------------------------------------------------------

/- Parse the document that bytes spell. -/
def parse (bs : Bytes) : Traced Document :=
  match Document.parse bs with
  | .ok d => .ok d
  | .error m => .fail (.malformed m)

/- The structure that bytes spell. -/
def decode (c : Codec) (bs : Bytes) : Traced Structure := do
  let d ← parse bs
  let t ← c.registry.forDocument d
  let s ← t.ofDocument d
  .notify (.decodedDocument t.tag)
  return s

------------------------------------------------------------
-- Encoding
------------------------------------------------------------

/- The document that is written for a structure. -/
def documentFor
    (c : Codec)
    (s : Structure) : Traced Document := do
  match s.resolve? with
  | none => .fail (.unsupportedStructure .chooser)
  | some target =>
      let t ← c.registry.forStructure target
      let d ← (⟨t.toDocument target, []⟩ : Traced Document)
      return d.normalize

/- Write a structure into a sink. -/
def encodeTo
    (c : Codec)
    (s : Structure)
    (sink : Sink) : Sink × Traced Unit :=
  let made := c.documentFor s
  match made.outcome with
  | .error p => (sink, ⟨.error p, made.notices⟩)
  | .ok d =>
      let (sink, outcome) := d.writeTo c.options.layout sink
      (sink,
        ⟨outcome.mapError fun f => .unwritable "" f.message,
          made.notices⟩)

/- The bytes of a structure. -/
def encode (c : Codec) (s : Structure) : Traced Bytes :=
  let (sink, written) := c.encodeTo s {}
  ⟨written.outcome.map fun _ => sink.held, written.notices⟩

/- Whether a structure can be encoded. -/
def canEncode (c : Codec) (s : Structure) : Bool :=
  match s.resolve? with
  | none => false
  | some target =>
      !target.isBareDependency &&
        c.registry.supports target.kind

------------------------------------------------------------
-- File Names
------------------------------------------------------------

/-
  Whether a path is worth offering: a folder, or a file with
  a known extension.
-/
def accepts
    (c : Codec)
    (isFolder : Bool)
    (path : String) : Bool :=
  isFolder ||
    match PathName.extension? path with
    | none => false
    | some extension =>
        c.options.extensions.contains extension

/- A name with the suffix, which is added if it is missing. -/
def proposeName (c : Codec) (name : String) : String :=
  if c.options.suffix.toList.isSuffixOf name.toList then
    name
  else
    name ++ c.options.suffix

end Codec

end AutomataStore
