import AutomataStore.Json.Shape
import AutomataStore.Storage.Codec

/-
  Codec options as JSON.

  Any field may be left out, the last ones also of a list; it
  then has its standard value.

  Key definitions include:
    * `CodecOptions.toJson`, `CodecOptions.ofJson?`
-/

------------------------------------------------------------
-- Options
------------------------------------------------------------

namespace AutomataStore

namespace CodecOptions

def toJson (o : CodecOptions) : Json :=
  .object
    [("indent", .nat o.indent.toNat),
     ("suffix", .text o.suffix),
     ("extensions", .list (o.extensions.map .text)),
     ("write_declaration", .bool o.writeDeclaration)]

/- A field that may be left out and then has its default. -/
def field?
    {α : Type}
    (value : Option Json)
    (standard : α)
    (read : Json → Option α) : Option α :=
  match value with
  | none => some standard
  | some j => read j

/- Options with any field left out, also from the end of a list. -/
def ofJson? (j : Json) : Option CodecOptions := do
  let fields ← match j with
    | .object fields =>
        some (["indent", "suffix", "extensions",
          "write_declaration"].map fun k =>
            Json.field? fields k)
    | .list items =>
        if items.length ≤ 4 then
          some ((items.map some ++
            List.replicate 4 none).take 4)
        else
          none
    | _ => none
  match fields with
  | [indent, suffix, extensions, declaration] =>
      let standard : CodecOptions := {}
      return {
        indent := ← field? indent standard.indent Json.word64?
        suffix := ← field? suffix standard.suffix Json.text?
        extensions := ← field? extensions standard.extensions
          (Json.list? Json.text?)
        writeDeclaration := ← field? declaration
          standard.writeDeclaration Json.bool? }
  | _ => none

end CodecOptions

end AutomataStore
