import AutomataStore.Json.Machine
import AutomataStore.Structure

/-
  Grammars, choosers and structures as JSON.

  The place that a chooser selects is not checked either.

  Key definitions include:
    * `Grammar.toJson`, `Grammar.ofJson?`
    * `Structure.toJson`, `Structure.ofJson?`
    * `Chooser.toJson`, `Chooser.ofJson?`
-/

------------------------------------------------------------
-- Grammars
------------------------------------------------------------

namespace AutomataStore

namespace Production

def toJson (p : Production) : Json :=
  .object [("lhs", .text p.left), ("rhs", .text p.right)]

def ofJson? (j : Json) : Option Production := do
  match ← j.record? ["lhs", "rhs"] with
  | [some left, some right] =>
      return { left := ← left.text?, right := ← right.text? }
  | _ => none

end Production

namespace Grammar

def toJson (g : Grammar) : Json :=
  .object
    [("productions",
      .list (g.productions.map Production.toJson))]

def ofJson? (j : Json) : Option Grammar := do
  match ← j.record? ["productions"] with
  | [some productions] =>
      return ⟨← productions.list? Production.ofJson?⟩
  | _ => none

end Grammar

------------------------------------------------------------
-- Structures
------------------------------------------------------------

namespace StructureKind

def toJson : StructureKind → Json
  | .automaton kind => .ofVariant "Automaton" kind.toJson
  | .grammar => .text "Grammar"
  | .chooser => .text "Chooser"

def ofJson? (j : Json) : Option StructureKind := do
  match ← j.variant? with
  | ("Automaton", some kind) =>
      return .automaton (← TransitionKind.ofJson? kind)
  | ("Grammar", payload) =>
      if Json.isUnit payload then some .grammar else none
  | ("Chooser", payload) =>
      if Json.isUnit payload then some .chooser else none
  | _ => none

end StructureKind

namespace Structure

mutual

/- The JSON value of a structure. -/
def toJson : Structure → Json
  | .automaton a => .ofVariant "Automaton" a.toJson
  | .dependencyGraph g =>
      .ofVariant "DependencyGraph" g.toJson
  | .grammar g => .ofVariant "Grammar" g.toJson
  | .chooser options selected =>
      .ofVariant "Chooser" (.object
        [("options", .list (listToJson options)),
         ("selected", .nat selected.toNat)])

/- The JSON values of the structures of a list. -/
def listToJson : List Structure → List Json
  | [] => []
  | s :: rest => toJson s :: listToJson rest

end

/- The structure of a JSON value. -/
def ofJson? (j : Json) : Option Structure :=
  match _hVariant : j.variant? with
  | some ("Automaton", some a) =>
      (Automaton.ofJson? a).map .automaton
  | some ("DependencyGraph", some g) =>
      (DependencyGraph.ofJson? g).map .dependencyGraph
  | some ("Grammar", some g) =>
      (Grammar.ofJson? g).map .grammar
  | some ("Chooser", some c) =>
      match _hRecord : c.record? ["options", "selected"] with
      | some [some (.list items), some selected] => do
          let options ← items.attach.mapM
            fun ⟨item, _⟩ => ofJson? item
          return .chooser options (← selected.word64?)
      | _ => none
  | _ => none
termination_by sizeOf j
decreasing_by
  rename_i hMem
  have hPayload := Json.sizeOf_variant?_lt _hVariant
  have hField := Json.sizeOf_record?_lt (x := .list items)
    _hRecord (by simp)
  have hItem := List.sizeOf_lt_of_mem hMem
  simp only [Json.list.sizeOf_spec] at hField
  omega

end Structure

namespace Chooser

def toJson (c : Chooser) : Json :=
  .object
    [("options", .list (Structure.listToJson c.options)),
     ("selected", .nat c.selected.toNat)]

def ofJson? (j : Json) : Option Chooser := do
  match ← j.record? ["options", "selected"] with
  | [some options, some selected] =>
      return {
        options := ← options.list? Structure.ofJson?
        selected := ← selected.word64? }
  | _ => none

end Chooser

end AutomataStore
