import AutomataStore.Markup.Fault

/-
  Feeds of pieces read from bytes.

  Each piece carries the number of bytes read once it was
  complete.  A feed ends at the end of the bytes or breaks
  off at a fault.

  Key definitions include:
    * `Markup.Feed`
    * `Feed.items`
    * `Feed.Complete`
-/

------------------------------------------------------------
-- Feeds
------------------------------------------------------------

namespace AutomataStore

namespace Markup

inductive Feed (α : Type) where
  | complete (offset : Nat)
  | broken (offset : Nat) (fault : Fault)
  | item (a : α) (offset : Nat) (rest : Feed α)
deriving DecidableEq, Repr

namespace Feed

variable {α : Type}

/- The pieces before the end or the fault. -/
def items : Feed α → List α
  | .complete _ => []
  | .broken _ _ => []
  | .item a _ rest => a :: rest.items

/- The report of the fault a feed breaks off at, if any. -/
def fault? : Feed α → Option Malformed
  | .complete _ => none
  | .broken offset fault => some ⟨offset, fault⟩
  | .item _ _ rest => rest.fault?

/- A complete feed runs to the end of the bytes. -/
def Complete (s : Feed α) : Prop :=
  s.fault? = none

instance
    (s : Feed α) :
    Decidable s.Complete :=
  inferInstanceAs (Decidable (s.fault? = none))

end Feed

end Markup

end AutomataStore
