import AutomataStore.Document.Layout

/-
  Sinks for written documents.

  A sink takes bytes chunk by chunk.  A limited sink takes
  what fits and fails on the first byte that does not.  A
  written document is flushed at the end.

  Key definitions include:
    * `Sink`
    * `Sink.write`, `Sink.writeAll`
    * `Document.writeTo`
-/

------------------------------------------------------------
-- Sinks
------------------------------------------------------------

namespace AutomataStore

open Markup (Token)

/- Why a sink failed. -/
inductive SinkFault where
  | full
  | flushRefused
deriving DecidableEq, Repr

/- The text of a sink fault. -/
def SinkFault.message : SinkFault → String
  | .full => "sink full"
  | .flushRefused => "flush refused"

/-
  The chunks a sink holds, newest first, how many more bytes
  it takes (`none` is without limit) and whether flushing it
  fails.
-/
structure Sink where
  newestFirst : List Bytes := []
  room : Option Nat := none
  refusesFlush : Bool := false
deriving DecidableEq, Repr

namespace Sink

/- The bytes a sink holds. -/
def held (s : Sink) : Bytes :=
  s.newestFirst.reverse.flatten

/- Write one chunk, as far as it fits. -/
def write
    (s : Sink)
    (chunk : Bytes) : Sink × Except SinkFault Unit :=
  match s.room with
  | none =>
      ({ s with newestFirst := chunk :: s.newestFirst }, .ok ())
  | some n =>
      let s' : Sink :=
        { s with
          newestFirst := chunk.take n :: s.newestFirst
          room := some (n - chunk.length) }
      if chunk.length ≤ n then
        (s', .ok ())
      else
        (s', .error .full)

/- Write chunks up to the first one that fails. -/
def writeAll
    (s : Sink) : List Bytes → Sink × Except SinkFault Unit
  | [] => (s, .ok ())
  | chunk :: rest =>
      match s.write chunk with
      | (s', .ok ()) => s'.writeAll rest
      | (s', .error fault) => (s', .error fault)

/- Flush a sink. -/
def flush (s : Sink) : Except SinkFault Unit :=
  if s.refusesFlush then
    .error .flushRefused
  else
    .ok ()

end Sink

------------------------------------------------------------
-- Writing into a Sink
------------------------------------------------------------

/- The chunks in which a token is written. -/
def Markup.Token.chunks (t : Token) : List Bytes :=
  [t.before, t.content, t.after]

namespace Document

/- Write a document into a sink and flush it. -/
def writeTo
    (d : Document)
    (l : Layout)
    (s : Sink) : Sink × Except SinkFault Unit :=
  match s.writeAll ((d.toTokens l).flatMap Token.chunks) with
  | (s', .ok ()) => (s', s'.flush)
  | (s', .error fault) => (s', .error fault)

end Document

end AutomataStore
