import AutomataStore.Summary

/-
  The command line.

  The program summarizes the file it is given, or a built-in
  sample when it is given none.
-/

------------------------------------------------------------
-- The Program
------------------------------------------------------------

namespace AutomataStore

/- The content of a file, if it can be read. -/
def readContent (path : String) : IO (Option Bytes) := do
  try
    let content ← IO.FS.readBinFile path
    return some content.toList
  catch _ =>
    return none

/- What the arguments ask for. -/
def sourceOf : List String → IO SummarySource
  | [] => return .builtIn
  | path :: _ => return .file path (← readContent path)

end AutomataStore

open AutomataStore in
def main (arguments : List String) : IO UInt32 := do
  let summary := Summary.ofSource (← sourceOf arguments)
  IO.print summary.output
  if let some problem := summary.problem then
    IO.eprintln problem.message
  return summary.exitCode
