/-
  Path names.

  A path name is cut into segments at the slashes.  Segments
  that are empty or a single dot name no place of their own.
  A path with a slash at its start is seen from the root,
  every other one from the working folder.

  Key definitions include:
    * `PathName.segments`
    * `PathName.isUsable`
    * `PathName.parent`
    * `PathName.extension?`
-/

------------------------------------------------------------
-- Segments
------------------------------------------------------------

namespace AutomataStore

namespace PathName

/- Cut a list of characters at every slash. -/
def cutAtSlashes : List Char → List (List Char)
  | [] => [[]]
  | c :: cs =>
      if c = '/' then
        [] :: cutAtSlashes cs
      else
        match cutAtSlashes cs with
        | [] => [[c]]
        | first :: others => (c :: first) :: others

/- The segments between the slashes of a path. -/
def segments (path : String) : List String :=
  (cutAtSlashes path.toList).map String.ofList

/- Whether a segment names no place of its own. -/
def isIdle (segment : String) : Bool :=
  segment = "" || segment = "."

/- Leave out the segments after the last one with a place. -/
def dropIdleEnd (l : List String) : List String :=
  (l.reverse.dropWhile isIdle).reverse

/- The segments up to the last one that names a place. -/
def trimmed (path : String) : List String :=
  dropIdleEnd (segments path)

/- Whether a path is seen from the root. -/
def isAbsolute (path : String) : Bool :=
  path.toList.head? = some '/'

/- The segments up to the last one that is not empty. -/
def withoutEnd (path : String) : List String :=
  ((segments path).reverse.dropWhile (· = "")).reverse

/-
  The folder that holds a path.  A path that names no place
  of its own is held by the working folder.
-/
def parent (path : String) : String :=
  let folder := dropIdleEnd (trimmed path).dropLast
  if trimmed path = [] then
    "."
  else if folder = [] then
    if isAbsolute path then "/" else "."
  else
    "/".intercalate folder

------------------------------------------------------------
-- Limits
------------------------------------------------------------

/- The longest name of a place, in bytes. -/
def segmentLimit : Nat :=
  255

/- The longest path, in bytes. -/
def pathLimit : Nat :=
  4095

/- Whether a segment can be the name of a place. -/
def fits (segment : String) : Bool :=
  segment.utf8ByteSize ≤ segmentLimit

/- Whether a path can lead anywhere. -/
def isUsable (path : String) : Bool :=
  path ≠ "" && !path.toList.contains '\x00' &&
    path.utf8ByteSize ≤ pathLimit

------------------------------------------------------------
-- Extensions
------------------------------------------------------------

/-
  The extension of a file name: what follows its last dot.  A
  dot at the start of the name alone does not count.
-/
def extensionOf? (name : String) : Option String :=
  let reversed := name.toList.reverse
  match reversed.dropWhile (· ≠ '.') with
  | [] => none
  | [_] => none
  | _ :: _ :: _ =>
      some (String.ofList
        (reversed.takeWhile (· ≠ '.')).reverse)

/- The extension of the last place a path names. -/
def extension? (path : String) : Option String :=
  match (trimmed path).getLast? with
  | none => none
  | some name =>
      if name = ".." then none else extensionOf? name

end PathName

end AutomataStore
