import AutomataStore.Storage.Codec

/-
  Files and folders.

  The files of a program are a list of entries by location,
  together with the location of the working folder.  A
  structure is encoded into a fresh file beside its
  destination, which then takes the place of the destination
  in one step.  The medium decides how far that gets.

  Key definitions include:
    * `Files`, `Files.resolve?`
    * `Files.read?`, `Files.write?`
    * `Medium`
    * `Files.stage?`, `Files.persist?`, `Files.deliver`
    * `Codec.encodeFile`, `Codec.decodeFile`
-/

------------------------------------------------------------
-- Entries
------------------------------------------------------------

namespace AutomataStore

/- The names that lead from the root to a place. -/
abbrev Location := List String

inductive Entry where
  | folder
  | file (content : Bytes)
deriving DecidableEq, Inhabited, Repr

/- The entries at any depth, and where paths start from. -/
structure Files where
  entries : List (Location × Entry) := []
  working : Location := []
deriving DecidableEq, Inhabited, Repr

namespace Files

/- An empty working folder with a location. -/
def emptyAt (l : Location) : Files where
  entries := (List.range l.length).map
    fun n => (l.take (n + 1), .folder)
  working := l

/- The entry at a location.  The root is a folder. -/
def entry? (fs : Files) (l : Location) : Option Entry :=
  if l = [] then some .folder else fs.entries.lookup l

/- Put an entry at a location, in place of an earlier one. -/
def put (fs : Files) (l : Location) (e : Entry) : Files :=
  { fs with
    entries :=
      if (fs.entry? l).isSome then
        fs.entries.map fun x => if x.1 = l then (l, e) else x
      else
        fs.entries ++ [(l, e)] }

/- Take the entry at a location away. -/
def remove (fs : Files) (l : Location) : Files :=
  { fs with entries := fs.entries.filter fun x => x.1 ≠ l }

------------------------------------------------------------
-- Paths
------------------------------------------------------------

/-
  The place that segments lead to from a location.  Each one
  needs a folder to start from; the last place need not
  exist.
-/
def walk?
    (fs : Files)
    (l : Location) : List String → Option Location
  | [] => some l
  | segment :: rest =>
      if fs.entry? l = some .folder then
        if PathName.isIdle segment then
          fs.walk? l rest
        else if segment = ".." then
          fs.walk? l.dropLast rest
        else if PathName.fits segment then
          fs.walk? (l ++ [segment]) rest
        else
          none
      else
        none

/- The place that segments of a path lead to. -/
def follow?
    (fs : Files)
    (path : String)
    (segments : List String) : Option Location :=
  if PathName.isUsable path then
    fs.walk?
      (if PathName.isAbsolute path then [] else fs.working)
      segments
  else
    none

/- The place a path leads to. -/
def resolve? (fs : Files) (path : String) : Option Location :=
  fs.follow? path (PathName.segments path)

/- Whether a path leads to a folder. -/
def isFolder (fs : Files) (path : String) : Bool :=
  (fs.resolve? path).bind fs.entry? = some .folder

/- The content of the file a path leads to. -/
def read? (fs : Files) (path : String) : Option Bytes :=
  match (fs.resolve? path).bind fs.entry? with
  | some (.file content) => some content
  | _ => none

/- Write a file, unless the path leads to a folder. -/
def write?
    (fs : Files)
    (path : String)
    (content : Bytes) : Option Files :=
  match fs.resolve? path with
  | none => none
  | some l =>
      if fs.entry? l = some .folder then
        none
      else
        some (fs.put l (.file content))

/-
  Make a folder where there is nothing.  Slashes at the end of
  the path make no difference.
-/
def makeFolder? (fs : Files) (path : String) : Option Files :=
  match fs.follow? path (PathName.withoutEnd path) with
  | none => none
  | some l =>
      if (fs.entry? l).isSome then
        none
      else
        some (fs.put l .folder)

/- The names in the folder a path leads to, in order. -/
def list? (fs : Files) (path : String) : Option (List String) :=
  match fs.resolve? path with
  | none => none
  | some l =>
      if fs.entry? l = some .folder then
        some ((fs.entries.filterMap fun x =>
          if x.1 ≠ [] ∧ x.1.dropLast = l then
            x.1.getLast?
          else
            none).mergeSort fun s t => decide (s ≤ t))
      else
        none

------------------------------------------------------------
-- Staging
------------------------------------------------------------

/- A number in base 10 with six digits or more. -/
def sixDigits (n : Nat) : String :=
  let digits := (Numeral.decimal n).toList
  String.ofList
    (List.replicate (6 - digits.length) '0' ++ digits)

/- The names of staging files. -/
def stagingName (n : Nat) : String :=
  ".tmp" ++ sixDigits n

/- The path of a place as seen from the root. -/
def absolutePath (fs : Files) (path : String) : String :=
  if PathName.isAbsolute path then
    path
  else
    String.join (fs.working.map fun s => "/" ++ s) ++
      "/" ++ path

/- The first name of a staging file that is free in a folder. -/
def freshName?
    (fs : Files)
    (folder : Location) : Option String :=
  ((List.range (fs.entries.length + 1)).map stagingName).find?
    fun name => (fs.entry? (folder ++ [name])).isNone

end Files

/-
  What a medium decides when a file is put on it: the name of
  a staging file in a folder, if one can be made there, how
  many bytes it takes (`none` is without limit), and which of
  the steps after that it refuses.  The name is always free.
-/
structure Medium where
  freshName? : Files → Location → Option String
  room : Option Nat := none
  refusesFlush : Bool := false
  refusesSync : Bool := false
  refusesMove : Bool := false
  entry?_of_freshName? :
    ∀ {fs folder name}, freshName? fs folder = some name →
      fs.entry? (folder ++ [name]) = none

namespace Medium

/- A medium that refuses nothing. -/
def plain : Medium where
  freshName? := Files.freshName?
  entry?_of_freshName? := fun hName => by
    simpa using List.find?_some hName

/- The sink that a staged file on a medium is. -/
def sink (m : Medium) : Sink where
  room := m.room
  refusesFlush := m.refusesFlush

end Medium

/- Why no file was put at a place. -/
inductive FileFault where
  | unstaged
  | unwritten (fault : SinkFault)
  | unsynced
  | unmoved
deriving DecidableEq, Repr

/- The text of a file fault. -/
def FileFault.message : FileFault → String
  | .unstaged => "no file can be made beside it"
  | .unwritten fault => fault.message
  | .unsynced => "the file cannot be made durable"
  | .unmoved => "no file can be put there"

namespace Files

/-
  A fresh empty file in the folder that holds a path.  The
  file has to have a usable path as seen from the root.
-/
def stage?
    (fs : Files)
    (m : Medium)
    (path : String) : Option (Location × Files) :=
  let folder := PathName.parent path
  let staging :=
    fs.absolutePath folder ++ "/" ++ stagingName 0
  match fs.resolve? folder with
  | none => none
  | some l =>
      if PathName.isUsable staging ∧
          fs.entry? l = some .folder then
        (m.freshName? fs l).map fun name =>
          (l ++ [name], fs.put (l ++ [name]) (.file []))
      else
        none

/-
  Move a staged file to where a path leads, in place of a
  file that is there.  A folder is not replaced.
-/
def persist?
    (fs : Files)
    (m : Medium)
    (staged : Location)
    (path : String) : Option Files :=
  match fs.entry? staged with
  | some (.file content) =>
      if m.refusesMove then
        none
      else
        (fs.remove staged).write? path content
  | _ => none

/-
  Write a document into a staged file, make it durable and
  move it to where a path leads.  Whatever is refused, the
  staged file is still there.
-/
def deliver
    (fs : Files)
    (m : Medium)
    (staged : Location)
    (d : Document)
    (layout : Layout)
    (path : String) : Files × Except FileFault Unit :=
  let (sink, written) := d.writeTo layout m.sink
  let filled := fs.put staged (.file sink.held)
  match written with
  | .error fault => (filled, .error (.unwritten fault))
  | .ok () =>
      if m.refusesSync then
        (filled, .error .unsynced)
      else
        match filled.persist? m staged path with
        | none => (filled, .error .unmoved)
        | some moved => (moved, .ok ())

end Files

------------------------------------------------------------
-- Encoding and Decoding Files
------------------------------------------------------------

namespace Codec

/-
  Encode a structure into the file at a path.  A staged file
  that was not moved is removed.
-/
def encodeFile
    (c : Codec)
    (fs : Files)
    (s : Structure)
    (path : String)
    (m : Medium := .plain) : Files × Traced String :=
  let made := c.documentFor s
  let fail (f : FileFault) : Traced String :=
    ⟨.error (.unwritable path f.message), made.notices⟩
  match made.outcome with
  | .error p => (fs, ⟨.error p, made.notices⟩)
  | .ok d =>
      match fs.stage? m path with
      | none => (fs, fail .unstaged)
      | some (l, staged) =>
          match staged.deliver m l d c.options.layout path with
          | (left, .error f) => (left.remove l, fail f)
          | (moved, .ok ()) =>
              (moved,
                ⟨.ok path, made.notices ++
                  [.encodedStructure path d.root.tag]⟩)

/- Decode the file at a path. -/
def decodeFile
    (c : Codec)
    (fs : Files)
    (path : String) : Traced Structure :=
  match fs.read? path with
  | none => .fail (.unreadable path)
  | some bs => c.decode bs

end Codec

end AutomataStore
