import Scriptlet.Command.Path

/-!
# Folders

What a command finds under a path, and a folder held in memory to look paths up in.  A path leads
through folders only: a part after a file leads nowhere, and so does a way out of the folder and
into something else.  Names and whole paths are bounded in length; a path that is looked up beyond
a bound is overlong, which is not the same as leading nowhere.
-/

namespace Scriptlet
namespace Command

/-- What is found under a path. -/
inductive Entry where
  | file (bytes : List UInt8)
  | folder
  /-- The path, or a name on its way, is longer than it may be. -/
  | overlong
  deriving DecidableEq, Repr

/-- The number of bytes that a name may have. -/
def maxNameBytes : Nat := 255

/-- The number of bytes that a path may have. -/
def maxPathBytes : Nat := 4095

/-- The way to every file and folder from the folder that holds them. -/
structure Folder where
  entries : List (List (List Char) × Entry)

namespace Folder

/-- The folder with the given entries. -/
def ofEntries (entries : List (String × Entry)) : Folder :=
  ⟨entries.map fun (path, entry) => (pathParts path.toList, entry)⟩

/-- What stands at the end of a way.  The folders on the way to an entry exist as well. -/
def entryAt? (f : Folder) (way : List (List Char)) : Option Entry :=
  match f.entries.lookup way with
  | some entry => some entry
  | none => if f.entries.any fun (other, _) => way.isPrefixOf other then some .folder else none

/-- A place that parts of a path have led to: a way from the folder, outside of it, or a name
that is too long. -/
inductive Place where
  | inside (way : List (List Char))
  | outside
  | overlong
  deriving DecidableEq, Repr

/-- What stands at a place. -/
def Place.entry? (f : Folder) : Place → Option Entry
  | .inside [] => some .folder
  | .inside way => f.entryAt? way
  | .outside => some .folder
  | .overlong => some .overlong

/-- Follows one part of a path from a folder. -/
def Place.enter? (place : Place) (part : List Char) : Option Place :=
  if maxNameBytes < (String.ofList part).utf8ByteSize then some .overlong
  else
    match place with
    | .inside way =>
      if part = ['.', '.'] then
        match way with
        | [] => some .outside
        | way => some (.inside way.dropLast)
      else some (.inside (way ++ [part]))
    | .outside => if part = ['.', '.'] then some .outside else none
    | .overlong => none

/-- Follows one part of a path from a place. -/
def Place.step? (f : Folder) (place : Place) (part : List Char) : Option Place :=
  match place.entry? f with
  | some .folder => place.enter? part
  | some .overlong => some .overlong
  | _ => none

/-- The place that a path leads to, whether something stands there or not.  A null stands in no
path. -/
def place? (f : Folder) (path : String) : Option Place :=
  let cs := path.toList
  if '\x00' ∈ cs then none
  else if maxPathBytes < path.utf8ByteSize then some .overlong
  else
    let start := if pathRoot cs = [] then Place.inside [] else .outside
    (pathParts cs).foldlM (Place.step? f) start

/-- What stands under a path. -/
def entry? (f : Folder) (path : String) : Option Entry := (f.place? path).bind (Place.entry? f)

end Folder
end Command
end Scriptlet
