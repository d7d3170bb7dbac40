/-!
# Paths

A path is shown without empty parts and without dots that stand for the same folder.  Two dots
stay, since only the folders themselves tell where they lead.
-/

namespace Scriptlet
namespace Command

/-- The parts of a path between slashes. -/
def splitPath (cs : List Char) : List (List Char) :=
  cs.foldr (fun c parts =>
    if c = '/' then [] :: parts
    else
      match parts with
      | part :: parts => (c :: part) :: parts
      | [] => [[c]]) [[]]

/-- The slashes that an absolute path starts with: exactly two of them are kept. -/
def pathRoot : List Char → List Char
  | '/' :: '/' :: '/' :: _ => ['/']
  | '/' :: '/' :: _ => ['/', '/']
  | '/' :: _ => ['/']
  | _ => []

/-- The parts of a path that matter. -/
def pathParts (cs : List Char) : List (List Char) :=
  (splitPath cs).filter fun part => part ≠ [] ∧ part ≠ ['.']

/-- A path as it is shown. -/
def normalPath (path : String) : String :=
  let cs := path.toList
  match pathRoot cs ++ ['/'].intercalate (pathParts cs) with
  | [] => "."
  | shown => String.ofList shown

end Command
end Scriptlet
