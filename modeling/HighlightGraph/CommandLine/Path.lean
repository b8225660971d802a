/-!
# Paths

Paths of files, taken apart at slashes. Empty parts and parts that are a single dot mean nothing.
-/

namespace HighlightGraph.CommandLine

/-- A path: the slashes of its root, none if it is relative, and its parts. -/
structure Path where
  root : String
  parts : List String
deriving DecidableEq

namespace Path

def splitSlashes : List Char → List (List Char)
  | [] => [[]]
  | c :: rest =>
    if c = '/' then [] :: splitSlashes rest
    else
      match splitSlashes rest with
      | [] => [[c]]
      | part :: parts => (c :: part) :: parts

/-- The root of a path. Two slashes are a root of their own, three or more are one. -/
def rootOf : List Char → String
  | '/' :: '/' :: '/' :: _ => "/"
  | '/' :: '/' :: _ => "//"
  | '/' :: _ => "/"
  | _ => ""

def ofString (s : String) : Path where
  root := rootOf s.toList
  parts := ((splitSlashes s.toList).map String.ofList).filter fun part => part ≠ "" && part ≠ "."

/-- The text of a path. The path without parts is a dot. -/
def toString (p : Path) : String :=
  if p.root = "" && p.parts.isEmpty then "." else p.root ++ "/".intercalate p.parts

end Path

end HighlightGraph.CommandLine
