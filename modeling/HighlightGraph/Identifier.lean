import HighlightGraph.Text.Lowercase
import HighlightGraph.Value.Display
/-!
# Identifiers

Identifiers are derived from display names: lower-cased, with every run of characters other than
`a` to `z` and `0` to `9` turned into one underscore.
-/

namespace HighlightGraph.Identifier

def isWordChar (c : Char) : Bool :=
  ('a' ≤ c && c ≤ 'z') || ('0' ≤ c && c ≤ '9')

/-- Turns every run of other characters into one underscore. `inRun` says that the underscore of
the current run is already written. -/
def collapse (inRun : Bool) : List Char → List Char
  | [] => []
  | c :: rest =>
    if isWordChar c then c :: collapse false rest
    else if inRun then collapse true rest
    else '_' :: collapse true rest

def normalForm (s : String) : String :=
  String.ofList (collapse false (Text.lower s.toList))

/-- The text of a name that its identifier is made of: nothing for null. -/
def nameText : Value → String
  | .null => ""
  | name => name.text

def ofName (name : Value) : String :=
  normalForm (nameText name)

def ofNode (name : Value) : String := "r_" ++ ofName name

/-- The identifier of the subgraph of a group. Only subgraphs called clusters are drawn as boxes. -/
def ofGroup (name : Value) (boxed : Bool) : String :=
  (if boxed then "cluster_" else "group_") ++ ofName name

end HighlightGraph.Identifier
