import HighlightGraph.Attributes.Basic
import HighlightGraph.Attributes.Quoted
import HighlightGraph.Value.Display
/-!
# Texts of attributes

How attributes are written in a drawing document: `name=value;` items with blanks between them, on
their own or as a list in brackets.
-/

namespace HighlightGraph

def DoubleSpelling.document : DoubleSpelling := ⟨"Infinity", "NaN"⟩

/-- How a value is written in a drawing document: markup as it is, truth values and numbers bare,
all else between quotes. -/
def Value.format : Value → String
  | .markup text => text
  | .bool b => if b then "true" else "false"
  | .int n => decimal n
  | .float x => x.text .document
  | v => String.ofList (Attributes.Quoted.encode v.text.toList)

namespace Attributes

def formatItem (item : String × Value) : String :=
  item.1 ++ "=" ++ item.2.format ++ ";"

/-- Whether an attribute is written at all: null stands for an unset one. -/
def isSet : String × Value → Bool
  | (_, .null) => false
  | _ => true

def items (entries : List (String × Value)) : List String :=
  (entries.filter isSet).map formatItem

def text (attributes : Attributes) : String :=
  " ".intercalate (items attributes.entries)

/-- The text of attributes as a list in brackets, which is left out when no attribute is set. -/
def listText (attributes : Attributes) : String :=
  if attributes.text = "" then "" else " [ " ++ attributes.text ++ " ]"

end Attributes

end HighlightGraph
