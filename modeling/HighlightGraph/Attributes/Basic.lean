import HighlightGraph.Misfit
import HighlightGraph.Table
import HighlightGraph.Value.Basic
/-!
# Attributes

Attribute tables of nodes, edges and defaults. Texts that begin like markup are taken for markup.
-/

namespace HighlightGraph

/-- Attributes by name, in insertion order. -/
abbrev Attributes := Table String Value

namespace Value

/-- A text that begins with two opening brackets as markup; any other value as it is. -/
def asMarkup : Value → Value
  | str s => if "<<".toList.isPrefixOf s.toList then markup s else str s
  | v => v

end Value

namespace Attributes

def ofMap : Value → Except Misfit Attributes
  | .map entries =>
    match Value.fieldsOf? entries with
    | some fields => .ok (Table.ofList fields)
    | none => .error .notAMap
  | _ => .error .notAMap

def ofValue (v : Value) : Except Misfit Attributes :=
  if v.isGiven then ofMap v else .ok .empty

/-- The attributes of a value, which may be left out, with markup told from text. -/
def recognized (v : Value) : Except Misfit Attributes :=
  (ofValue v).map (·.mapValues Value.asMarkup)

def ofOverlay (v : Value) : Except Misfit Attributes :=
  (ofMap v).mapError fun _ => .notAnOverlay

def toValue (attributes : Attributes) : Value := .ofFields attributes.entries

end Attributes

end HighlightGraph
