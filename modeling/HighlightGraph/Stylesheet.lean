import HighlightGraph.Highlight
/-!
# Highlighting stylesheets

The rules that colour the edges of the selected node, those that leave it and those that reach it,
with further rules after them.
-/

namespace HighlightGraph

/-- The stylesheet of a diagram: the nodes that can be selected, and the texts of the rules. -/
structure Stylesheet where
  ids : List String
  sourceStyle : String
  targetStyle : String
  further : String

namespace Stylesheet

def textOf : Value → Except Misfit String
  | .str s => .ok s
  | _ => .error .notAText

def ofDiagram (d : Diagram) : Except Misfit Stylesheet := do
  let sourceStyle ← textOf (d.options.value .fromStyle)
  let targetStyle ← textOf (d.options.value .toStyle)
  let further ← textOf (d.options.value .css)
  return ⟨d.placedNodes.map (·.id), sourceStyle, targetStyle, further⟩

def selector (id token : String) : String :=
  "#" ++ rootId ++ "." ++ id ++ " [id~=" ++ token ++ "] path"

def selectors (s : Stylesheet) (token : String → String) : List String :=
  s.ids.map fun id => selector id (token id)

def rule (selectors : List String) (style : String) : String :=
  ",\n".intercalate selectors ++ "\x7b" ++ style ++ "\x7d\n\n"

def text (s : Stylesheet) : String :=
  rule (s.selectors sourceToken) s.sourceStyle ++ rule (s.selectors targetToken) s.targetStyle ++
    s.further ++ "\n"

end Stylesheet

def Diagram.stylesheetText (d : Diagram) : Except Misfit String :=
  (Stylesheet.ofDiagram d).map Stylesheet.text

end HighlightGraph
