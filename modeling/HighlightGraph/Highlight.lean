import HighlightGraph.Diagram.Basic
import HighlightGraph.Value.Display
/-!
# Highlighting marks

The marks by which the stylesheet finds the edges of a selected node in the drawing: every edge
carries a token for its source and one for its target, and every node a link that selects it.
-/

namespace HighlightGraph

def rootId : String := "g"

/-- The token of the edges that leave a node. -/
def sourceToken (id : String) : String := "f_" ++ id

/-- The token of the edges that reach a node. -/
def targetToken (id : String) : String := "t_" ++ id

/-- The link that selects a node: it makes the identifier a class of the drawing. -/
def selectLink (id : String) : String :=
  "javascript:(function()\x7bdocument.getElementById('" ++ rootId ++
    "').setAttribute('class', 'graph " ++ id ++ "')\x7d)()"

def Edge.marks (e : Edge) : String :=
  sourceToken e.sourceId ++ " " ++ targetToken e.targetId

def Edge.tooltip (e : Edge) : String :=
  e.source.text ++ " -&gt; " ++ e.target.text

/-- The attributes with which a node is drawn. Edges between nodes that share a group attribute are
kept straight. -/
def Node.drawn (n : Node) : Attributes :=
  let grouped :=
    match n.group with
    | some group => n.attributes.insert "group" group.value
    | none => n.attributes
  grouped.insert "href" (.str (selectLink n.id))

def Edge.drawn (e : Edge) : Attributes :=
  (e.attributes.insert "edgetooltip" (.str e.tooltip)).insert "id" (.str e.marks)

end HighlightGraph
