import HighlightGraph.Attributes.Format
import HighlightGraph.Highlight
import HighlightGraph.Identifier
/-!
# Drawing documents

The document that the drawing program lays out: first as a tree of statements made from a diagram,
then as its text.
-/

namespace HighlightGraph

structure NodeStatement where
  id : String
  attributes : Attributes

structure EdgeStatement where
  source : String
  target : String
  attributes : Attributes

structure Subgraph where
  id : String
  settings : List (String × Value)
  nodeDefaults : Attributes
  edgeDefaults : Attributes
  nodes : List NodeStatement
  fragment : Option String

/-- A drawing document. Fragments are text that is taken over as it is. -/
structure Drawing where
  settings : List (String × Value)
  nodeDefaults : Attributes
  edgeDefaults : Attributes
  subgraphs : List Subgraph
  nodes : List NodeStatement
  edges : List EdgeStatement
  fragment : Option String
  sameRank : List String

/-! ## From a diagram -/

def NodeStatement.ofNode (n : Node) : NodeStatement := ⟨n.id, n.drawn⟩

def EdgeStatement.ofEdge (e : Edge) : EdgeStatement := ⟨e.sourceId, e.targetId, e.drawn⟩

def fragmentOf (v : Value) : Except Misfit (Option String) :=
  if v.isGiven then
    match v with
    | .str s => .ok (some s)
    | _ => .error .notAText
  else .ok none

def groupFragment (fragments : Value) (k : Key) : Except Misfit (Option String) :=
  match fragments with
  | .map entries => fragmentOf ((Value.lookupKey k entries).getD .null)
  | _ => .error .notAMap

namespace Subgraph

def ofGroup (options : Options) (group : Group) : Except Misfit Subgraph := do
  let name := group.name.value
  let overlay ← Attributes.ofOverlay (options.value .group)
  let nodeDefaults ← Attributes.ofValue (options.value .groupNode)
  let edgeDefaults ← Attributes.ofValue (options.value .groupEdge)
  let fragment ← groupFragment (options.value .groupRaw) group.name.key
  return {
    id := Identifier.ofGroup name (options.value .cluster).isGiven
    -- The name is the label unless the overlay has one.
    settings := ((Table.ofList [("label", name)]).overlay overlay.entries).entries
    nodeDefaults
    edgeDefaults
    nodes := group.members.values.map .ofNode
    fragment }

end Subgraph

namespace Drawing

def ownSettings (options : Options) : List (String × Value) :=
  [("id", .str rootId), ("rankdir", options.value .rankdir), ("label", options.value .name)]

/-- The identifiers of those names of a list that have a node. -/
def rankMembers (d : Diagram) (names : List Value) : List String :=
  (names.map Identifier.ofNode).filter d.nodes.contains

def ofDiagram (d : Diagram) : Except Misfit Drawing := do
  let graph ← Attributes.ofMap (d.options.value .graph)
  let nodeDefaults ← Attributes.ofValue (d.options.value .node)
  let edgeDefaults ← Attributes.ofValue (d.options.value .edge)
  let subgraphs ← d.groups.values.mapM (Subgraph.ofGroup d.options)
  let fragment ← fragmentOf (d.options.value .raw)
  let names ← (d.options.value .sameRank).items
  return {
    settings := ownSettings d.options ++ graph.entries
    nodeDefaults
    edgeDefaults
    subgraphs
    nodes := d.external.values.map .ofNode
    edges := d.edges.map .ofEdge
    fragment
    sameRank := rankMembers d names }

end Drawing

/-! ## Text -/

def settingLines (indent : String) (settings : List (String × Value)) : List String :=
  (Attributes.items settings).map (indent ++ ·)

def defaultLines (indent kind : String) (attributes : Attributes) : List String :=
  if attributes.listText = "" then [] else [indent ++ kind ++ attributes.listText ++ ";"]

def NodeStatement.line (indent : String) (n : NodeStatement) : String :=
  indent ++ n.id ++ n.attributes.listText ++ ";"

def EdgeStatement.line (e : EdgeStatement) : String :=
  "  " ++ e.source ++ " -> " ++ e.target ++ e.attributes.listText ++ ";"

/-- The lines of a subgraph, with an empty one after it. -/
def Subgraph.lines (s : Subgraph) : List String :=
  ["  subgraph " ++ s.id ++ " \x7b"] ++ settingLines "    " s.settings ++
    defaultLines "    " "node" s.nodeDefaults ++ defaultLines "    " "edge" s.edgeDefaults ++
    s.nodes.map (·.line "    ") ++ s.fragment.toList ++ ["  \x7d", ""]

def rankLines (ids : List String) : List String :=
  if ids.isEmpty then []
  else ["  \x7b rank=same; " ++ " ".intercalate (ids.map (· ++ ";")) ++ " \x7d"]

namespace Drawing

def lines (g : Drawing) : List String :=
  ["digraph G \x7b"] ++ settingLines "  " g.settings ++ defaultLines "  " "node" g.nodeDefaults ++
    defaultLines "  " "edge" g.edgeDefaults ++ [""] ++ g.subgraphs.flatMap Subgraph.lines ++
    g.nodes.map (·.line "  ") ++ [""] ++ g.edges.map EdgeStatement.line ++ g.fragment.toList ++
    rankLines g.sameRank ++ ["\x7d"]

def text (g : Drawing) : String := "\n".intercalate g.lines ++ "\n"

end Drawing

def Diagram.drawingText (d : Diagram) : Except Misfit String :=
  (Drawing.ofDiagram d).map Drawing.text

end HighlightGraph
