import HighlightGraph.Diagram.Register
/-!
# Matching nodes to edges

Two steps that make the nodes of a diagram those that its edges mention: synthesis adds a missing
node for every end of an edge that has none, pruning removes every node that is no end of an edge.
-/

namespace HighlightGraph.Diagram

def synthesizeEnds : List (Value × String) → Diagram → Diagram × Except Misfit (List Node)
  | [], d => (d, .ok [])
  | (name, id) :: rest, d =>
    -- An end that comes again finds the node of its first occurrence.
    if d.nodes.contains id then synthesizeEnds rest d
    else
      match Attributes.recognized (d.options.value .missingNode) with
      | .error e => (d, .error e)
      | .ok attributes =>
        match d.register name attributes true with
        | (d, .error e) => (d, .error e)
        | (d, .ok node) =>
          let (d, nodes) := synthesizeEnds rest d
          (d, nodes.map (node :: ·))

/-- Adds a missing node for every end of an edge that has no node. -/
def synthesize (d : Diagram) : Diagram × Except Misfit (List Node) :=
  synthesizeEnds d.ends d

def remove (d : Diagram) (id : String) (node : Node) : Diagram :=
  let released := d.release node.group id
  { released with nodes := released.nodes.erase id }

def pruneNodes (connected : List String) : List (String × Node) → Diagram → Diagram × List String
  | [], d => (d, [])
  | (id, node) :: rest, d =>
    if connected.contains id then pruneNodes connected rest d
    else
      let (d, removed) := pruneNodes connected rest (d.remove id node)
      (d, id :: removed)

/-- Removes every node that is no end of an edge, and tells which. -/
def prune (d : Diagram) : Diagram × List String :=
  pruneNodes (d.ends.map Prod.snd) d.nodes.entries d

end HighlightGraph.Diagram
