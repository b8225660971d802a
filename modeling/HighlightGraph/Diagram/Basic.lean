import HighlightGraph.Options
/-!
# Diagrams

A diagram holds nodes, groups of nodes and edges. A node stands in exactly one place, a group or
the set of external nodes, and under its identifier in an index of all nodes.
-/

namespace HighlightGraph

/-- The name of a group: a value that can be a key. -/
structure GroupName where
  value : Value
  key : Key
  key_eq : value.key? = some key

def GroupName.ofValue? (v : Value) : Option GroupName :=
  match h : v.key? with
  | some k => some ⟨v, k, h⟩
  | none => none

/-- A node. Nodes without a group are external; missing nodes stand for names that only edges
mention. -/
structure Node where
  name : Value
  id : String
  attributes : Attributes
  group : Option GroupName
  missing : Bool

structure Edge where
  source : Value
  sourceId : String
  target : Value
  targetId : String
  attributes : Attributes

/-- A group: its name as it was first spelled, and its nodes by identifier. -/
structure Group where
  name : GroupName
  members : Table String Node

structure Diagram where
  options : Options
  nodes : Table String Node
  groups : Table Key Group
  external : Table String Node
  edges : List Edge

def Edge.ends (e : Edge) : List (Value × String) :=
  [(e.source, e.sourceId), (e.target, e.targetId)]

def Node.toValue (n : Node) : Value :=
  .ofFields
    [("name", n.name), ("id", .str n.id),
      ("group", match n.group with
        | some group => group.value
        | none => .null),
      ("missing", .bool n.missing), ("attributes", n.attributes.toValue)]

def Edge.toValue (e : Edge) : Value :=
  .ofFields
    [("from", e.source), ("fromId", .str e.sourceId), ("to", e.target),
      ("toId", .str e.targetId), ("attributes", e.attributes.toValue)]

namespace Diagram

def new (options : Options) : Diagram := ⟨options, .empty, .empty, .empty, []⟩

/-- The nodes of all groups in order of creation, then the external nodes. -/
def placedNodes (d : Diagram) : List Node :=
  d.groups.values.flatMap (·.members.values) ++ d.external.values

def ends (d : Diagram) : List (Value × String) :=
  d.edges.flatMap Edge.ends

/-- The node whose identifier is a value. Lists and maps cannot be looked up. -/
def find (d : Diagram) (id : Value) : Except Misfit (Option Node) :=
  match id.key? with
  | some (.text s) => .ok (d.nodes.get? s)
  | some _ => .ok none
  | none => .error .notAKey

def toValue (d : Diagram) : Value :=
  .ofFields
    [("groups", .map (d.groups.values.map fun group =>
        (group.name.value, .list (group.members.values.map Node.toValue)))),
      ("external", .list (d.external.values.map Node.toValue)),
      ("edges", .list (d.edges.map Edge.toValue))]

end Diagram

end HighlightGraph
